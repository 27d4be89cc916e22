import Mathlib.Data.UInt
import Mathlib.Logic.Function.Basic
import SabaOS.Klib.WrappingRing
import SabaOS.Lib.Expand
import SabaOS.Lib.Tracking

namespace SabaOS.Dev.Tty

open SabaOS.Klib SabaOS.Lib

def newline : UInt8 := 0x0a

def carriageReturn : UInt8 := 0x0d

def inlcr : UInt32 := 0o100

def igncr : UInt32 := 0o200

def icrnl : UInt32 := 0o400

def onlcr : UInt32 := 0o4

def isig : UInt32 := 0o1

def vintr : Nat := 0

def vquit : Nat := 1

def vsusp : Nat := 10

def sigInt : Int := 2

def sigQuit : Int := 3

def sigTstp : Int := 20

structure Termios where
  cIflag : UInt32
  cOflag : UInt32
  cLflag : UInt32
  cCc : Nat → UInt8

namespace Termios

def iflag (t : Termios) (flag : UInt32) : Bool := t.cIflag &&& flag != 0

def oflag (t : Termios) (flag : UInt32) : Bool := t.cOflag &&& flag != 0

def lflag (t : Termios) (flag : UInt32) : Bool := t.cLflag &&& flag != 0

-- A `char` is signed and a `cc_t` is not: a byte from 0x80 on equals no control character.
def isControl (t : Termios) (c : UInt8) (index : Nat) : Bool := c < 0x80 && c == t.cCc index

def signal (t : Termios) (c : UInt8) : Option Int :=
  if t.lflag isig then
    if t.isControl c vintr then some sigInt
    else if t.isControl c vquit then some sigQuit
    else if t.isControl c vsusp then some sigTstp
    else none
  else none

def processOutputChar (t : Termios) (c : UInt8) : List UInt8 :=
  (if c == newline && t.oflag onlcr then [carriageReturn] else []) ++ [c]

def mapped (t : Termios) (c : UInt8) : List UInt8 :=
  if c == carriageReturn && t.iflag icrnl then [newline]
  else if c == newline && t.iflag inlcr then [carriageReturn]
  else []

def processInputChar (t : Termios) (c : UInt8) : List UInt8 × Option Int :=
  if c == carriageReturn && t.iflag igncr then ([],none)
  else
    match t.signal c with
    | some signal => (t.mapped c,some signal)
    | none => (t.mapped c ++ [c],none)

def processChar (t : Termios) (slave : Bool) (c : UInt8) : List UInt8 × Option Int :=
  if slave then (t.processOutputChar c,none) else t.processInputChar c

end Termios

abbrev Ring := RingBuffer UInt8 0x1000

-- The flag is `end`.
def put (r : Ring × Bool) (c : UInt8) : Ring × Bool :=
  let written := r.1.write [c]
  (written.1,r.2 || written.2 == 0)

structure Written where
  ring : Ring
  count : Nat
  signals : List Int
  fault : Bool

def writeLoop (t : Termios) (foreground : Option Nat) (slave : Bool) : Ring → List UInt8 → Written
  | ring, [] => ⟨ring,0,[],false⟩
  | ring, c :: buf =>
    let (chars,signal) := t.processChar slave c
    let (ring,stop) := chars.foldl put (ring,false)
    -- `send_signal` is called on the group without a check that there is one.
    if signal.isSome && foreground.isNone then ⟨ring,0,[],true⟩
    else if stop then ⟨ring,0,signal.toList,false⟩
    else
      let rest := writeLoop t foreground slave ring buf
      ⟨rest.ring,rest.count + 1,signal.toList ++ rest.signals,rest.fault⟩

structure PseudoTerminalEnd where
  ringBuffer : Ring
  packetMode : Bool := false

-- `ends true` is the slave; `signals` were sent to the foreground process group.
structure Pty where
  termios : Termios
  foreground : Option Nat
  ends : Bool → PseudoTerminalEnd
  signals : List Int := []
  fault : Bool := false

namespace Pty

def setRing (p : Pty) (slave : Bool) (ring : Ring) : Pty :=
  { p with ends := Function.update p.ends slave { p.ends slave with ringBuffer := ring } }

def write (p : Pty) (slave : Bool) (buf : List UInt8) : Pty × Nat :=
  let written := writeLoop p.termios p.foreground slave (p.ends !slave).ringBuffer buf
  ({ p.setRing (!slave) written.ring with
    signals := p.signals ++ written.signals
    fault := written.fault },written.count)

def read (p : Pty) (slave : Bool) (count : Nat) : Pty × List UInt8 × List UInt8 :=
  let self := p.ends slave
  if self.packetMode ∧ 0 < count then
    let (ring,data) := self.ringBuffer.read (count - 1)
    (p.setRing slave ring,[0],data)
  else
    let (ring,data) := self.ringBuffer.read count
    (p.setRing slave ring,[],data)

def setPacketMode (p : Pty) (slave on : Bool) : Pty :=
  { p with ends := Function.update p.ends slave { p.ends slave with packetMode := on } }

end Pty

inductive Op where
  | write (slave : Bool) (buf : List UInt8) (count : Nat)
  | read (slave : Bool) (count : Nat) (status data : List UInt8)
  | setTermios (termios : Termios)
  | setPacketMode (slave on : Bool)
  | setForeground (group : Option Nat)

def Step (p : Pty) (op : Op) (q : Pty) : Prop := p.fault = false ∧ match op with
  | .write slave buf count =>
    (p.ends !slave).ringBuffer.isFull = false ∧ p.write slave buf = (q,count)
  | .read slave count status data =>
    (p.ends slave).ringBuffer.isEmpty = false ∧ p.read slave count = (q,status,data)
  | .setTermios termios => { p with termios := termios } = q
  | .setPacketMode slave on => p.setPacketMode slave on = q
  | .setForeground group => { p with foreground := group } = q

namespace Termios

def isSignal (t : Termios) (c : UInt8) : Bool :=
  t.lflag isig && (c == t.cCc vintr || c == t.cCc vquit || c == t.cCc vsusp)

def transform (t : Termios) (slave : Bool) (c : UInt8) : List UInt8 :=
  if slave then if c = newline ∧ t.oflag onlcr then [carriageReturn,newline] else [c]
  else if c = carriageReturn ∧ t.iflag igncr then []
  else if t.isSignal c then []
  else if c = carriageReturn ∧ t.iflag icrnl then [newline]
  else if c = newline ∧ t.iflag inlcr then [carriageReturn]
  else [c]

end Termios

structure Wire where
  termios : Termios
  sent : Bool → List UInt8
  got : Bool → List UInt8

def Wire.send (w : Wire) (slave : Bool) (bytes : List UInt8) : Wire :=
  { w with sent := Function.update w.sent slave (w.sent slave ++ bytes) }

def Wire.receive (w : Wire) (slave : Bool) (bytes : List UInt8) : Wire :=
  { w with got := Function.update w.got slave (w.got slave ++ bytes) }

def Wire.apply (w : Wire) : Op → Wire
  | .write slave buf count => w.send (!slave) ((buf.take count).flatMap (w.termios.transform slave))
  | .read slave _ _ data => w.receive slave data
  | .setTermios termios => { w with termios := termios }
  | .setPacketMode _ _ => w
  | .setForeground _ => w

structure Faithful (p : Pty) (w : Wire) : Prop where
  running : p.fault = false
  termios : p.termios = w.termios
  sent : ∀ slave, w.sent slave = w.got slave ++ (p.ends slave).ringBuffer.queue

def room (r : Ring) : Nat := 0x1000 - r.queue.length

section Writing

variable {r : Ring} {t : Termios} {slave stop : Bool} {c : UInt8} {cs buf : List UInt8}

theorem write_one (hr : r.Wrapping) (c : UInt8) :
    (r.write [c]).1.Wrapping ∧ (r.write [c]).1.queue = r.queue ++ [c].take (room r) ∧
      (r.write [c]).2 = min 1 (room r) := by
  obtain ⟨hcount,hqueue,hw⟩ := hr.write_spec [c]
  have hroom : room r = 0x1000 - r.dataCount := by rw [room,RingBuffer.queue_length]
  rw [List.length_singleton,← hroom] at hcount
  refine ⟨hw,?_,hcount⟩
  rw [hqueue,hcount]
  rcases Nat.eq_zero_or_pos (room r) with h | h
  · rw [h]
    rfl
  · rw [Nat.min_eq_left h,List.take_of_length_le (l := [c]) h]
    rfl

theorem room_append {r' : Ring} (h : r'.queue = r.queue ++ cs) : room r' = room r - cs.length := by
  rw [room,h,List.length_append,room]
  omega

variable (cs stop) in
theorem putAll_spec (hr : r.Wrapping) : (cs.foldl put (r,stop)).1.Wrapping ∧
    (cs.foldl put (r,stop)).1.queue = r.queue ++ cs.take (room r) ∧
      (cs.foldl put (r,stop)).2 = (stop || decide (room r < cs.length)) := by
  induction cs generalizing r stop with
  | nil => exact ⟨hr,by simp,by simp⟩
  | cons c cs ih =>
    obtain ⟨hw,hqueue,hcount⟩ := write_one hr c
    have hroom := room_append hqueue
    obtain ⟨hw',hqueue',hstop'⟩ := ih (stop || (r.write [c]).2 == 0) hw
    rw [List.foldl_cons]
    refine ⟨hw',?_,?_⟩
    · refine hqueue'.trans ?_
      rw [hqueue,hroom,List.append_assoc]
      cases hr0 : room r with
      | zero => simp
      | succ n => simp
    · refine hstop'.trans ?_
      rw [hcount,hroom]
      cases hr0 : room r with
      | zero => simp
      | succ n => simp

def chars (t : Termios) (slave : Bool) (c : UInt8) : List UInt8 := (t.processChar slave c).1

def Raises (t : Termios) (slave : Bool) (c : UInt8) : Prop := (t.processChar slave c).2.isSome

variable {foreground : Option Nat}

theorem writeLoop_cons (c : UInt8) (buf : List UInt8) (hr : r.Wrapping) :
    (Raises t slave c ∧ foreground = none ∧ ∃ ring, ring.Wrapping ∧
      writeLoop t foreground slave r (c :: buf) = ⟨ring,0,[],true⟩) ∨
    ¬(Raises t slave c ∧ foreground = none) ∧ ∃ ring, ring.Wrapping ∧
      ring.queue = r.queue ++ (chars t slave c).take (room r) ∧
      (room r < (chars t slave c).length ∧ writeLoop t foreground slave r (c :: buf) =
        ⟨ring,0,(t.processChar slave c).2.toList,false⟩ ∨
      (chars t slave c).length ≤ room r ∧ writeLoop t foreground slave r (c :: buf) =
        ⟨(writeLoop t foreground slave ring buf).ring,(writeLoop t foreground slave ring buf).count + 1,
          (t.processChar slave c).2.toList ++ (writeLoop t foreground slave ring buf).signals,
          (writeLoop t foreground slave ring buf).fault⟩) := by
  obtain ⟨hw,hqueue,hstop⟩ := putAll_spec false (t.processChar slave c).1 hr
  rw [Bool.false_or] at hstop
  by_cases hfault : (t.processChar slave c).2.isSome ∧ foreground = none
  · refine .inl ⟨hfault.1,hfault.2,_,hw,?_⟩
    simp only [writeLoop,hfault.1,hfault.2,Option.isNone_none,Bool.and_self,if_true]
  · have hsent : ((t.processChar slave c).2.isSome && foreground.isNone) = false := by
      simpa [Option.isSome_iff_ne_none] using hfault
    refine .inr ⟨hfault,_,hw,hqueue,?_⟩
    simp only [writeLoop,hsent,hstop,chars,decide_eq_true_eq,Bool.false_eq_true,if_false]
    rcases Nat.lt_or_ge (room r) (t.processChar slave c).1.length with hlt | hle
    · exact .inl ⟨hlt,if_pos hlt⟩
    · exact .inr ⟨hle,if_neg (by omega)⟩

variable (t slave buf foreground) in
theorem writeLoop_spec (hr : r.Wrapping) : (writeLoop t foreground slave r buf).ring.Wrapping ∧
    ((writeLoop t foreground slave r buf).fault = false ↔
      (foreground = none → EachTurn (fun c => ¬Raises t slave c) (chars t slave) (room r) buf)) ∧
    ((writeLoop t foreground slave r buf).fault = false →
      (writeLoop t foreground slave r buf).ring.queue = r.queue ++ emitted (chars t slave) (room r) buf ∧
      (writeLoop t foreground slave r buf).count = taken (chars t slave) (room r) buf) := by
  induction buf generalizing r with
  | nil => exact ⟨hr,iff_of_true rfl fun _ => trivial,fun _ => ⟨by simp [writeLoop,emitted],rfl⟩⟩
  | cons c buf ih =>
    rcases @writeLoop_cons r t slave foreground c buf hr with
      ⟨hraises,hnone,ring,hw,hloop⟩ | ⟨hsent,ring,hw,hqueue,⟨hlt,hloop⟩ | ⟨hle,hloop⟩⟩
    · rw [hloop]
      refine ⟨hw,iff_of_false (by simp) fun hturn => (hturn hnone).1 hraises,fun hf => ?_⟩
      cases hf
    · rw [hloop,emitted_cons_of_lt hlt,taken_cons_of_lt hlt]
      refine ⟨hw,iff_of_true rfl fun hnone => ⟨fun hraises => hsent ⟨hraises,hnone⟩,fun hle => ?_⟩,
        fun _ => ⟨hqueue,rfl⟩⟩
      omega
    · obtain ⟨hw',hfault',hspec'⟩ := ih hw
      rw [List.take_of_length_le hle] at hqueue
      rw [room_append hqueue] at hfault' hspec'
      rw [hloop,emitted_cons_of_le hle,taken_cons_of_le hle]
      refine ⟨hw',hfault'.trans ?_,fun hf => ?_⟩
      · constructor
        · exact fun h hnone => ⟨fun hraises => hsent ⟨hraises,hnone⟩,fun _ => h hnone⟩
        · exact fun h hnone => (h hnone).2 hle
      · obtain ⟨hqueue',hcount'⟩ := hspec' hf
        refine ⟨?_,congrArg (· + 1) hcount'⟩
        exact hqueue'.trans (by rw [hqueue,List.append_assoc])

end Writing

-- What the input side gets wrong: a byte that is mapped goes in beside what it is mapped to, and
-- a control character with the high bit is not seen.
def Mistaken (t : Termios) (c : UInt8) : Prop :=
  c = carriageReturn ∧ t.iflag icrnl = true ∧ t.iflag igncr = false ∨
    c = newline ∧ t.iflag inlcr = true ∨ 0x80 ≤ c ∧ t.isSignal c = true

def Troubled (t : Termios) (slave : Bool) (room : Nat) (c : UInt8) : Prop :=
  if slave then c = newline ∧ t.oflag onlcr = true ∧ room = 1 else 0 < room ∧ Mistaken t c

section Discipline

variable {t : Termios} {slave : Bool} {room : Nat} {c : UInt8}

theorem signal_eq (h : c < 0x80) : (t.signal c).isSome = t.isSignal c := by
  unfold Termios.signal Termios.isSignal Termios.isControl
  simp only [h,decide_true,Bool.true_and]
  cases t.lflag isig <;> cases c == t.cCc vintr <;> cases c == t.cCc vquit <;> cases c == t.cCc vsusp <;> rfl

theorem signal_high (h : 0x80 ≤ c) : t.signal c = none := by
  have hc : ¬c < 0x80 := by simpa using h
  unfold Termios.signal Termios.isControl
  simp [hc]

theorem chars_input : chars t false c =
    if c = carriageReturn ∧ t.iflag igncr then []
    else if (t.signal c).isSome then t.mapped c else t.mapped c ++ [c] := by
  rw [chars,Termios.processChar,Termios.processInputChar]
  simp only [Bool.and_eq_true,beq_iff_eq,Bool.false_eq_true,if_false]
  split_ifs with h h'
  · rfl
  · cases hs : t.signal c with
    | none => simp [hs] at h'
    | some signal => rfl
  · cases hs : t.signal c with
    | none => rfl
    | some signal => simp [hs] at h'

theorem chars_cr : chars t false carriageReturn =
    if t.iflag igncr then []
    else (if t.iflag icrnl then [newline] else []) ++ (if t.isSignal carriageReturn then [] else [carriageReturn]) := by
  rw [chars_input,signal_eq (by decide),Termios.mapped]
  cases t.iflag igncr <;> cases t.iflag icrnl <;> cases t.isSignal carriageReturn <;>
    simp [newline,carriageReturn]

theorem chars_newline : chars t false newline =
    (if t.iflag inlcr then [carriageReturn] else []) ++ (if t.isSignal newline then [] else [newline]) := by
  rw [chars_input,signal_eq (by decide),Termios.mapped]
  cases t.iflag inlcr <;> cases t.isSignal newline <;> simp [newline,carriageReturn]

theorem chars_other (hcr : c ≠ carriageReturn) (hnl : c ≠ newline) :
    chars t false c = if t.isSignal c ∧ c < 0x80 then [] else [c] := by
  rw [chars_input,Termios.mapped]
  rcases UInt8.lt_or_le c 0x80 with h | h
  · rw [signal_eq h]
    simp [hcr,hnl,h]
  · rw [signal_high h]
    have hc : ¬c < 0x80 := by simpa using h
    simp [hcr,hnl,hc]

theorem chars_output : chars t true c = t.transform true c := by
  rw [chars,Termios.processChar,Termios.processOutputChar,Termios.transform]
  rcases eq_or_ne c newline with rfl | h
  · cases t.oflag onlcr <;> simp
  · simp [h]

theorem chars_right (h : ¬Mistaken t c) :
    chars t false c = t.transform false c ∧ (chars t false c).length ≤ 1 := by
  simp only [Mistaken,not_or,not_and,Bool.not_eq_true,Bool.not_eq_false] at h
  obtain ⟨hcr,hnl,hhigh⟩ := h
  rcases eq_or_ne c carriageReturn with rfl | hc
  · have hmap := hcr rfl
    rw [chars_cr,Termios.transform]
    cases h1 : t.iflag igncr <;> cases h2 : t.iflag icrnl <;> cases t.isSignal carriageReturn <;>
      simp_all [newline,carriageReturn]
  · rcases eq_or_ne c newline with rfl | hn
    · rw [chars_newline,Termios.transform,hnl rfl]
      cases t.isSignal newline <;> simp [newline,carriageReturn]
    · rw [chars_other hc hn,Termios.transform]
      rcases UInt8.lt_or_le c 0x80 with hlow | hlow
      · cases t.isSignal c <;> simp [hc,hn,hlow]
      · simp [hc,hn,hhigh hlow]

theorem chars_wrong (h : Mistaken t c) : (t.transform false c).length < (chars t false c).length := by
  rcases h with ⟨rfl,hmap,hkept⟩ | ⟨rfl,hmap⟩ | ⟨hhigh,hsignal⟩
  · rw [chars_cr,Termios.transform,hmap,hkept]
    cases t.isSignal carriageReturn <;> simp
  · rw [chars_newline,Termios.transform,hmap]
    cases t.isSignal newline <;> simp [newline,carriageReturn]
  · have hcr : c ≠ carriageReturn := by
      rintro rfl
      exact absurd hhigh (by decide)
    have hnl : c ≠ newline := by
      rintro rfl
      exact absurd hhigh (by decide)
    have hc : ¬c < 0x80 := by simpa using hhigh
    rw [chars_other hcr hnl,Termios.transform]
    simp [hcr,hc,hsignal]

theorem chars_short (slave : Bool) (c : UInt8) : chars t slave c = t.transform slave c ∨
    (t.transform slave c).length < (chars t slave c).length := by
  cases slave with
  | true => exact .inl chars_output
  | false =>
    rcases Classical.em (Mistaken t c) with h | h
    · exact .inr (chars_wrong h)
    · exact .inl (chars_right h).1

theorem output_fits (room : Nat) (c : UInt8) : Fits (chars t true) (t.transform true) room c ↔
    ¬(c = newline ∧ t.oflag onlcr = true ∧ room = 1) := by
  rw [Fits,chars_output,Termios.transform]
  rcases eq_or_ne c newline with rfl | h
  · cases t.oflag onlcr with
    | false => simp
    | true =>
      simp
      omega
  · simp [h]

theorem fits_iff (slave : Bool) (room : Nat) (c : UInt8) :
    Fits (chars t slave) (t.transform slave) room c ↔ ¬Troubled t slave room c := by
  unfold Troubled
  cases slave with
  | true => exact output_fits room c
  | false =>
    rw [if_neg (by decide)]
    rcases Classical.em (Mistaken t c) with h | h
    · rw [fits_iff_zero (chars_wrong h)]
      simp only [h,and_true]
      omega
    · refine iff_of_true (fits_of_eq (chars_right h).1 (chars_right h).2) ?_
      exact fun hbad => h hbad.2

end Discipline

namespace Pty

def Untroubled (p : Pty) : Op → Prop
  | .write slave buf _ =>
    EachFit (fun room c => ¬Troubled p.termios slave room c) (p.termios.transform slave)
      (room (p.ends !slave).ringBuffer) buf ∧
    (p.foreground = none → EachTurn (fun c => ¬Raises p.termios slave c) (chars p.termios slave)
      (room (p.ends !slave).ringBuffer) buf)
  | _ => True

structure Sound (p : Pty) : Prop where
  rings : ∀ slave, (p.ends slave).ringBuffer.Wrapping

variable {p q : Pty} {w : Wire} {slave : Bool} {op : Op} {ring : Ring}

theorem setRing_self : ((p.setRing slave ring).ends slave).ringBuffer = ring := by
  simp [setRing]

theorem setRing_other {other : Bool} (h : other ≠ slave) : (p.setRing slave ring).ends other = p.ends other :=
  Function.update_of_ne h _ _

theorem Sound.setRing (h : p.Sound) (hring : ring.Wrapping) : (p.setRing slave ring).Sound := by
  refine ⟨?_⟩
  intro other
  rcases eq_or_ne other slave with rfl | hne
  · rw [setRing_self]
    exact hring
  · rw [setRing_other hne]
    exact h.rings other

theorem setRing_sent (h : Faithful p w) {slave : Bool} {bytes bytes' : List UInt8}
    (hring : ring.queue = (p.ends slave).ringBuffer.queue ++ bytes) :
    Faithful (p.setRing slave ring) (w.send slave bytes') ↔ bytes = bytes' := by
  have hsent := h.sent slave
  constructor
  · rintro ⟨-,-,hall⟩
    have hself := hall slave
    rw [setRing_self,hring,Wire.send] at hself
    simp only [Function.update_self] at hself
    rw [hsent,List.append_assoc] at hself
    exact (List.append_cancel_left (List.append_cancel_left hself)).symm
  · rintro rfl
    refine ⟨h.running,h.termios,?_⟩
    intro other
    rcases eq_or_ne other slave with rfl | hne
    · rw [setRing_self,hring,Wire.send]
      simp only [Function.update_self]
      rw [hsent,List.append_assoc]
    · rw [setRing_other hne,Wire.send]
      simp only [Function.update_of_ne hne]
      exact h.sent other

theorem setRing_received (h : Faithful p w) {slave : Bool} {bytes : List UInt8}
    (hring : (p.ends slave).ringBuffer.queue = bytes ++ ring.queue) :
    Faithful (p.setRing slave ring) (w.receive slave bytes) := by
  refine ⟨h.running,h.termios,?_⟩
  intro other
  rcases eq_or_ne other slave with rfl | hne
  · rw [setRing_self,Wire.receive]
    simp only [Function.update_self]
    rw [h.sent other,hring,List.append_assoc]
  · rw [setRing_other hne,Wire.receive]
    simp only [Function.update_of_ne hne]
    exact h.sent other

theorem read_eq (slave : Bool) (count : Nat) : ∃ n status, p.read slave count =
    (p.setRing slave ((p.ends slave).ringBuffer.read n).1,status,((p.ends slave).ringBuffer.read n).2) := by
  unfold read
  dsimp only
  split_ifs
  · exact ⟨count - 1,[0],rfl⟩
  · exact ⟨count,[],rfl⟩

theorem packetMode_rings {on : Bool} (other : Bool) :
    ((p.setPacketMode slave on).ends other).ringBuffer = (p.ends other).ringBuffer := by
  unfold setPacketMode
  rcases eq_or_ne other slave with rfl | hne
  · simp
  · simp [hne]

theorem Sound.step (h : p.Sound) (hstep : Step p op q) : q.Sound := by
  obtain ⟨-,hstep⟩ := hstep
  cases op with
  | write slave buf count =>
    obtain ⟨-,hwrite⟩ := hstep
    cases hwrite
    have hring := (writeLoop_spec p.termios slave buf p.foreground (h.rings !slave)).1
    exact ⟨(h.setRing hring).rings⟩
  | read slave count status data =>
    obtain ⟨-,hread⟩ := hstep
    obtain ⟨n,status',heq⟩ := read_eq (p := p) slave count
    cases heq.symm.trans hread
    exact h.setRing ((h.rings slave).read_spec n).2.2
  | setTermios termios =>
    cases hstep
    exact ⟨h.rings⟩
  | setPacketMode slave on =>
    cases hstep
    exact ⟨fun other => (packetMode_rings (p := p) other).symm ▸ h.rings other⟩
  | setForeground group =>
    cases hstep
    exact ⟨h.rings⟩

theorem write_faithful (hs : p.Sound) (h : Faithful p w) (slave : Bool) (buf : List UInt8) :
    Faithful (p.write slave buf).1 (w.apply (.write slave buf (p.write slave buf).2)) ↔
      p.Untroubled (.write slave buf (p.write slave buf).2) := by
  obtain ⟨-,hfault,hspec⟩ := writeLoop_spec p.termios slave buf p.foreground (hs.rings !slave)
  cases hf : (p.write slave buf).1.fault with
  | true =>
    refine iff_of_false (fun hfaithful => ?_) fun hok => ?_
    · cases hf.symm.trans hfaithful.running
    · cases hf.symm.trans (hfault.mpr hok.2)
  | false =>
    obtain ⟨hqueue,hcount⟩ := hspec hf
    have hwire : Faithful (p.write slave buf).1 (w.apply (.write slave buf (p.write slave buf).2)) ↔
        Faithful (p.setRing (!slave)
          (writeLoop p.termios p.foreground slave (p.ends !slave).ringBuffer buf).ring)
          (w.send (!slave) ((buf.take (p.write slave buf).2).flatMap (p.termios.transform slave))) := by
      rw [Wire.apply,← h.termios]
      exact ⟨fun hw => ⟨h.running,hw.termios,hw.sent⟩,fun hw => ⟨hf,hw.termios,hw.sent⟩⟩
    refine hwire.trans ((setRing_sent h hqueue).trans ?_)
    rw [show (p.write slave buf).2 = _ from hcount,emitted_iff (chars_short slave),Untroubled,FitsAll,
      and_iff_left (hfault.mp hf)]
    exact eachFit_congr fun room c => fits_iff slave room c

theorem faithful_iff_untroubled (hs : p.Sound) (h : Faithful p w) (hstep : Step p op q) :
    Faithful q (w.apply op) ↔ p.Untroubled op := by
  obtain ⟨-,hstep⟩ := hstep
  cases op with
  | write slave buf count =>
    obtain ⟨-,hwrite⟩ := hstep
    cases hwrite
    exact write_faithful hs h slave buf
  | read slave count status data =>
    obtain ⟨-,hread⟩ := hstep
    obtain ⟨n,status',heq⟩ := read_eq (p := p) slave count
    cases heq.symm.trans hread
    obtain ⟨hdata,hrest,-⟩ := (hs.rings slave).read_spec n
    refine iff_of_true (setRing_received h ?_) trivial
    rw [hdata,hrest,List.take_append_drop]
  | setTermios termios =>
    cases hstep
    exact iff_of_true ⟨h.running,rfl,h.sent⟩ trivial
  | setPacketMode slave on =>
    cases hstep
    exact iff_of_true ⟨h.running,h.termios,fun other => by rw [packetMode_rings]; exact h.sent other⟩
      trivial
  | setForeground group =>
    cases hstep
    exact iff_of_true ⟨h.running,h.termios,h.sent⟩ trivial

def tracking : Tracking Step Wire.apply where
  Inv p _ := p.Sound
  View := Faithful
  Ok _ := True
  Safe := Untroubled
  view_step hs h _ hstep := faithful_iff_untroubled hs h hstep
  inv_step hs _ _ _ hstep := hs.step hstep

end Pty

def emptyRing : Ring := ⟨0,0,fun _ => 0⟩

def opened (termios : Termios) (foreground : Option Nat) : Pty :=
  { termios := termios, foreground := foreground, ends := fun _ => { ringBuffer := emptyRing } }

def silent (termios : Termios) : Wire := ⟨termios,fun _ => [],fun _ => []⟩

theorem emptyRing_wrapping : emptyRing.Wrapping where
  size_pos := by decide
  size_lt := by decide
  divides := ⟨2 ^ 52,rfl⟩
  read_lt := by decide
  write_lt := by decide
  count_le := Nat.zero_le _

theorem emptyRing_queue : emptyRing.queue = [] := by
  rw [← List.length_eq_zero_iff,RingBuffer.queue_length]
  rfl

theorem opened_sound (termios : Termios) (foreground : Option Nat) : (opened termios foreground).Sound :=
  ⟨fun _ => emptyRing_wrapping⟩

theorem opened_faithful (termios : Termios) (foreground : Option Nat) :
    Faithful (opened termios foreground) (silent termios) := by
  refine ⟨rfl,rfl,?_⟩
  intro slave
  change [] = [] ++ emptyRing.queue
  rw [emptyRing_queue,List.append_nil]

theorem faithful_iff (termios : Termios) (foreground : Option Nat) (ops : List Op) :
    (∀ pre, pre <+: ops → ∀ p, Runs Step (opened termios foreground) pre p →
        Faithful p (pre.foldl Wire.apply (silent termios))) ↔
      ∀ pre op, pre ++ [op] <+: ops → ∀ p q, Runs Step (opened termios foreground) pre p →
        Step p op q → p.Untroubled op :=
  Pty.tracking.view_iff_safe (fun _ _ => trivial) (opened_sound termios foreground)
    (opened_faithful termios foreground)

def initialTermios : Termios where
  cIflag := icrnl
  cOflag := onlcr
  cLflag := 0o10 ||| 0o2 ||| isig
  cCc := fun i => [0x03,0x1c,0x08,0x15,0x04,0,1,0,0x11,0x13,0x1a].getD i 0

def returned : Pty := ((opened initialTermios none).write false [carriageReturn]).1

theorem returned_spec : (returned.ends true).ringBuffer.queue = [newline,carriageReturn] ∧
    ((opened initialTermios none).write false [carriageReturn]).2 = 1 := by
  obtain ⟨-,-,hspec⟩ := writeLoop_spec initialTermios false [carriageReturn] none emptyRing_wrapping
  obtain ⟨hqueue,hcount⟩ := hspec rfl
  have hroom : room emptyRing = 0x1000 := by rw [room,emptyRing_queue]; rfl
  rw [hroom] at hqueue hcount
  rw [emptyRing_queue] at hqueue
  exact ⟨hqueue,hcount⟩

theorem carriage_return_doubled :
    Runs Step (opened initialTermios none) [.write false [carriageReturn] 1] returned ∧
    initialTermios.transform false carriageReturn = [newline] ∧
    (returned.ends true).ringBuffer.queue = [newline,carriageReturn] := by
  obtain ⟨hqueue,hcount⟩ := returned_spec
  refine ⟨⟨returned,⟨rfl,rfl,?_⟩,rfl⟩,rfl,hqueue⟩
  exact Prod.ext rfl hcount

end SabaOS.Dev.Tty
