import SabaOS.Lib.Iterate
import Mathlib.Logic.Function.Basic

namespace SabaOS.Xhci

open Lib

inductive PortType where
  | unknown
  | usb2
  | usb3
deriving DecidableEq, Repr

structure Port where
  offset : UInt8 := 0
  pairIndex : Nat := 0
  type : PortType := .unknown
  speed : UInt32 := 0
  highSpeedOnly : Bool := false
  hasPair : Bool := false
  active : Bool := false
deriving DecidableEq, Repr

abbrev Ports : Type := Nat → Port

structure Slot where
  type : PortType
  offset : UInt8
  highSpeedOnly : Bool
deriving DecidableEq, Repr

namespace Ports

-- The table after the capabilities: a port without a slot is as `resize` made it.
def parsed (slots : List Slot) : Ports := fun p => match slots[p]? with
  | some slot => { type := slot.type, offset := slot.offset, highSpeedOnly := slot.highSpeedOnly }
  | none => {}

def set (ports : Ports) (p : Nat) (port : Port) : Ports := Function.update ports p port

def setActive (ports : Ports) (p : Nat) (active : Bool) : Ports :=
  ports.set p { ports p with active := active }

def pairOne (ports : Ports) (i j : Nat) : Ports :=
  if (ports i).offset = (ports j).offset ∧ (ports i).type = .usb3 ∧ (ports j).type = .usb2 then
    let ports := ports.set i { ports i with pairIndex := j, hasPair := true }
    ports.set j { ports j with pairIndex := i, hasPair := true }
  else ports

def pairUp (size : Nat) (ports : Ports) : Ports :=
  (List.range size).foldl (fun ports i => (List.range size).foldl (fun ports j => ports.pairOne i j) ports)
    ports

def activate (ports : Ports) : Ports := fun p =>
  let port := ports p
  if port.type = .unknown then port
  else if !port.hasPair || (port.hasPair && port.type = .usb3) then { port with active := true }
  else port

end Ports

def enabled : UInt32 := (1 : UInt32) <<< 1
def power : UInt32 := (1 : UInt32) <<< 9
def warmResetChange : UInt32 := (1 : UInt32) <<< 19
def resetChange : UInt32 := (1 : UInt32) <<< 21

inductive Outcome where
  | noPower
  | failed
  | reset (speed : UInt32)
deriving DecidableEq, Repr

def waitChange (bit : UInt32) (status : Nat → UInt32) : Nat → Nat → Nat × Bool
  | 0,n => (n,false)
  | timeout + 1,n =>
    if status n &&& bit ≠ 0 then (n + 1,true)
    else if timeout = 0 then (n + 1,false)
    else waitChange bit status timeout (n + 1)

def attempt (type : PortType) (status : Nat → UInt32) : Outcome × Nat :=
  let resetChangeBit := if type = .usb3 then warmResetChange else resetChange
  if status 0 &&& power = 0 ∧ status 1 &&& power = 0 then (.noPower,2)
  else
    let first := if status 0 &&& power = 0 then 2 else 1
    let (n,inTime) := waitChange resetChangeBit status 500 first
    -- The value at `n` is read to be printed.
    if inTime then
      if status (n + 1) &&& enabled ≠ 0 then (.reset ((status (n + 2) >>> 10) &&& 0xF),n + 3)
      else (.failed,n + 2)
    else (.failed,n + 1)

-- `i` is where the start-up loop is, and `call` the port that `reset_port` was called for. `last`
-- records how the last reset of each port ended.
structure Reset where
  ports : Ports
  i : Nat := 0
  call : Option Nat := none
  pos : Nat := 0
  last : Nat → Option Outcome := fun _ => none

def Reset.attempt (status : Nat → UInt32) (s : Reset) (p : Nat) : Outcome × Nat :=
  Xhci.attempt (s.ports p).type fun n => status (s.pos + n)

def Reset.next (s : Reset) : Reset := { s with i := s.i + 1, call := none }

def Reset.finish (s : Reset) (p : Nat) : Outcome → Reset
  | .noPower => s.next
  | .reset speed => { s with ports := s.ports.set p { s.ports p with speed := speed } }.next
  | .failed =>
    let pairIndex := (s.ports p).pairIndex
    if (s.ports p).type = .usb3 then
      { s with
        ports := (s.ports.setActive p false).setActive pairIndex true
        call := some pairIndex }
    else { s with ports := s.ports.setActive p false }.next

def Reset.record (s : Reset) (p : Nat) (result : Outcome × Nat) : Reset :=
  { s with pos := s.pos + result.2, last := Function.update s.last p (some result.1) }

def Reset.step (size : Nat) (status : Nat → UInt32) (s : Reset) : Turn Reset Reset :=
  match s.call with
  | none =>
    if s.i < size then
      if (s.ports s.i).active then .again { s with call := some s.i } else .again s.next
    else .stop s
  | some p => .again ((s.record p (s.attempt status p)).finish p (s.attempt status p).1)

def Reset.start (slots : List Slot) : Reset where
  ports := ((Ports.parsed slots).pairUp slots.length).activate

def Port.wiring (port : Port) : PortType × Bool × Nat := (port.type,port.hasPair,port.pairIndex)

structure Wired (size : Nat) (ports : Ports) : Prop where
  paired : ∀ p < size, (ports p).type = .usb3 → (ports p).hasPair = true →
    (ports p).pairIndex < size ∧ (ports (ports p).pairIndex).type = .usb2
  alone : ∀ p, (ports p).type = .usb3 → (ports p).hasPair = false → (ports p).pairIndex = 0

variable {size : Nat} {ports ports' : Ports} {slots : List Slot} {status : Nat → UInt32} {s : Reset}
  {p q i j : Nat}

theorem wiring_eq_iff {port port' : Port} : port'.wiring = port.wiring ↔
    port'.type = port.type ∧ port'.hasPair = port.hasPair ∧ port'.pairIndex = port.pairIndex := by
  simp [Port.wiring]

theorem Wired.congr (h : Wired size ports) (hsame : ∀ p, (ports' p).wiring = (ports p).wiring) :
    Wired size ports' := by
  simp only [wiring_eq_iff] at hsame
  refine ⟨fun p hp htype hpair => ?_,fun p htype hpair => ?_⟩
  · obtain ⟨ht,hh,hi⟩ := hsame p
    rw [ht] at htype
    rw [hh] at hpair
    rw [hi,(hsame _).1]
    exact h.paired p hp htype hpair
  · obtain ⟨ht,hh,hi⟩ := hsame p
    rw [hi]
    exact h.alone p (ht ▸ htype) (hh ▸ hpair)

theorem wiring_set (port : Port) (h : port.wiring = (ports p).wiring) (q : Nat) :
    (ports.set p port q).wiring = (ports q).wiring := by
  rw [Ports.set,Function.update_apply]
  split_ifs with hq
  · rw [h,hq]
  · rfl

theorem wiring_setActive (ports : Ports) (p : Nat) (active : Bool) (q : Nat) :
    (ports.setActive p active q).wiring = (ports q).wiring :=
  wiring_set { ports p with active := active } rfl q

theorem wired_parsed (slots : List Slot) (size : Nat) : Wired size (.parsed slots) := by
  have hnone : ∀ p, (Ports.parsed slots p).hasPair = false ∧ (Ports.parsed slots p).pairIndex = 0 := by
    intro p
    rw [Ports.parsed]
    cases slots[p]? <;> exact ⟨rfl,rfl⟩
  refine ⟨fun p _ _ hpair => ?_,fun p _ _ => (hnone p).2⟩
  rw [(hnone p).1] at hpair
  cases hpair

theorem pairOne_apply (hmatch : (ports i).offset = (ports j).offset ∧ (ports i).type = .usb3 ∧
    (ports j).type = .usb2) (q : Nat) : ports.pairOne i j q =
      if q = j then { ports j with pairIndex := i, hasPair := true }
      else if q = i then { ports i with pairIndex := j, hasPair := true } else ports q := by
  have hne : j ≠ i := by
    rintro rfl
    have h3 := hmatch.2.1
    rw [hmatch.2.2] at h3
    cases h3
  rw [Ports.pairOne,if_pos hmatch]
  simp only [Ports.set,Function.update_apply,if_neg hne]

theorem Wired.pairOne (h : Wired size ports) (i : Nat) (hj : j < size) :
    Wired size (ports.pairOne i j) := by
  by_cases hmatch : (ports i).offset = (ports j).offset ∧ (ports i).type = .usb3 ∧ (ports j).type = .usb2
  · have htype : ∀ q, (ports.pairOne i j q).type = (ports q).type := by
      intro q
      rw [pairOne_apply hmatch]
      split_ifs with hqj hqi
      · rw [hqj]
      · rw [hqi]
      · rfl
    have hother : ∀ p, (ports p).type = .usb3 → p ≠ j := by
      rintro p hp rfl
      rw [hmatch.2.2] at hp
      cases hp
    refine ⟨fun p hp h3 hpair => ?_,fun p h3 hpair => ?_⟩
    · rw [htype] at h3 ⊢
      rw [pairOne_apply hmatch,if_neg (hother p h3)] at hpair ⊢
      by_cases hpi : p = i
      · rw [if_pos hpi]
        exact ⟨hj,hmatch.2.2⟩
      · rw [if_neg hpi] at hpair ⊢
        exact h.paired p hp h3 hpair
    · rw [htype] at h3
      rw [pairOne_apply hmatch,if_neg (hother p h3)] at hpair ⊢
      by_cases hpi : p = i
      · rw [if_pos hpi] at hpair
        cases hpair
      · rw [if_neg hpi] at hpair ⊢
        exact h.alone p h3 hpair
  · rw [Ports.pairOne,if_neg hmatch]
    exact h

theorem Wired.pairUp (h : Wired size ports) : Wired size (ports.pairUp size) :=
  List.foldlRecOn _ _ h fun _ h i _ => List.foldlRecOn _ _ h fun _ h _ hj =>
    h.pairOne i (List.mem_range.mp hj)

theorem wiring_activate (ports : Ports) (p : Nat) : (ports.activate p).wiring = (ports p).wiring := by
  simp only [Ports.activate]
  split_ifs <;> rfl

theorem wired_start (slots : List Slot) : Wired slots.length (Reset.start slots).ports :=
  (wired_parsed slots slots.length).pairUp.congr (wiring_activate _)

def Ports.Alone (ports : Ports) (p : Nat) : Prop :=
  (ports p).type = .usb3 ∧ (ports p).hasPair = false

def Reset.GetsOn (status : Nat → UInt32) (s : Reset) : Prop :=
  ∀ p, s.call = some p → (s.attempt status p).1 = .failed → ¬(p = 0 ∧ s.ports.Alone p)

def Reset.Powered (status : Nat → UInt32) (s : Reset) : Prop :=
  ∀ p, s.call = some p → (s.attempt status p).1 ≠ .noPower

def Settled (last : Option Outcome) : Prop := ∀ o, last = some o → ∃ speed, o = .reset speed

def Reset.AllSettled (s : Reset) : Prop := ∀ p, (s.ports p).active = true → Settled (s.last p)

structure Reset.Sound (size : Nat) (s : Reset) : Prop where
  wired : Wired size s.ports
  called : ∀ p, s.call = some p → p < size ∧ s.i < size

def Reset.OthersSettled (s : Reset) : Prop :=
  ∀ p, s.call ≠ some p → (s.ports p).active = true → Settled (s.last p)

def rank (ports : Ports) (p : Nat) : Nat :=
  if (ports p).type ≠ .usb3 then 1 else if (ports p).hasPair = true ∨ p = 0 then 2 else 3

def Reset.left (size : Nat) (s : Reset) : Nat := match s.call with
  | none => 4 * (size - s.i)
  | some p => 4 * (size - s.i - 1) + rank s.ports p

theorem rank_congr (hsame : ∀ p, (ports' p).wiring = (ports p).wiring) (p : Nat) :
    rank ports' p = rank ports p := by
  obtain ⟨ht,hh,-⟩ := wiring_eq_iff.mp (hsame p)
  rw [rank,rank,ht,hh]

theorem rank_pos (ports : Ports) (p : Nat) : 0 < rank ports p ∧ rank ports p < 4 := by
  rw [rank]
  split_ifs <;> decide

theorem Wired.rank_pair (h : Wired size ports) (hp : p < size) (h3 : (ports p).type = .usb3)
    (hother : ¬(p = 0 ∧ ports.Alone p)) : (ports p).pairIndex < size ∧ (ports p).pairIndex ≠ p ∧
      rank ports (ports p).pairIndex < rank ports p := by
  cases hpair : (ports p).hasPair with
  | true =>
    obtain ⟨hlt,h2⟩ := h.paired p hp h3 hpair
    have hne : (ports p).pairIndex ≠ p := by
      intro heq
      rw [heq,h3] at h2
      cases h2
    refine ⟨hlt,hne,?_⟩
    simp [rank,h2,h3,hpair]
  | false =>
    have hp0 : p ≠ 0 := fun h0 => hother ⟨h0,h3,hpair⟩
    rw [h.alone p h3 hpair]
    refine ⟨by omega,Ne.symm hp0,?_⟩
    simp only [rank,h3,hpair,hp0]
    split_ifs <;> simp_all

theorem set_self (ports : Ports) (p : Nat) (port : Port) : ports.set p port p = port :=
  Function.update_self ..

theorem set_other (ports : Ports) (port : Port) (h : q ≠ p) : ports.set p port q = ports q :=
  Function.update_of_ne h ..

theorem wiring_finish (s : Reset) (p : Nat) (o : Outcome) (q : Nat) :
    ((s.finish p o).ports q).wiring = (s.ports q).wiring := by
  cases o with
  | noPower => rfl
  | reset speed => exact wiring_set { s.ports p with speed := speed } rfl q
  | failed =>
    rw [Reset.finish]
    split_ifs
    · exact (wiring_setActive ..).trans (wiring_setActive ..)
    · exact wiring_setActive ..

theorem wiring_step {s' : Reset} (h : s.step size status = .again s') (q : Nat) :
    (s'.ports q).wiring = (s.ports q).wiring := by
  rw [Reset.step] at h
  cases hcall : s.call with
  | none =>
    rw [hcall] at h
    dsimp only at h
    split_ifs at h
    · cases h
      rfl
    · cases h
      rfl
  | some p =>
    rw [hcall] at h
    cases h
    exact wiring_finish ..

section Call

variable {s' : Reset} {result : Outcome × Nat} (hcall : s.call = some p)

include hcall

theorem Reset.Sound.end_call (h : s.Sound size)
    (hwiring : ∀ q, (s'.ports q).wiring = (s.ports q).wiring) (hi : s'.i = s.i + 1)
    (hnone : s'.call = none) : s'.Sound size ∧ s'.left size < s.left size := by
  have hlt := (h.called p hcall).2
  have hpos := (rank_pos s.ports p).1
  refine ⟨⟨h.wired.congr hwiring,by simp [hnone]⟩,?_⟩
  simp only [Reset.left,hnone,hcall,hi]
  omega

theorem Reset.Sound.call_on (h : s.Sound size) (h3 : (s.ports p).type = .usb3)
    (hother : ¬(p = 0 ∧ s.ports.Alone p))
    (hwiring : ∀ q, (s'.ports q).wiring = (s.ports q).wiring) (hi : s'.i = s.i)
    (hnext : s'.call = some (s.ports p).pairIndex) : s'.Sound size ∧ s'.left size < s.left size := by
  obtain ⟨hp,hlt⟩ := h.called p hcall
  obtain ⟨hqlt,-,hrank⟩ := h.wired.rank_pair hp h3 hother
  refine ⟨⟨h.wired.congr hwiring,fun q hq => ?_⟩,?_⟩
  · rw [hnext] at hq
    cases hq
    exact ⟨hqlt,hi ▸ hlt⟩
  · simp only [Reset.left,hnext,hcall,hi,rank_congr hwiring]
    omega

theorem Reset.Sound.finish (h : s.Sound size)
    (hfailed : result.1 = .failed → ¬(p = 0 ∧ s.ports.Alone p)) :
    ((s.record p result).finish p result.1).Sound size ∧
      ((s.record p result).finish p result.1).left size < s.left size := by
  have hwiring : ∀ q, (((s.record p result).finish p result.1).ports q).wiring = (s.ports q).wiring :=
    wiring_finish _ p result.1
  cases ho : result.1 with
  | noPower => exact h.end_call hcall (ho ▸ hwiring) rfl rfl
  | reset speed => exact h.end_call hcall (ho ▸ hwiring) rfl rfl
  | failed =>
    rw [ho,Reset.finish] at hwiring
    rw [Reset.finish]
    by_cases h3 : (s.ports p).type = .usb3
    · rw [if_pos (show ((s.record p result).ports p).type = .usb3 from h3)] at hwiring ⊢
      exact h.call_on hcall h3 (hfailed ho) hwiring rfl rfl
    · rw [if_neg (show ((s.record p result).ports p).type ≠ .usb3 from h3)] at hwiring ⊢
      exact h.end_call hcall hwiring rfl rfl

theorem Reset.OthersSettled.keep (h : s.OthersSettled)
    (hsame : ∀ q ≠ p, s'.call ≠ some q →
      (s'.ports q).active = (s.ports q).active ∧ s'.last q = s.last q)
    (hport : s'.call ≠ some p → (s'.ports p).active = true → Settled (s'.last p)) :
    s'.OthersSettled := by
  intro q hq hactive
  by_cases hqp : q = p
  · subst hqp
    exact hport hq hactive
  · obtain ⟨hsameActive,hlast⟩ := hsame q hqp hq
    rw [hlast]
    refine h q (fun heq => hqp ?_) (hsameActive ▸ hactive)
    exact (Option.some.inj (hcall.symm.trans heq)).symm

theorem Reset.OthersSettled.finish (h : s.OthersSettled) (hsound : s.Sound size)
    (hpower : result.1 ≠ .noPower)
    (hfailed : result.1 = .failed → ¬(p = 0 ∧ s.ports.Alone p)) :
    ((s.record p result).finish p result.1).OthersSettled := by
  have hlast : ∀ q ≠ p, (s.record p result).last q = s.last q := fun q hq => Function.update_of_ne hq ..
  cases ho : result.1 with
  | noPower => exact absurd ho hpower
  | reset speed =>
    refine h.keep hcall (fun q hq _ => ⟨congrArg Port.active (set_other _ _ hq),hlast q hq⟩)
      fun _ _ o hlast' => ⟨speed,?_⟩
    have hself : (s.record p result).last p = some result.1 := Function.update_self ..
    exact (Option.some.inj (hself.symm.trans hlast')).symm.trans ho
  | failed =>
    have hoff : ∀ ports : Ports, (ports.setActive p false p).active = false :=
      fun ports => congrArg Port.active (set_self ..)
    by_cases h3 : (s.ports p).type = .usb3
    · have hne := (hsound.wired.rank_pair (hsound.called p hcall).1 h3 (hfailed ho)).2.1
      rw [Reset.finish,if_pos (show ((s.record p result).ports p).type = .usb3 from h3)]
      refine h.keep hcall (fun q hq hq' => ⟨?_,hlast q hq⟩) fun _ hactive => ?_
      · have hnext : q ≠ (s.ports p).pairIndex := fun heq => hq' (congrArg some heq.symm)
        exact congrArg Port.active ((set_other _ _ hnext).trans (set_other _ _ hq))
      · have hsame := congrArg Port.active (set_other (s.ports.setActive p false)
          { s.ports.setActive p false (s.ports p).pairIndex with active := true } hne.symm)
        exact absurd (hsame.symm.trans hactive) (by simp [hoff])
    · rw [Reset.finish,if_neg (show ((s.record p result).ports p).type ≠ .usb3 from h3)]
      refine h.keep hcall (fun q hq _ => ⟨congrArg Port.active (set_other _ _ hq),hlast q hq⟩)
        fun _ hactive => ?_
      exact absurd ((hoff _).symm.trans hactive) (by simp)

end Call

theorem Reset.Sound.step (h : s.Sound size) (hon : s.GetsOn status) :
    (s.step size status = .stop s ∧ s.call = none) ∨
      ∃ s', s.step size status = .again s' ∧ s'.Sound size ∧ s'.left size < s.left size ∧
        (s.OthersSettled → s.Powered status → s'.OthersSettled) := by
  cases hcall : s.call with
  | some p =>
    right
    have hfailed := hon p hcall
    obtain ⟨hsound,hless⟩ := h.finish hcall hfailed
    refine ⟨_,?_,hsound,hless,fun hothers hpower => hothers.finish hcall h (hpower p hcall) hfailed⟩
    rw [Reset.step,hcall]
  | none =>
    simp only [Reset.step,hcall]
    by_cases hi : s.i < size
    · right
      rw [if_pos hi]
      by_cases hactive : (s.ports s.i).active = true
      · rw [if_pos hactive]
        refine ⟨_,rfl,⟨h.wired,?_⟩,?_,fun hothers _ q _ => hothers q (by simp [hcall])⟩
        · rintro q hq
          cases hq
          exact ⟨hi,hi⟩
        · have hrank := (rank_pos s.ports s.i).2
          simp only [Reset.left,hcall]
          omega
      · rw [if_neg hactive]
        refine ⟨_,rfl,⟨h.wired,by simp [Reset.next]⟩,?_,fun hothers _ q _ => hothers q (by simp [hcall])⟩
        simp only [Reset.left,Reset.next,hcall]
        omega
    · rw [if_neg hi]
      exact .inl ⟨rfl,trivial⟩

theorem sound_start (slots : List Slot) : (Reset.start slots).Sound slots.length where
  wired := wired_start slots
  called := fun _ h => by cases h

def Returns (slots : List Slot) (status : Nat → UInt32) (r : Reset) : Prop :=
  Ends (Reset.step slots.length status) (.start slots) r

def Visited (slots : List Slot) (status : Nat → UInt32) (s : Reset) : Prop :=
  Visits (Reset.step slots.length status) (.start slots) s

theorem returns_of_getsOn (slots : List Slot) (status : Nat → UInt32)
    (hon : ∀ s, Visited slots status s → s.GetsOn status) :
    ∃ r, Returns slots status r ∧
      ((∀ s, Visited slots status s → s.Powered status) → r.AllSettled) := by
  have hturn : ∀ s : Reset, (Visited slots status s ∧ s.Sound slots.length ∧
      ((∀ s, Visited slots status s → s.Powered status) → s.OthersSettled)) →
        (s.step slots.length status = .stop s ∧ s.call = none ∧
          ((∀ s, Visited slots status s → s.Powered status) → s.OthersSettled)) ∨
        ∃ s', s.step slots.length status = .again s' ∧ (Visited slots status s' ∧
          s'.Sound slots.length ∧
            ((∀ s, Visited slots status s → s.Powered status) → s'.OthersSettled)) ∧
            s'.left slots.length < s.left slots.length := by
    rintro s ⟨hvisited,hsound,hothers⟩
    rcases hsound.step (hon s hvisited) with ⟨hstop,hcall⟩ | ⟨s',hstep,hsound',hless,hothers'⟩
    · exact .inl ⟨hstop,hcall,hothers⟩
    · exact .inr ⟨s',hstep,⟨hvisited.tail hstep,hsound',
        fun hpower => hothers' (hothers hpower) (hpower s hvisited)⟩,hless⟩
  obtain ⟨r,hr,hstop,hcall,hothers⟩ := visits_of_measure _ hturn
    ⟨.refl,sound_start slots,fun _ _ _ _ _ h => by cases h⟩
  exact ⟨r,(ends_visits hr).mpr (.stop hstop),fun hpower p => hothers hpower p (by simp [hcall])⟩

theorem wiring_visited (h : Visited slots status s) (q : Nat) :
    (s.ports q).wiring = ((Reset.start slots).ports q).wiring := by
  induction h with
  | refl => rfl
  | tail _ hstep ih => exact (wiring_step hstep q).trans ih

theorem alone_visited (h : Visited slots status s) :
    s.ports.Alone p ↔ (Reset.start slots).ports.Alone p := by
  obtain ⟨ht,hh,-⟩ := wiring_eq_iff.mp (wiring_visited h p)
  rw [Ports.Alone,Ports.Alone,ht,hh]

def onlyPower : Nat → UInt32 := fun _ => power

theorem waitChange_onlyPower (timeout n : Nat) :
    (waitChange warmResetChange onlyPower timeout n).2 = false := by
  induction timeout generalizing n with
  | zero => rfl
  | succ timeout ih =>
    have hbit : ¬onlyPower n &&& warmResetChange ≠ 0 := (by decide : ¬power &&& warmResetChange ≠ 0)
    rw [waitChange,if_neg hbit]
    split_ifs
    · rfl
    · exact ih (n + 1)

theorem attempt_onlyPower : (attempt .usb3 onlyPower).1 = .failed := by
  have hpower : ¬(onlyPower 0 &&& power = 0 ∧ onlyPower 1 &&& power = 0) := by decide
  have hwait := waitChange_onlyPower 500 (if onlyPower 0 &&& power = 0 then 2 else 1)
  rw [attempt,if_neg hpower]
  simp only [if_true,hwait]
  rfl

theorem recurses (hcall : s.call = some 0) (hport : (s.ports 0).wiring = (.usb3,false,0)) :
    ∃ s', s.step size onlyPower = .again s' ∧ s'.call = some 0 ∧
      (s'.ports 0).wiring = (.usb3,false,0) := by
  simp only [Port.wiring,Prod.mk.injEq] at hport
  obtain ⟨h3,hpair,hindex⟩ := hport
  have hfailed : (s.attempt onlyPower 0).1 = .failed := by
    rw [Reset.attempt,h3]
    exact attempt_onlyPower
  have hstep : s.step size onlyPower =
      .again ((s.record 0 (s.attempt onlyPower 0)).finish 0 (s.attempt onlyPower 0).1) := by
    rw [Reset.step,hcall]
  refine ⟨_,hstep,?_,?_⟩
  · rw [hfailed,Reset.finish]
    rw [if_pos (show ((s.record 0 (s.attempt onlyPower 0)).ports 0).type = .usb3 from h3)]
    exact congrArg some hindex
  · rw [wiring_step hstep]
    simp only [Port.wiring,h3,hpair,hindex]

theorem active_start (halone : (Reset.start slots).ports.Alone p) :
    ((Reset.start slots).ports p).active = true := by
  obtain ⟨h3,hpair,-⟩ := wiring_eq_iff.mp (wiring_activate ((Ports.parsed slots).pairUp slots.length) p)
  rw [Ports.Alone,Reset.start,h3,hpair] at halone
  simp only [Reset.start,Ports.activate,halone.1,halone.2]
  rfl

theorem not_returns (halone : (Reset.start slots).ports.Alone 0) (r : Reset) :
    ¬Returns slots onlyPower r := by
  intro hreturns
  have hpos : 0 < slots.length := by
    cases slots with
    | nil => exact absurd halone.1 (by decide)
    | cons slot slots => exact Nat.succ_pos _
  have hwiring : ((Reset.start slots).ports 0).wiring = (.usb3,false,0) := by
    rw [Port.wiring,halone.1,halone.2,(wired_start slots).alone 0 halone.1 halone.2]
  have hfirst : (Reset.start slots).step slots.length onlyPower =
      .again { Reset.start slots with call := some 0 } :=
    (if_pos hpos).trans (if_pos (active_start halone))
  obtain ⟨n,hn⟩ := (ends_again hfirst).mp hreturns
  have hnever : run (Reset.step slots.length onlyPower) n { Reset.start slots with call := some 0 } =
      none := run_none_of_again
    (I := fun s => s.call = some 0 ∧ (s.ports 0).wiring = (.usb3,false,0))
    (fun s hs => recurses hs.1 hs.2) n ⟨rfl,hwiring⟩
  cases hnever.symm.trans hn

theorem reset_ports (slots : List Slot) :
    ((∀ status, ∃ r, Returns slots status r) ↔ ¬(Reset.start slots).ports.Alone 0) ∧
      ∀ status, (∀ s, Visited slots status s → s.GetsOn status ∧ s.Powered status) →
        ∃ r, Returns slots status r ∧ r.AllSettled := by
  refine ⟨⟨fun hall halone => ?_,fun halone status => ?_⟩,fun status hsteps => ?_⟩
  · obtain ⟨r,hr⟩ := hall onlyPower
    exact not_returns halone r hr
  · obtain ⟨r,hr,-⟩ := returns_of_getsOn slots status fun s hs p _ _ hp =>
      halone ((alone_visited hs).mp (hp.1 ▸ hp.2))
    exact ⟨r,hr⟩
  · obtain ⟨r,hr,hsettled⟩ := returns_of_getsOn slots status fun s hs => (hsteps s hs).1
    exact ⟨r,hr,hsettled fun s hs => (hsteps s hs).2⟩

def allOnes : Nat → UInt32 := fun _ => 0xFFFFFFFF

theorem attempt_allOnes (type : PortType) : attempt type allOnes = (.reset 0xF,5) := by
  cases type <;> decide

theorem reset_ports_paired : ∃ r,
    Returns [⟨.usb2,0,false⟩,⟨.usb3,0,false⟩] allOnes r ∧ r.AllSettled := by
  refine (reset_ports [⟨.usb2,0,false⟩,⟨.usb3,0,false⟩]).2 allOnes fun s _ => ?_
  have hreset : ∀ p, (s.attempt allOnes p).1 = .reset 0xF := fun p =>
    congrArg Prod.fst (attempt_allOnes (s.ports p).type)
  exact ⟨fun p _ hfailed => absurd ((hreset p).symm.trans hfailed) (by simp),
    fun p _ hpower => absurd ((hreset p).symm.trans hpower) (by simp)⟩

theorem reset_port_recurses : ¬∀ (slots : List Slot) (status : Nat → UInt32),
    ∃ r, Returns slots status r ∧ r.AllSettled := by
  intro hall
  obtain ⟨r,hr,-⟩ := hall [⟨.usb3,0,false⟩] onlyPower
  exact not_returns ⟨rfl,rfl⟩ r hr

end SabaOS.Xhci
