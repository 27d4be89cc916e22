import Mathlib.Logic.Relation
import SabaOS.Lib.Tracking
import SabaOS.Net.Ipv4

namespace SabaOS.Net

open SabaOS.Lib

def enetunreach : Int := 101

structure ArpHeader where
  hardwareType : UInt16
  protocolType : UInt16
  hardwareLen : UInt8
  protocolLen : UInt8
  opcode : UInt16
  srcHardware : Mac
  srcProtocol : Ipv4
  dstHardware : Mac
  dstProtocol : Ipv4
deriving DecidableEq, Repr

namespace ArpHeader

def hardwareEthernet : UInt16 := 1

def protocolIpv4 : UInt16 := 0x0800

def opcodeRequest : UInt16 := 1

def opcodeReply : UInt16 := 2

end ArpHeader

-- Where an `arp_lookup` coroutine is: `registered` and `suspending` are before and after
-- `await_ready`, and `resumed` is before the second look into the cache.
inductive Stage where
  | start
  | sending
  | registered
  | suspending
  | suspended
  | resumed
  | done (ret : Int)
deriving DecidableEq, Repr

structure Lookup where
  targetIp : Ipv4
  stage : Stage := .start
  hasResult : Bool := false
  handle : Bool := false
  resultMac : Option Mac := none
deriving DecidableEq, Repr

namespace Lookup

def next (w : Lookup) (cached : Option Mac) : Option Lookup :=
  match w.stage with
  | .start =>
    match cached with
    | some mac => some { w with resultMac := some mac, stage := .done 0 }
    | none => some { w with stage := .sending }
  | .sending => some { w with stage := .registered, hasResult := false, handle := false }
  | .registered => some { w with stage := if w.hasResult then .resumed else .suspending }
  | .suspending => some { w with stage := .suspended, handle := true }
  | .suspended => none
  | .resumed =>
    match cached with
    | some mac => some { w with resultMac := some mac, stage := .done 0 }
    | none => some { w with stage := .done (-enetunreach) }
  | .done _ => none

def answer (w : Lookup) : Lookup :=
  { w with hasResult := true, stage := if w.handle then .resumed else w.stage }

-- The awaitable is gone once the coroutine runs on.
def ended (w : Lookup) : Bool :=
  match w.stage with
  | .resumed => true
  | .done _ => true
  | _ => false

end Lookup

-- `callback` is the lookup whose awaitable `arp_request_callback` points to; `corrupt` is a call into
-- an awaitable that is gone.
structure Arp (L : Type) where
  mac : Mac
  ipv4 : Ipv4
  arpCache : List (Ipv4 × Mac) := []
  callback : Option L := none
  lookups : L → Option Lookup := fun _ => none
  sent : List (ArpHeader × Mac) := []
  corrupt : Bool := false

inductive ArpOp (L : Type) where
  | lookup (l : L) (targetIp : Ipv4)
  | advance (l : L)
  | receive (header : ArpHeader)
deriving DecidableEq, Repr

namespace Arp

variable {L : Type} [DecidableEq L]

def cached (s : Arp L) (ip : Ipv4) : Option Mac := s.arpCache.lookup ip

def setLookup (s : Arp L) (l : L) (w : Lookup) : Arp L :=
  { s with lookups := Function.update s.lookups l (some w) }

def arpSend (s : Arp L) (opcode : UInt16) (srcHardware : Mac) (srcProtocol : Ipv4) (dstHardware : Mac)
    (dstProtocol : Ipv4) : Arp L :=
  let header : ArpHeader :=
    { hardwareType := ArpHeader.hardwareEthernet
      protocolType := ArpHeader.protocolIpv4
      hardwareLen := 6
      protocolLen := 4
      opcode := opcode
      srcHardware := srcHardware
      srcProtocol := srcProtocol
      dstHardware := dstHardware
      dstProtocol := dstProtocol }
  let targetMac := if opcode = ArpHeader.opcodeReply then dstHardware else broadcastMac
  { s with sent := s.sent ++ [(header,targetMac)] }

def effect (s : Arp L) (l : L) (w : Lookup) : Arp L :=
  match w.stage with
  | .sending =>
    s.arpSend ArpHeader.opcodeRequest s.mac s.ipv4 (Vector.replicate 6 0) w.targetIp
  | .registered => { s with callback := some l }
  | _ => s

def advance (s : Arp L) (l : L) : Option (Arp L) := do
  let w ← s.lookups l
  let w ← w.next (s.cached w.targetIp)
  return (s.setLookup l w).effect l w

def invoke (s : Arp L) : Arp L :=
  match s.callback with
  | none => s
  | some l =>
    match s.lookups l with
    | none => s
    | some w => if w.ended then { s with corrupt := true } else s.setLookup l w.answer

def accepts (s : Arp L) (header : ArpHeader) : Bool :=
  !(header.hardwareType != ArpHeader.hardwareEthernet || header.protocolType != ArpHeader.protocolIpv4 ||
    header.hardwareLen != 6 || header.protocolLen != 4 ||
    (header.opcode == ArpHeader.opcodeReply && header.dstHardware != s.mac) ||
    (header.opcode == ArpHeader.opcodeRequest && header.dstProtocol != s.ipv4))

def learn (s : Arp L) (ip : Ipv4) (mac : Mac) : Arp L := { s with arpCache := (ip,mac) :: s.arpCache }

def arpProcess (s : Arp L) (header : ArpHeader) : Arp L :=
  if s.accepts header then
    if header.opcode = ArpHeader.opcodeReply then
      (s.learn header.srcProtocol header.srcHardware).invoke
    else if header.opcode = ArpHeader.opcodeRequest then
      s.arpSend ArpHeader.opcodeReply s.mac s.ipv4 header.srcHardware header.srcProtocol
    else s
  else s

def next (s : Arp L) : ArpOp L → Option (Arp L)
  | .lookup l targetIp =>
    match s.lookups l with
    | none => some (s.setLookup l { targetIp := targetIp })
    | some _ => none
  | .advance l => s.advance l
  | .receive header => some (s.arpProcess header)

def Step (s : Arp L) (op : ArpOp L) (t : Arp L) : Prop := s.next op = some t

def Works : Arp L → Arp L → Prop := Relation.ReflTransGen fun s t => ∃ l, s.advance l = some t

structure Good (s : Arp L) : Prop where
  intact : s.corrupt = false
  resumed : ∀ l w, s.lookups l = some w → w.stage = .suspended → s.cached w.targetIp = none
  found : ∀ l w, s.lookups l = some w → w.stage ≠ .done (-enetunreach)

def Served (s : Arp L) : Prop := ∀ t, Works s t → t.Good

end Arp

namespace Lookup

def awaits (w : Lookup) : Bool :=
  match w.stage with
  | .sending => true
  | .registered => !w.hasResult
  | .suspending => true
  | .suspended => true
  | _ => false

def past (w : Lookup) : Bool :=
  match w.stage with
  | .start => false
  | .sending => false
  | _ => true

def listens (w : Lookup) : Bool :=
  match w.stage with
  | .registered => true
  | .suspended => true
  | _ => false

def Takes (w : Lookup) (ip : Ipv4) : Prop :=
  match w.stage with
  | .registered => w.targetIp = ip ∨ w.hasResult = true
  | .suspended => w.targetIp = ip
  | .resumed => False
  | .done _ => False
  | _ => True

def Hopeful (w : Lookup) (cached : Option Mac) : Prop :=
  match w.stage with
  | .start => True
  | .sending => cached = none
  | .registered => w.hasResult = true ↔ cached ≠ none
  | .suspending => cached = none
  | .suspended => cached = none
  | .resumed => cached ≠ none
  | .done ret => ret ≠ -enetunreach

def Fit (w : Lookup) : Prop :=
  match w.stage with
  | .registered => w.handle = false
  | .suspending => w.handle = false
  | .suspended => w.handle = true
  | _ => True

variable {w w' : Lookup} {cached known : Option Mac} {ip : Ipv4} {mac : Mac}

theorem zero_ne_enetunreach : (0 : Int) ≠ -enetunreach := by decide

theorem next_targetIp (h : w.next cached = some w') : w'.targetIp = w.targetIp := by
  obtain ⟨targetIp,stage,hasResult,handle,resultMac⟩ := w
  cases stage with
  | start =>
    cases cached with
    | none => cases h; rfl
    | some mac => cases h; rfl
  | sending => cases h; rfl
  | registered => cases h; rfl
  | suspending => cases h; rfl
  | suspended => cases h
  | resumed =>
    cases cached with
    | none => cases h; rfl
    | some mac => cases h; rfl
  | done ret => cases h

theorem next_fit (h : w.next cached = some w') (hw : w.Fit) : w'.Fit := by
  obtain ⟨targetIp,stage,hasResult,handle,resultMac⟩ := w
  cases stage with
  | start =>
    cases cached with
    | none => cases h; trivial
    | some mac => cases h; trivial
  | sending => cases h; rfl
  | registered =>
    cases h
    cases hasResult with
    | false => exact hw
    | true => trivial
  | suspending => cases h; rfl
  | suspended => cases h
  | resumed =>
    cases cached with
    | none => cases h; trivial
    | some mac => cases h; trivial
  | done ret => cases h

theorem next_hopeful (h : w.next cached = some w') : w'.Hopeful cached ↔ w.Hopeful cached := by
  obtain ⟨targetIp,stage,hasResult,handle,resultMac⟩ := w
  cases stage with
  | start =>
    cases cached with
    | none => cases h; simp [Hopeful]
    | some mac => cases h; simpa [Hopeful] using zero_ne_enetunreach
  | sending => cases h; simp [Hopeful]
  | registered =>
    cases h
    cases hasResult with
    | false => simp [Hopeful]
    | true => simp [Hopeful]
  | suspending => cases h; rfl
  | suspended => cases h
  | resumed =>
    cases cached with
    | none => cases h; simp [Hopeful]
    | some mac => cases h; simpa [Hopeful] using zero_ne_enetunreach
  | done ret => cases h

def rank (w : Lookup) : Nat :=
  match w.stage with
  | .start => 5
  | .sending => 4
  | .registered => 3
  | .suspending => 2
  | .suspended => 1
  | .resumed => 1
  | .done _ => 0

theorem next_rank (h : w.next cached = some w') : w'.rank < w.rank := by
  obtain ⟨targetIp,stage,hasResult,handle,resultMac⟩ := w
  cases stage with
  | start =>
    cases cached with
    | none => cases h; simp [rank]
    | some mac => cases h; simp [rank]
  | sending => cases h; simp [rank]
  | registered =>
    cases h
    cases hasResult with
    | false => simp [rank]
    | true => simp [rank]
  | suspending => cases h; simp [rank]
  | suspended => cases h
  | resumed =>
    cases cached with
    | none => cases h; simp [rank]
    | some mac => cases h; simp [rank]
  | done ret => cases h

theorem next_none (h : w.next cached = none) (hw : ¬w.Hopeful cached) :
    w.stage = .suspended ∧ cached ≠ none ∨ w.stage = .done (-enetunreach) := by
  obtain ⟨targetIp,stage,hasResult,handle,resultMac⟩ := w
  cases stage with
  | start =>
    cases cached with
    | none => cases h
    | some mac => cases h
  | sending => cases h
  | registered => cases h
  | suspending => cases h
  | suspended => exact .inl ⟨rfl,hw⟩
  | resumed =>
    cases cached with
    | none => cases h
    | some mac => cases h
  | done ret => exact .inr (congrArg Stage.done (Decidable.not_not.mp hw))

theorem next_past (h : w.next cached = some w') (hw : w.past = true) : w'.past = true := by
  obtain ⟨targetIp,stage,hasResult,handle,resultMac⟩ := w
  cases stage with
  | start => cases hw
  | sending => cases hw
  | registered =>
    cases h
    cases hasResult with
    | false => rfl
    | true => rfl
  | suspending => cases h; rfl
  | suspended => cases h
  | resumed =>
    cases cached with
    | none => cases h; rfl
    | some mac => cases h; rfl
  | done ret => cases h

theorem Hopeful.ne_enetunreach (h : w.Hopeful cached) : w.stage ≠ .done (-enetunreach) := by
  intro hs
  rw [Hopeful,hs] at h
  exact h rfl

theorem Hopeful.suspended (h : w.Hopeful cached) (hs : w.stage = .suspended) : cached = none := by
  rwa [Hopeful,hs] at h

theorem hopeful_learn_iff (h : w.Hopeful cached) :
    w.Hopeful (if w.targetIp = ip then some mac else cached) ↔ (w.targetIp = ip → w.awaits = false) := by
  obtain ⟨targetIp,stage,hasResult,handle,resultMac⟩ := w
  rcases Decidable.em (targetIp = ip) with heq | hne
  · cases stage with
    | start => simp [Hopeful,awaits]
    | sending => simp [Hopeful,awaits,heq]
    | registered => simp [Hopeful,awaits,heq]
    | suspending => simp [Hopeful,awaits,heq]
    | suspended => simp [Hopeful,awaits,heq]
    | resumed => simp [Hopeful,awaits,heq]
    | done ret => simpa [Hopeful,awaits,heq] using h
  · simp [hne,h]

theorem hopeful_answer_iff (h : w.Hopeful cached) (hfit : w.Fit) (hpast : w.past = true)
    (hended : w.ended = false) :
    w.answer.Hopeful (if w.targetIp = ip then some mac else cached) ↔
      (w.targetIp = ip → w.awaits = true → w.listens = true) ∧ w.Takes ip := by
  obtain ⟨targetIp,stage,hasResult,handle,resultMac⟩ := w
  cases stage with
  | start => cases hpast
  | sending => cases hpast
  | registered =>
    cases hfit
    rcases Decidable.em (targetIp = ip) with heq | hne
    · simp [Hopeful,answer,awaits,listens,Takes,heq]
    · simpa [Hopeful,answer,awaits,listens,Takes,hne] using h.symm
  | suspending =>
    cases hfit
    cases h
    simp [Hopeful,answer,awaits,listens,Takes]
  | suspended =>
    cases hfit
    cases h
    simp [Hopeful,answer,awaits,listens,Takes]
  | resumed => cases hended
  | done ret => cases hended

theorem ended_not_takes (h : w.ended = true) : ¬w.Takes ip := by
  obtain ⟨targetIp,stage,hasResult,handle,resultMac⟩ := w
  cases stage with
  | start => cases h
  | sending => cases h
  | registered => cases h
  | suspending => cases h
  | suspended => cases h
  | resumed => exact id
  | done ret => exact id

theorem answer_fit (hfit : w.Fit) : w.answer.Fit := by
  obtain ⟨targetIp,stage,hasResult,handle,resultMac⟩ := w
  cases handle with
  | false => exact hfit
  | true => trivial

theorem answer_past (hpast : w.past = true) : w.answer.past = true := by
  obtain ⟨targetIp,stage,hasResult,handle,resultMac⟩ := w
  cases handle with
  | false => exact hpast
  | true => rfl

end Lookup

namespace Arp

variable {L : Type} {s t : Arp L} {l l' : L} {w w' : Lookup} {op : ArpOp L} {header : ArpHeader}

@[simp] theorem effect_lookups : (s.effect l w).lookups = s.lookups := by
  unfold effect
  split <;> rfl

@[simp] theorem effect_arpCache : (s.effect l w).arpCache = s.arpCache := by
  unfold effect
  split <;> rfl

@[simp] theorem effect_corrupt : (s.effect l w).corrupt = s.corrupt := by
  unfold effect
  split <;> rfl

theorem effect_callback (h : (s.effect l w).callback = some l') :
    s.callback = some l' ∨ w.stage = .registered ∧ l = l' := by
  unfold effect at h
  split at h
  · exact .inl h
  · rename_i hstage
    exact .inr ⟨hstage,Option.some.inj h⟩
  · exact .inl h

structure Sound (s : Arp L) : Prop where
  holder : ∀ l, s.callback = some l → ∃ w, s.lookups l = some w ∧ w.past = true
  fit : ∀ l w, s.lookups l = some w → w.Fit

structure Hopeful (s : Arp L) : Prop where
  intact : s.corrupt = false
  lookups : ∀ l w, s.lookups l = some w → w.Hopeful (s.cached w.targetIp)

theorem Hopeful.good (h : s.Hopeful) : s.Good where
  intact := h.intact
  resumed l w hl hs := (h.lookups l w hl).suspended hs
  found l w hl := (h.lookups l w hl).ne_enetunreach

variable [DecidableEq L]

theorem advance_iff : s.advance l = some t ↔ ∃ w w', s.lookups l = some w ∧
    w.next (s.cached w.targetIp) = some w' ∧ (s.setLookup l w').effect l w' = t := by
  rw [advance]
  cases hl : s.lookups l with
  | none => simp
  | some w =>
    cases hn : w.next (s.cached w.targetIp) with
    | none => simp [hn]
    | some w' => simp [hn]

theorem setLookup_self : (s.setLookup l w).lookups l = some w := by
  simp [setLookup]

theorem setLookup_other (h : l' ≠ l) : (s.setLookup l w).lookups l' = s.lookups l' :=
  Function.update_of_ne h _ _

theorem forall_setLookup {P : L → Lookup → Prop} (hl : P l w)
    (hrest : ∀ l' w', l' ≠ l → s.lookups l' = some w' → P l' w') :
    ∀ l' w', (s.setLookup l w).lookups l' = some w' → P l' w' := by
  intro l' w' h
  rcases eq_or_ne l' l with rfl | hne
  · rw [setLookup_self] at h
    cases h
    exact hl
  · exact hrest l' w' hne (setLookup_other hne ▸ h)

theorem Hopeful.advance (h : s.Hopeful) (hstep : s.advance l = some t) : t.Hopeful := by
  obtain ⟨w,w',hl,hnext,rfl⟩ := advance_iff.mp hstep
  refine ⟨by simpa [setLookup] using h.intact,?_⟩
  simp only [effect_lookups,cached,effect_arpCache]
  refine forall_setLookup ?_ fun l' w'' _ hl' => h.lookups l' w'' hl'
  have htarget := Lookup.next_targetIp hnext
  have hw' := (Lookup.next_hopeful hnext).mpr (h.lookups l w hl)
  rw [← htarget] at hw'
  exact hw'

theorem Hopeful.served (h : s.Hopeful) : s.Served := by
  intro t hworks
  refine Hopeful.good ?_
  induction hworks with
  | refl => exact h
  | tail _ hstep ih =>
    obtain ⟨l,hstep⟩ := hstep
    exact ih.advance hstep

theorem Sound.advance (h : s.Sound) (hstep : s.advance l = some t) : t.Sound := by
  obtain ⟨w,w',hl,hnext,rfl⟩ := advance_iff.mp hstep
  refine ⟨?_,?_⟩
  · intro l' hl'
    rw [effect_lookups]
    rcases effect_callback hl' with hold | ⟨hstage,rfl⟩
    · obtain ⟨v,hv,hpast⟩ := h.holder l' hold
      rcases eq_or_ne l' l with rfl | hne
      · obtain rfl := Option.some.inj (hl.symm.trans hv)
        exact ⟨w',setLookup_self,Lookup.next_past hnext hpast⟩
      · exact ⟨v,(setLookup_other hne).trans hv,hpast⟩
    · exact ⟨w',setLookup_self,by rw [Lookup.past,hstage]⟩
  · rw [effect_lookups]
    exact forall_setLookup (Lookup.next_fit hnext (h.fit l w hl)) fun l' w'' _ hl' => h.fit l' w'' hl'

theorem advance_exists (hl : s.lookups l = some w) (hnext : w.next (s.cached w.targetIp) = some w') :
    ∃ t, s.advance l = some t ∧ t.lookups l = some w' ∧ t.arpCache = s.arpCache :=
  ⟨_,advance_iff.mpr ⟨w,w',hl,hnext,rfl⟩,by rw [effect_lookups,setLookup_self],by
    rw [effect_arpCache,setLookup]⟩

theorem Served.hopeful_lookup (h : s.Served) (hl : s.lookups l = some w) :
    w.Hopeful (s.cached w.targetIp) := by
  by_contra hw
  induction hrank : w.rank using Nat.strong_induction_on generalizing s w with
  | _ n ih =>
    cases hnext : w.next (s.cached w.targetIp) with
    | none =>
      rcases Lookup.next_none hnext hw with ⟨hs,hc⟩ | hs
      · exact hc ((h s .refl).resumed l w hl hs)
      · exact (h s .refl).found l w hl hs
    | some w' =>
      obtain ⟨t,hstep,hl',hcache⟩ := advance_exists hl hnext
      have hsame : t.cached w'.targetIp = s.cached w.targetIp := by
        rw [cached,hcache,Lookup.next_targetIp hnext]
        rfl
      have hw' : ¬w'.Hopeful (t.cached w'.targetIp) := by
        rw [hsame,Lookup.next_hopeful hnext]
        exact hw
      exact ih w'.rank (hrank ▸ Lookup.next_rank hnext) (fun u hu => h u (.head ⟨l,hstep⟩ hu)) hl' hw' rfl

theorem served_iff_hopeful : s.Served ↔ s.Hopeful :=
  ⟨fun h => ⟨(h s .refl).intact,fun _ _ hl => h.hopeful_lookup hl⟩,fun h => h.served⟩

structure Expects (s : Arp L) (ip : Ipv4) : Prop where
  waiters : ∀ l w, s.lookups l = some w → w.targetIp = ip → w.awaits = true →
    s.callback = some l ∧ w.listens = true
  holder : ∀ l w, s.callback = some l → s.lookups l = some w → w.Takes ip

def Safe (s : Arp L) : ArpOp L → Prop
  | .receive header => s.accepts header = true → header.opcode = ArpHeader.opcodeReply →
      s.Expects header.srcProtocol
  | _ => True

omit [DecidableEq L] in
theorem cached_learn {ip ip' : Ipv4} {mac : Mac} :
    (s.learn ip mac).cached ip' = if ip' = ip then some mac else s.cached ip' := by
  rw [cached,learn,List.lookup_cons,cached]
  rcases eq_or_ne ip' ip with rfl | hne
  · simp
  · rw [beq_false_of_ne hne,if_neg hne]

section Reply

variable {ip : Ipv4} {mac : Mac}

theorem invoke_none (h : s.callback = none) : s.invoke = s := by
  rw [invoke,h]

theorem invoke_some (h : s.callback = some l) (hl : s.lookups l = some w) :
    s.invoke = if w.ended then { s with corrupt := true } else s.setLookup l w.answer := by
  simp only [invoke,h,hl]

omit [DecidableEq L] in
theorem hopeful_unreached (h : s.Hopeful) (hl : s.lookups l = some w) :
    w.Hopeful ((s.learn ip mac).cached w.targetIp) ↔ (w.targetIp = ip → w.awaits = false) := by
  rw [cached_learn]
  exact Lookup.hopeful_learn_iff (h.lookups l w hl)

omit [DecidableEq L] in
theorem reply_none (h : s.Hopeful) (hc : s.callback = none) :
    (s.learn ip mac).Hopeful ↔ s.Expects ip := by
  constructor
  · rintro ⟨-,hall⟩
    refine ⟨?_,?_⟩
    · intro l w hl htarget hawaits
      have hquiet := (hopeful_unreached h hl).mp (hall l w hl) htarget
      rw [hquiet] at hawaits
      cases hawaits
    · intro l w hl
      rw [hc] at hl
      cases hl
  · rintro ⟨hwaiters,-⟩
    refine ⟨h.intact,fun l w hl => (hopeful_unreached h hl).mpr ?_⟩
    intro htarget
    rw [← Bool.not_eq_true]
    intro hawaits
    have hheld := (hwaiters l w hl htarget hawaits).1
    rw [hc] at hheld
    cases hheld

theorem reply_some (h : s.Hopeful) (hs : s.Sound) (hc : s.callback = some l)
    (hl : s.lookups l = some w) (hpast : w.past = true) (hended : w.ended = false) :
    ((s.learn ip mac).setLookup l w.answer).Hopeful ↔ s.Expects ip := by
  have hanswer : w.answer.Hopeful ((s.learn ip mac).cached w.answer.targetIp) ↔
      (w.targetIp = ip → w.awaits = true → w.listens = true) ∧ w.Takes ip := by
    rw [cached_learn]
    exact Lookup.hopeful_answer_iff (h.lookups l w hl) (hs.fit l w hl) hpast hended
  constructor
  · rintro ⟨-,hall⟩
    obtain ⟨hlistens,htakes⟩ := hanswer.mp (hall l w.answer setLookup_self)
    refine ⟨?_,?_⟩
    · intro l' w' hl' htarget hawaits
      rcases eq_or_ne l' l with rfl | hne
      · obtain rfl := Option.some.inj (hl.symm.trans hl')
        exact ⟨hc,hlistens htarget hawaits⟩
      · have hw' := hall l' w' ((setLookup_other hne).trans hl')
        have hquiet := (hopeful_unreached h hl').mp hw' htarget
        rw [hquiet] at hawaits
        cases hawaits
    · intro l' w' hc' hl'
      obtain rfl := Option.some.inj (hc.symm.trans hc')
      obtain rfl := Option.some.inj (hl.symm.trans hl')
      exact htakes
  · rintro ⟨hwaiters,hholder⟩
    refine ⟨h.intact,forall_setLookup ?_ ?_⟩
    · exact hanswer.mpr ⟨fun htarget hawaits => (hwaiters l w hl htarget hawaits).2,hholder l w hc hl⟩
    · intro l' w' hne hl'
      refine (hopeful_unreached h hl').mpr ?_
      intro htarget
      rw [← Bool.not_eq_true]
      intro hawaits
      have hheld := (hwaiters l' w' hl' htarget hawaits).1
      exact hne (Option.some.inj (hheld.symm.trans hc))

theorem reply_hopeful_iff (h : s.Hopeful) (hs : s.Sound) :
    (s.learn ip mac).invoke.Hopeful ↔ s.Expects ip := by
  cases hc : s.callback with
  | none =>
    rw [invoke_none (s := s.learn ip mac) hc]
    exact reply_none h hc
  | some l =>
    obtain ⟨w,hl,hpast⟩ := hs.holder l hc
    rw [invoke_some (s := s.learn ip mac) hc hl]
    cases hended : w.ended with
    | true =>
      refine iff_of_false ?_ ?_
      · rintro ⟨hintact,-⟩
        cases hintact
      · rintro ⟨-,hholder⟩
        exact Lookup.ended_not_takes hended (hholder l w hc hl)
    | false => exact reply_some h hs hc hl hpast hended

theorem reply_sound (hs : s.Sound) : (s.learn ip mac).invoke.Sound := by
  cases hc : s.callback with
  | none =>
    rw [invoke_none (s := s.learn ip mac) hc]
    exact ⟨hs.holder,hs.fit⟩
  | some l =>
    obtain ⟨w,hl,hpast⟩ := hs.holder l hc
    rw [invoke_some (s := s.learn ip mac) hc hl]
    cases hended : w.ended with
    | true => exact ⟨hs.holder,hs.fit⟩
    | false =>
      refine ⟨?_,forall_setLookup (Lookup.answer_fit (hs.fit l w hl)) fun l' w' _ hl' => hs.fit l' w' hl'⟩
      intro l' hc'
      obtain rfl := Option.some.inj (hc.symm.trans hc')
      exact ⟨w.answer,setLookup_self,Lookup.answer_past hpast⟩

end Reply

omit [DecidableEq L] in
theorem Sound.arpSend {opcode : UInt16} {srcHardware dstHardware : Mac} {srcProtocol dstProtocol : Ipv4}
    (h : s.Sound) : (s.arpSend opcode srcHardware srcProtocol dstHardware dstProtocol).Sound :=
  ⟨h.holder,h.fit⟩

omit [DecidableEq L] in
theorem Hopeful.arpSend {opcode : UInt16} {srcHardware dstHardware : Mac} {srcProtocol dstProtocol : Ipv4}
    (h : s.Hopeful) : (s.arpSend opcode srcHardware srcProtocol dstHardware dstProtocol).Hopeful :=
  ⟨h.intact,h.lookups⟩

theorem arpProcess_sound (h : s.Sound) : (s.arpProcess header).Sound := by
  unfold arpProcess
  split_ifs
  · exact reply_sound h
  · exact h.arpSend
  · exact h
  · exact h

theorem arpProcess_hopeful_iff (h : s.Hopeful) (hs : s.Sound) :
    (s.arpProcess header).Hopeful ↔ s.Safe (.receive header) := by
  unfold arpProcess
  split_ifs with haccepts hreply hrequest
  · rw [reply_hopeful_iff h hs]
    exact ⟨fun he _ _ => he,fun he => he haccepts hreply⟩
  · exact iff_of_true h.arpSend fun _ he => absurd he hreply
  · exact iff_of_true h fun _ he => absurd he hreply
  · exact iff_of_true h fun ha => absurd ha haccepts

theorem started (h : s.lookups l = none) {targetIp : Ipv4} :
    (s.Sound → (s.setLookup l { targetIp := targetIp }).Sound) ∧
      (s.Hopeful → (s.setLookup l { targetIp := targetIp }).Hopeful) := by
  constructor
  · intro hs
    refine ⟨?_,forall_setLookup trivial fun l' w' _ hl' => hs.fit l' w' hl'⟩
    intro l' hc
    obtain ⟨w,hl',hpast⟩ := hs.holder l' hc
    rcases eq_or_ne l' l with rfl | hne
    · rw [h] at hl'
      cases hl'
    · exact ⟨w,(setLookup_other hne).trans hl',hpast⟩
  · intro hh
    exact ⟨hh.intact,forall_setLookup trivial fun l' w' _ hl' => hh.lookups l' w' hl'⟩

theorem Sound.step (h : s.Sound) (hstep : Step s op t) : t.Sound := by
  cases op with
  | lookup l targetIp =>
    cases hl : s.lookups l with
    | none =>
      simp only [Step,next,hl,Option.some.injEq] at hstep
      exact hstep ▸ (started hl).1 h
    | some w => simp [Step,next,hl] at hstep
  | advance l => exact h.advance hstep
  | receive header =>
    cases hstep
    exact arpProcess_sound h

theorem step_hopeful_iff (h : s.Hopeful) (hs : s.Sound) (hstep : Step s op t) :
    t.Hopeful ↔ s.Safe op := by
  cases op with
  | lookup l targetIp =>
    cases hl : s.lookups l with
    | none =>
      simp only [Step,next,hl,Option.some.injEq] at hstep
      exact iff_of_true (hstep ▸ (started hl).2 h) trivial
    | some w => simp [Step,next,hl] at hstep
  | advance l => exact iff_of_true (h.advance hstep) trivial
  | receive header =>
    cases hstep
    exact arpProcess_hopeful_iff h hs

def tracking : Tracking (Step (L := L)) (fun (_ : Unit) _ => ()) where
  Inv s _ := s.Sound
  View s _ := s.Served
  Ok _ := True
  Safe := Safe
  view_step hs hv _ hstep := by
    rw [served_iff_hopeful] at hv ⊢
    exact step_hopeful_iff hv hs hstep
  inv_step hs _ _ _ hstep := hs.step hstep

def boot (mac : Mac) (ipv4 : Ipv4) : Arp L := { mac := mac, ipv4 := ipv4 }

omit [DecidableEq L] in
theorem boot_sound (mac : Mac) (ipv4 : Ipv4) : (boot mac ipv4 : Arp L).Sound :=
  ⟨by rintro l ⟨⟩,by rintro l w ⟨⟩⟩

omit [DecidableEq L] in
theorem boot_hopeful (mac : Mac) (ipv4 : Ipv4) : (boot mac ipv4 : Arp L).Hopeful :=
  ⟨rfl,by rintro l w ⟨⟩⟩

theorem served_iff_safe (mac : Mac) (ipv4 : Ipv4) (ops : List (ArpOp L)) :
    (∀ pre, pre <+: ops → ∀ s, Runs Step (boot mac ipv4) pre s → s.Served) ↔
      ∀ pre op, pre ++ [op] <+: ops → ∀ s t, Runs Step (boot mac ipv4) pre s → Step s op t → s.Safe op :=
  tracking.view_iff_safe (fun _ _ => trivial) (a := ()) (boot_sound mac ipv4)
    (served_iff_hopeful.mpr (boot_hopeful mac ipv4))

end Arp

def gateway : Ipv4 := 0x0a000202

def nameserver : Ipv4 := 0x0a000203

def guestMac : Mac := ⟨#[0x52,0x54,0,0x12,0x34,0x56],rfl⟩

def gatewayReply : ArpHeader where
  hardwareType := 1
  protocolType := 0x0800
  hardwareLen := 6
  protocolLen := 4
  opcode := 2
  srcHardware := ⟨#[0x52,0x55,10,0,2,2],rfl⟩
  srcProtocol := gateway
  dstHardware := guestMac
  dstProtocol := 0x0a00020f

def twoLookups : List (ArpOp Nat) :=
  [.lookup 0 gateway,.lookup 1 nameserver,.advance 0,.advance 0,.advance 0,.advance 0,
    .advance 1,.advance 1,.advance 1,.advance 1,.receive gatewayReply,.advance 1]

theorem second_lookup_fails : ∃ s, Runs Arp.Step (Arp.boot guestMac 0x0a00020f) twoLookups s ∧
    (∃ w, s.lookups 0 = some w ∧ w.stage = .suspended ∧ s.cached w.targetIp = some gatewayReply.srcHardware) ∧
    ∃ w, s.lookups 1 = some w ∧ w.stage = .done (-enetunreach) :=
  ⟨_,⟨_,rfl,_,rfl,_,rfl,_,rfl,_,rfl,_,rfl,_,rfl,_,rfl,_,rfl,_,rfl,_,rfl,_,rfl,rfl⟩,⟨_,rfl,rfl,rfl⟩,⟨_,rfl,rfl⟩⟩

end SabaOS.Net
