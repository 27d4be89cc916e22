import Mathlib.Logic.Relation
import SabaOS.Dev.XhciRing
import SabaOS.Lib.Laps

namespace SabaOS.Xhci

section Traffic

open SabaOS.Lib

section Slots

variable {phy : UInt64} {i j : Nat}

theorem slotAddress_zero : slotAddress phy 0 = phy := by
  simp [slotAddress]

theorem slotAddress_succ : slotAddress phy i + trbSize = slotAddress phy (i + 1) := by
  rw [slotAddress,slotAddress,UInt64.ofNat_add,UInt64.mul_add,UInt64.add_assoc]
  rfl

theorem slotIndex_slotAddress (h : i ≤ ringSize) : slotIndex phy (slotAddress phy i) = i := by
  have hdiff : slotAddress phy i - phy = trbSize * .ofNat i := by
    rw [slotAddress,UInt64.add_comm,UInt64.add_sub_cancel]
  have hsmall : i ≤ 256 := h
  rw [slotIndex,hdiff,UInt64.toNat_div,UInt64.toNat_mul,UInt64.toNat_ofNat',show trbSize.toNat = 16 from rfl]
  omega

theorem slotAddress_inj (hi : i ≤ ringSize) (hj : j ≤ ringSize) :
    slotAddress phy i = slotAddress phy j ↔ i = j := by
  constructor
  · intro h
    have hback : slotIndex phy (slotAddress phy i) = i := slotIndex_slotAddress hi
    rw [h,slotIndex_slotAddress hj] at hback
    exact hback.symm
  · rintro rfl
    rfl

end Slots

namespace TRB

theorem linkControl_spec (parameter : UInt64) (status : UInt32) (b : Bool) :
    (TRB.mk parameter status (linkControl b)).cycle = b ∧ (TRB.mk parameter status (linkControl b)).type = typeLink ∧
      (TRB.mk parameter status (linkControl b)).toggles = true := by
  have hcycle : ∀ b, decide (linkControl b &&& 1 ≠ 0) = b := by decide
  have htype : ∀ b, (linkControl b >>> typeShiftBits) &&& 0x3f = typeLink := by decide
  have htoggles : ∀ b, decide (linkControl b &&& linkToggleCycle ≠ 0) = true := by decide
  exact ⟨hcycle b,htype b,htoggles b⟩

def stamp (trb : TRB) : TRB × Bool := (trb.bare,trb.cycle)

theorem stamp_withCycle {trb : TRB} {b : Bool} : (trb.withCycle b).stamp = (trb.bare,b) := by
  rw [stamp,bare_withCycle,cycle_withCycle]

end TRB

structure Work where
  trb : TRB
  notLink : trb.type ≠ TRB.typeLink

structure Transfer where
  ring : EnqueueRing
  consumer : Consumer
  enqueued : List TRB := []
  consumed : List TRB := []

namespace Transfer

def start (phy : UInt64) : Transfer := { ring := .init phy, consumer := .attach (.init phy) }

-- The driver never leaves more than `size - 2` TRBs unconsumed.
inductive Step : Transfer → Transfer → Prop
  | enqueue {s : Transfer} (work : Work) : s.enqueued.length + 1 ≤ s.consumed.length + (s.ring.size - 2) →
      Step s { s with ring := (s.ring.enqueue work.trb).2, enqueued := s.enqueued ++ [work.trb] }
  | consume {s : Transfer} {trb : TRB} {c : Consumer} : s.consumer.turn s.ring = some (some trb,c) →
      Step s { s with consumer := c, consumed := s.consumed ++ [trb] }
  | follow {s : Transfer} {c : Consumer} : s.consumer.turn s.ring = some (none,c) → Step s { s with consumer := c }

def Reachable (phy : UInt64) : Transfer → Prop := Relation.ReflTransGen Step (start phy)

def slots : Nat := ringSize - 1

def AtSlot (phy : UInt64) (r : Nat) (c : Consumer) : Prop :=
  c = ⟨slotAddress phy (r % slots),lapPhase slots r⟩

def AtLink (phy : UInt64) (r : Nat) (c : Consumer) : Prop :=
  0 < r ∧ r % slots = 0 ∧ c = ⟨slotAddress phy slots,!lapPhase slots r⟩

structure Sound (phy : UInt64) (s : Transfer) : Prop where
  address : s.ring.phy = phy
  size : s.ring.size = ringSize
  writer : Lap slots s.enqueued.length s.ring.enqueueIndex s.ring.cycleBit
  stamped : Stamped slots (fun i => (s.ring.ring i).stamp) (s.enqueued.map TRB.bare)
  types : ∀ i, i < slots → (s.ring.ring i).type ≠ TRB.typeLink
  link : ∃ status b, s.ring.ring slots = ⟨phy,status,TRB.linkControl b⟩ ∧
    (slots ≤ s.enqueued.length → b = !lapPhase slots s.enqueued.length)
  reader : AtSlot phy s.consumed.length s.consumer ∨ AtLink phy s.consumed.length s.consumer
  order : s.consumed.map TRB.bare <+: s.enqueued.map TRB.bare
  window : s.enqueued.length < s.consumed.length + slots

variable {phy : UInt64} {s s' : Transfer}

theorem slots_pos : 0 < slots := by decide

theorem init_slot {i : Nat} (h : i < slots) : (EnqueueRing.init phy).ring i = {} := by
  have hne : i ≠ ringSize - 1 := Nat.ne_of_lt h
  simp only [EnqueueRing.init,Function.update_of_ne hne]

theorem init_link : (EnqueueRing.init phy).ring slots = ⟨phy,0,TRB.linkControl true⟩ := by
  simp only [EnqueueRing.init,slots,Function.update_self]

theorem blank_stamp : (TRB.stamp {}).2 = false := by decide

theorem Sound.start : Sound phy (start phy) := by
  have hslot : AtSlot phy 0 ⟨phy,true⟩ := by
    rw [AtSlot,Nat.zero_mod,slotAddress_zero,lapPhase_of_lt slots_pos]
  refine ⟨rfl,rfl,.start,.start ?_,?_,⟨0,true,init_link,?_⟩,.inl hslot,List.prefix_rfl,slots_pos⟩
  · intro k hk
    change ((EnqueueRing.init phy).ring k).stamp.2 = false
    rw [init_slot hk]
    exact blank_stamp
  · intro i hi
    change ((EnqueueRing.init phy).ring i).type ≠ TRB.typeLink
    rw [init_slot hi]
    decide
  · intro h
    exact absurd h (not_le.mpr slots_pos)

section Enqueue

variable {r : EnqueueRing} {trb : TRB}

theorem enqueue_inside (hsize : r.size = ringSize) (h : r.enqueueIndex + 1 ≠ slots) : (r.enqueue trb).2 =
    { r with
      ring := Function.update r.ring r.enqueueIndex (trb.withCycle r.cycleBit)
      enqueueIndex := r.enqueueIndex + 1 } := by
  have hnot : ¬r.enqueueIndex + 1 = r.size - 1 := by
    rw [hsize]
    exact h
  unfold EnqueueRing.enqueue
  dsimp only
  rw [if_neg hnot]

theorem enqueue_end (hsize : r.size = ringSize) (h : r.enqueueIndex + 1 = slots) : (r.enqueue trb).2 =
    { r with
      ring := Function.update (Function.update r.ring r.enqueueIndex (trb.withCycle r.cycleBit)) slots
        { r.ring slots with control := TRB.linkControl r.cycleBit }
      enqueueIndex := 0
      cycleBit := !r.cycleBit } := by
  have hend : r.enqueueIndex + 1 = r.size - 1 := by
    rw [hsize]
    exact h
  have hslots : r.size - 1 = slots := by
    rw [hsize]
    rfl
  have hne : slots ≠ r.enqueueIndex := by omega
  unfold EnqueueRing.enqueue EnqueueRing.setLink
  dsimp only
  rw [if_pos hend,hslots,Function.update_of_ne hne]

end Enqueue

theorem Sound.written (hs : Sound phy s) {trb : TRB} {ring : Nat → TRB}
    (hring : ∀ i, i < slots → ring i = Function.update s.ring.ring s.ring.enqueueIndex (trb.withCycle s.ring.cycleBit) i) :
    Stamped slots (fun i => (ring i).stamp) ((s.enqueued ++ [trb]).map TRB.bare) := by
  have hwrite := hs.stamped.write (a := trb.bare)
  rw [List.length_map,← hs.writer.index,← hs.writer.cycle] at hwrite
  rw [List.map_append]
  refine hwrite.congr slots_pos ?_
  intro i hi
  rw [hring i hi]
  by_cases heq : i = s.ring.enqueueIndex
  · rw [heq,Function.update_self,Function.update_self,TRB.stamp_withCycle]
  · rw [Function.update_of_ne heq,Function.update_of_ne heq]

theorem Sound.typed (hs : Sound phy s) (work : Work) {ring : Nat → TRB}
    (hring : ∀ i, i < slots →
      ring i = Function.update s.ring.ring s.ring.enqueueIndex (work.trb.withCycle s.ring.cycleBit) i) :
    ∀ i, i < slots → (ring i).type ≠ TRB.typeLink := by
  intro i hi
  rw [hring i hi]
  by_cases heq : i = s.ring.enqueueIndex
  · rw [heq,Function.update_self,TRB.type_withCycle]
    exact work.notLink
  · rw [Function.update_of_ne heq]
    exact hs.types i hi

theorem Sound.enqueue (hs : Sound phy s) (work : Work)
    (hroom : s.enqueued.length + 1 ≤ s.consumed.length + (s.ring.size - 2)) :
    Sound phy { s with ring := (s.ring.enqueue work.trb).2, enqueued := s.enqueued ++ [work.trb] } := by
  have hwindow : s.enqueued.length + 1 < s.consumed.length + slots := by
    rw [hs.size] at hroom
    exact Nat.lt_of_le_of_lt hroom (Nat.add_lt_add_left (by decide) _)
  have horder : s.consumed.map TRB.bare <+: (s.enqueued ++ [work.trb]).map TRB.bare := by
    rw [List.map_append]
    exact hs.order.trans (List.prefix_append _ _)
  have hlength : (s.enqueued ++ [work.trb]).length = s.enqueued.length + 1 := by simp
  have hlap := hs.writer.step slots_pos
  obtain ⟨status,b,hlink,hb⟩ := hs.link
  have hindex : s.ring.enqueueIndex < slots := by
    rw [hs.writer.index]
    exact Nat.mod_lt _ slots_pos
  split_ifs at hlap with hend
  · rw [enqueue_end hs.size hend]
    have hring : ∀ i, i < slots → Function.update (Function.update s.ring.ring s.ring.enqueueIndex
        (work.trb.withCycle s.ring.cycleBit)) slots { s.ring.ring slots with control := TRB.linkControl s.ring.cycleBit } i =
        Function.update s.ring.ring s.ring.enqueueIndex (work.trb.withCycle s.ring.cycleBit) i :=
      fun i hi => Function.update_of_ne (Nat.ne_of_lt hi) _ _
    refine ⟨hs.address,hs.size,?_,hs.written hring,hs.typed work hring,⟨status,s.ring.cycleBit,?_,?_⟩,hs.reader,horder,?_⟩
    · rw [hlength]
      exact hlap
    · dsimp only
      rw [Function.update_self,hlink]
    · intro _
      rw [hlength,← hlap.cycle,Bool.not_not]
    · rw [hlength]
      exact hwindow
  · rw [enqueue_inside hs.size hend]
    refine ⟨hs.address,hs.size,?_,hs.written fun _ _ => rfl,hs.typed work fun _ _ => rfl,⟨status,b,?_,?_⟩,hs.reader,horder,?_⟩
    · rw [hlength]
      exact hlap
    · dsimp only
      rw [Function.update_of_ne (Nat.ne_of_gt hindex),hlink]
    · rw [hlength]
      intro hlong
      have hsame : lapPhase slots (s.enqueued.length + 1) = lapPhase slots s.enqueued.length := by
        rw [← hlap.cycle,hs.writer.cycle]
      rw [hsame]
      refine hb ?_
      by_contra hshort
      have hfirst : s.ring.enqueueIndex = s.enqueued.length := by
        rw [hs.writer.index,Nat.mod_eq_of_lt (not_le.mp hshort)]
      omega
    · rw [hlength]
      exact hwindow

theorem fetch_slot (hs : Sound phy s) {i : Nat} (hi : i ≤ slots) : s.ring.fetch (slotAddress phy i) = s.ring.ring i := by
  have hsmall : i ≤ ringSize := le_trans hi (by decide)
  rw [EnqueueRing.fetch,hs.address,slotIndex_slotAddress hsmall]

theorem Sound.reader_le (hs : Sound phy s) : s.consumed.length ≤ s.enqueued.length := by
  simpa using hs.order.length_le

theorem turn_pending (hs : Sound phy s) {c : Consumer} (hc : AtSlot phy s.consumed.length c)
    (h : s.consumed.length < s.enqueued.length) : ∃ trb, trb.bare = s.enqueued[s.consumed.length].bare ∧
      c.turn s.ring = some (some trb,⟨c.dequeue + trbSize,c.cycleState⟩) := by
  have hmod : s.consumed.length % slots < slots := Nat.mod_lt _ slots_pos
  have hwindow := hs.window
  have hstamp := hs.stamped.written s.consumed.length (by simpa using h) (by rw [List.length_map]; omega)
  have hbare : (s.ring.ring (s.consumed.length % slots)).bare = s.enqueued[s.consumed.length].bare := by
    have hfirst := congrArg Prod.fst hstamp
    rwa [List.getElem_map] at hfirst
  have hcycle : (s.ring.ring (s.consumed.length % slots)).cycle = lapPhase slots s.consumed.length :=
    congrArg Prod.snd hstamp
  refine ⟨_,hbare,?_⟩
  rw [hc,Consumer.turn,fetch_slot hs (le_of_lt hmod)]
  dsimp only
  rw [if_neg (not_not.mpr hcycle),if_neg (hs.types _ hmod)]

theorem turn_exhausted (hs : Sound phy s) {c : Consumer} (hc : AtSlot phy s.consumed.length c)
    (h : s.consumed.length = s.enqueued.length) : c.turn s.ring = none := by
  have hmod : s.consumed.length % slots < slots := Nat.mod_lt _ slots_pos
  have hstamp := hs.stamped.exhausted slots_pos
  rw [List.length_map,← h] at hstamp
  rw [hc,Consumer.turn,fetch_slot hs (le_of_lt hmod)]
  exact if_pos hstamp

theorem turn_link (hs : Sound phy s) {c : Consumer} (hc : AtLink phy s.consumed.length c) :
    ∃ c', c.turn s.ring = some (none,c') ∧ AtSlot phy s.consumed.length c' := by
  obtain ⟨hpos,hmod,rfl⟩ := hc
  obtain ⟨status,b,hlink,hb⟩ := hs.link
  obtain ⟨hcycle,htype,htoggles⟩ := TRB.linkControl_spec phy status b
  have hle := hs.reader_le
  have hwindow := hs.window
  obtain ⟨laps,hlaps⟩ : ∃ m, s.consumed.length = slots * m := ⟨_,(Nat.mul_div_cancel' (Nat.dvd_of_mod_eq_zero hmod)).symm⟩
  have hlong : slots ≤ s.consumed.length := Nat.le_of_dvd hpos (Nat.dvd_of_mod_eq_zero hmod)
  have hdiv : s.enqueued.length / slots = s.consumed.length / slots := by
    have hrest : s.enqueued.length = (s.enqueued.length - s.consumed.length) + slots * laps := by omega
    rw [hrest,hlaps,Nat.add_mul_div_left _ _ slots_pos,Nat.mul_div_cancel_left _ slots_pos,
      Nat.div_eq_of_lt (by omega),Nat.zero_add]
  have hphase : lapPhase slots s.enqueued.length = lapPhase slots s.consumed.length := by
    rw [lapPhase,lapPhase,hdiv]
  have hbit : b = !lapPhase slots s.consumed.length := by
    rw [hb (le_trans hlong hle),hphase]
  refine ⟨⟨phy,lapPhase slots s.consumed.length⟩,?_,?_⟩
  · rw [Consumer.turn,fetch_slot hs (le_refl _),hlink]
    dsimp only
    rw [if_neg (not_not.mpr (hcycle.trans hbit)),if_pos htype,if_pos htoggles,Bool.not_not]
  · rw [AtSlot,hmod,slotAddress_zero]

theorem atSlot_next {r : Nat} {c : Consumer} (hc : AtSlot phy r c) :
    AtSlot phy (r + 1) ⟨c.dequeue + trbSize,c.cycleState⟩ ∨ AtLink phy (r + 1) ⟨c.dequeue + trbSize,c.cycleState⟩ := by
  have hlap : Lap slots r (r % slots) (lapPhase slots r) := ⟨rfl,rfl⟩
  have hnext := hlap.step slots_pos
  obtain rfl := hc
  split_ifs at hnext with hend
  · refine .inr ⟨Nat.succ_pos r,hnext.index.symm,?_⟩
    rw [slotAddress_succ,hend,← hnext.cycle,Bool.not_not]
  · refine .inl ?_
    rw [AtSlot,slotAddress_succ,hnext.index,hnext.cycle]

theorem Sound.consume (hs : Sound phy s) {trb : TRB} {c : Consumer} (h : s.consumer.turn s.ring = some (some trb,c)) :
    Sound phy { s with consumer := c, consumed := s.consumed ++ [trb] } := by
  have hlength : (s.consumed ++ [trb]).length = s.consumed.length + 1 := by simp
  rcases hs.reader with hc | hc
  · rcases Nat.lt_or_eq_of_le hs.reader_le with hlt | heq
    · obtain ⟨trb',hbare,hturn⟩ := turn_pending hs hc hlt
      cases hturn.symm.trans h
      have hwindow := hs.window
      refine ⟨hs.address,hs.size,hs.writer,hs.stamped,hs.types,hs.link,?_,?_,?_⟩
      · rw [hlength]
        exact atSlot_next hc
      · have hnext := List.concat_get_prefix hs.order (by simpa using hlt)
        simpa [hbare] using hnext
      · rw [hlength]
        dsimp only
        omega
    · cases (turn_exhausted hs hc heq).symm.trans h
  · obtain ⟨c',hturn,-⟩ := turn_link hs hc
    cases hturn.symm.trans h

theorem Sound.follow (hs : Sound phy s) {c : Consumer} (h : s.consumer.turn s.ring = some (none,c)) :
    Sound phy { s with consumer := c } := by
  rcases hs.reader with hc | hc
  · rcases Nat.lt_or_eq_of_le hs.reader_le with hlt | heq
    · obtain ⟨trb,-,hturn⟩ := turn_pending hs hc hlt
      cases hturn.symm.trans h
    · cases (turn_exhausted hs hc heq).symm.trans h
  · obtain ⟨c',hturn,hslot⟩ := turn_link hs hc
    cases hturn.symm.trans h
    exact ⟨hs.address,hs.size,hs.writer,hs.stamped,hs.types,hs.link,.inl hslot,hs.order,hs.window⟩

theorem Sound.step (hs : Sound phy s) (hstep : Step s s') : Sound phy s' := by
  cases hstep with
  | enqueue work hroom => exact hs.enqueue work hroom
  | consume h => exact hs.consume h
  | follow h => exact hs.follow h

theorem Reachable.sound (h : Reachable phy s) : Sound phy s := by
  induction h with
  | refl => exact .start
  | tail _ hstep ih => exact ih.step hstep

def Next (s : Transfer) (trb : TRB) : Prop :=
  (∃ c, s.consumer.turn s.ring = some (some trb,c)) ∨
    ∃ c c', s.consumer.turn s.ring = some (none,c) ∧ c.turn s.ring = some (some trb,c')

structure Delivered (s : Transfer) : Prop where
  order : s.consumed.map TRB.bare <+: s.enqueued.map TRB.bare
  pending : (h : s.consumed.length < s.enqueued.length) →
    ∃ trb, s.Next trb ∧ trb.bare = s.enqueued[s.consumed.length].bare
  drained : s.consumed.length = s.enqueued.length → ∀ trb, ¬s.Next trb

theorem Sound.delivered (hs : Sound phy s) : Delivered s := by
  refine ⟨hs.order,?_,?_⟩
  · intro h
    rcases hs.reader with hc | hc
    · obtain ⟨trb,hbare,hturn⟩ := turn_pending hs hc h
      exact ⟨trb,.inl ⟨_,hturn⟩,hbare⟩
    · obtain ⟨c,hlink,hslot⟩ := turn_link hs hc
      obtain ⟨trb,hbare,hturn⟩ := turn_pending hs hslot h
      exact ⟨trb,.inr ⟨c,_,hlink,hturn⟩,hbare⟩
  · rintro heq trb (⟨c,hturn⟩ | ⟨c,c',hlink,hturn⟩)
    · have hnext := (hs.consume hturn).reader_le
      simp only [List.length_append,List.length_singleton] at hnext
      omega
    · have hnext := ((hs.follow hlink).consume hturn).reader_le
      simp only [List.length_append,List.length_singleton] at hnext
      omega

end Transfer

end Traffic

section Events

open SabaOS.Lib

structure Events where
  ring : EventRing
  producer : Producer
  produced : List TRB := []
  received : List TRB := []

namespace Events

def start (phy : UInt64) : Events := { ring := .init phy, producer := .attach (.init phy) }

inductive Step : Events → Events → Prop
  | produce {s : Events} {trb : TRB} {ring : EventRing} {producer : Producer} :
      s.producer.produce s.ring trb = some (ring,producer) →
      Step s { s with ring := ring, producer := producer, produced := s.produced ++ [trb] }
  | dequeue {s : Events} {trb : TRB} {ring : EventRing} : s.ring.dequeue = ((0,some trb),ring) →
      Step s { s with ring := ring, received := s.received ++ [trb] }

def Reachable (phy : UInt64) : Events → Prop := Relation.ReflTransGen Step (start phy)

structure Sound (phy : UInt64) (s : Events) : Prop where
  address : s.ring.phy = phy
  segment : s.ring.segmentTable = ⟨phy,ringSize⟩
  size : s.ring.size = ringSize
  reader : Lap ringSize s.received.length s.ring.dequeueIndex s.ring.cycleBit
  pointer : s.ring.dequeuePointer = slotAddress phy s.ring.dequeueIndex
  writer : ∃ index, s.producer.enqueue = slotAddress phy index ∧
    Lap ringSize s.produced.length index s.producer.cycleState
  stamped : Stamped ringSize (fun i => (s.ring.ring i).stamp) (s.produced.map TRB.bare)
  order : s.received.map TRB.bare <+: s.produced.map TRB.bare
  window : s.produced.length < s.received.length + ringSize

variable {phy : UInt64} {s s' : Events} {trb : TRB} {ring : EventRing} {producer : Producer}

theorem ringSize_pos : 0 < ringSize := by decide

theorem Sound.start : Sound phy (start phy) := by
  refine ⟨rfl,rfl,rfl,.start,slotAddress_zero.symm,⟨0,slotAddress_zero.symm,.start⟩,.start ?_,List.prefix_rfl,ringSize_pos⟩
  intro k _
  exact Transfer.blank_stamp

theorem Sound.received_le (hs : Sound phy s) : s.received.length ≤ s.produced.length := by
  simpa using hs.order.length_le

theorem next_lap (hs : Sound phy s) : ∃ index, (s.producer.next s.ring).enqueue = slotAddress phy index ∧
    Lap ringSize (s.produced.length + 1) index (s.producer.next s.ring).cycleState := by
  obtain ⟨index,haddress,hlap⟩ := hs.writer
  have hindex : index < ringSize := by
    rw [hlap.index]
    exact Nat.mod_lt _ ringSize_pos
  have hend : s.producer.enqueue + trbSize = slotAddress s.ring.segmentTable.address s.ring.segmentTable.size ↔
      index + 1 = ringSize := by
    rw [hs.segment,haddress,slotAddress_succ]
    exact slotAddress_inj hindex (le_refl _)
  have hnext := hlap.step ringSize_pos
  unfold Producer.next
  split_ifs at hnext with hlast
  · rw [if_pos (hend.mpr hlast),hs.segment]
    exact ⟨0,slotAddress_zero.symm,hnext⟩
  · rw [if_neg (fun h => hlast (hend.mp h)),haddress,slotAddress_succ]
    exact ⟨index + 1,rfl,hnext⟩

theorem produce_some {r : EventRing} {p : Producer} (h : p.produce r trb = some (ring,producer)) :
    (p.next r).enqueue ≠ r.dequeuePointer ∧ producer = p.next r ∧
      ring = { r with ring := Function.update r.ring (slotIndex r.phy p.enqueue) (trb.withCycle p.cycleState) } := by
  unfold Producer.produce at h
  split_ifs at h with hfull
  cases h
  exact ⟨hfull,rfl,rfl⟩

theorem Sound.produce (hs : Sound phy s) (h : s.producer.produce s.ring trb = some (ring,producer)) :
    Sound phy { s with ring := ring, producer := producer, produced := s.produced ++ [trb] } := by
  obtain ⟨index,haddress,hlap⟩ := hs.writer
  obtain ⟨after,hafter,hnext⟩ := next_lap hs
  obtain ⟨hfree,rfl,rfl⟩ := produce_some h
  have hlength : (s.produced ++ [trb]).length = s.produced.length + 1 := by simp
  have hindex : index < ringSize := by
    rw [hlap.index]
    exact Nat.mod_lt _ ringSize_pos
  have hslot : slotIndex s.ring.phy s.producer.enqueue = index := by
    rw [hs.address,haddress,slotIndex_slotAddress (le_of_lt hindex)]
  have hwrite := hs.stamped.write (a := trb.bare)
  rw [List.length_map,← hlap.index,← hlap.cycle] at hwrite
  refine ⟨hs.address,hs.segment,hs.size,hs.reader,hs.pointer,⟨after,hafter,?_⟩,?_,?_,?_⟩
  · rw [hlength]
    exact hnext
  · rw [List.map_append]
    refine hwrite.congr ringSize_pos ?_
    intro i _
    dsimp only
    rw [hslot]
    by_cases heq : i = index
    · rw [heq,Function.update_self,Function.update_self,TRB.stamp_withCycle]
    · rw [Function.update_of_ne heq,Function.update_of_ne heq]
  · rw [List.map_append]
    exact hs.order.trans (List.prefix_append _ _)
  · rw [hlength]
    refine lt_of_le_of_ne hs.window ?_
    intro hmeet
    have hfull : after = s.ring.dequeueIndex := by
      rw [hnext.index,hs.reader.index,← Nat.add_mod_right s.received.length]
      exact congrArg (· % ringSize) hmeet
    rw [hafter,hs.pointer,hfull] at hfree
    exact hfree rfl

theorem dequeue_pending (hs : Sound phy s) (h : s.received.length < s.produced.length) :
    ∃ trb, trb.bare = s.produced[s.received.length].bare ∧ s.ring.dequeue = ((0,some trb),s.ring.advance) := by
  have hstamp := hs.stamped.written s.received.length (by simpa using h)
    (by rw [List.length_map]; exact le_of_lt hs.window)
  rw [← hs.reader.index] at hstamp
  have hbare : (s.ring.ring s.ring.dequeueIndex).bare = s.produced[s.received.length].bare := by
    have hfirst := congrArg Prod.fst hstamp
    rwa [List.getElem_map] at hfirst
  have hcycle : (s.ring.ring s.ring.dequeueIndex).cycle = lapPhase ringSize s.received.length :=
    congrArg Prod.snd hstamp
  have hevents : s.ring.hasUnprocessedEvents := decide_eq_true (hcycle.trans hs.reader.cycle.symm)
  exact ⟨_,hbare,if_pos hevents⟩

theorem dequeue_empty (hs : Sound phy s) (h : s.received.length = s.produced.length) :
    s.ring.dequeue = ((-EventRing.ewouldblock,none),s.ring) := by
  have hstamp := hs.stamped.exhausted ringSize_pos
  rw [List.length_map,← h,← hs.reader.index,← hs.reader.cycle] at hstamp
  have hnone : ¬s.ring.hasUnprocessedEvents := fun hevents => hstamp (of_decide_eq_true hevents)
  exact if_neg hnone

theorem advance_lap (hs : Sound phy s) : Lap ringSize (s.received.length + 1) s.ring.advance.dequeueIndex s.ring.advance.cycleBit := by
  have hnext := hs.reader.step ringSize_pos
  unfold EventRing.advance
  dsimp only
  rw [hs.size]
  split_ifs at hnext ⊢ with hend
  · exact hnext
  · exact hnext

theorem advance_frame {r : EventRing} : r.advance.phy = r.phy ∧ r.advance.segmentTable = r.segmentTable ∧
    r.advance.size = r.size ∧ r.advance.ring = r.ring ∧
    r.advance.dequeuePointer = slotAddress r.phy r.advance.dequeueIndex := by
  unfold EventRing.advance
  dsimp only
  split_ifs <;> exact ⟨rfl,rfl,rfl,rfl,rfl⟩

theorem Sound.dequeue (hs : Sound phy s) (h : s.ring.dequeue = ((0,some trb),ring)) :
    Sound phy { s with ring := ring, received := s.received ++ [trb] } := by
  have hlength : (s.received ++ [trb]).length = s.received.length + 1 := by simp
  rcases Nat.lt_or_eq_of_le hs.received_le with hlt | heq
  · obtain ⟨trb',hbare,hdequeue⟩ := dequeue_pending hs hlt
    cases hdequeue.symm.trans h
    obtain ⟨hphy,hsegment,hsize,hring,hpointer⟩ := advance_frame (r := s.ring)
    have hlap := advance_lap hs
    have hwindow := hs.window
    refine ⟨hphy.trans hs.address,hsegment.trans hs.segment,hsize.trans hs.size,?_,?_,?_,?_,?_,?_⟩
    · rw [hlength]
      exact hlap
    · exact hs.address ▸ hpointer
    · exact hs.writer
    · dsimp only
      rw [hring]
      exact hs.stamped
    · have hnext := List.concat_get_prefix hs.order (by simpa using hlt)
      simpa [hbare] using hnext
    · rw [hlength]
      dsimp only
      omega
  · cases (dequeue_empty hs heq).symm.trans h

theorem Sound.step (hs : Sound phy s) (hstep : Step s s') : Sound phy s' := by
  cases hstep with
  | produce h => exact hs.produce h
  | dequeue h => exact hs.dequeue h

theorem Reachable.sound (h : Reachable phy s) : Sound phy s := by
  induction h with
  | refl => exact .start
  | tail _ hstep ih => exact ih.step hstep

structure Delivered (s : Events) : Prop where
  order : s.received.map TRB.bare <+: s.produced.map TRB.bare
  pending : (h : s.received.length < s.produced.length) →
    ∃ trb, s.ring.dequeue.1 = (0,some trb) ∧ trb.bare = s.produced[s.received.length].bare
  drained : s.received.length = s.produced.length → s.ring.dequeue = ((-EventRing.ewouldblock,none),s.ring)

theorem Sound.delivered (hs : Sound phy s) : Delivered s := by
  refine ⟨hs.order,?_,dequeue_empty hs⟩
  intro h
  obtain ⟨trb,hbare,hdequeue⟩ := dequeue_pending hs h
  exact ⟨trb,congrArg Prod.fst hdequeue,hbare⟩

end Events

theorem rings_deliver (phy : UInt64) : (∀ s, Transfer.Reachable phy s → s.Delivered) ∧
    ∀ s, Events.Reachable phy s → s.Delivered :=
  ⟨fun _ h => h.sound.delivered,fun _ h => h.sound.delivered⟩

end Events

end SabaOS.Xhci
