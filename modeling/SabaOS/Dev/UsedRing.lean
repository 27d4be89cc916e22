import Mathlib.Data.List.Basic
import Mathlib.Data.Nat.ModEq
import Mathlib.Logic.Function.Basic
import Mathlib.Logic.Relation

namespace SabaOS.Virtio

structure Descriptor where
  address : Nat
  length : Nat
  flags : Nat
  next : Nat
deriving DecidableEq, Repr

def flagNext : Nat := 1

def flagDeviceWrite : Nat := 2

structure Queue where
  length : Nat
  freeDescIndex : Nat
  numFreeDescs : Nat
  lastSeenUsed : Nat
  descriptorArray : Nat → Descriptor
  availableIndex : Nat
  availableRing : Nat → Nat
  usedIndex : Nat
  usedRing : Nat → Nat

def queueLength : Nat := 128

def indexBound : Nat := 65536

namespace Queue

def init : Queue :=
  ⟨queueLength,0,queueLength,0,fun i => ⟨0,0,0,if i < queueLength then i + 1 else 0⟩,0,fun _ => 0,0,
    fun _ => 0⟩

def setDescriptor (q : Queue) (index : Nat) (f : Descriptor → Descriptor) : Queue :=
  { q with descriptorArray := Function.update q.descriptorArray index (f (q.descriptorArray index)) }

-- The length of the queue when no descriptor is free.
def allocDescriptor (q : Queue) : Nat × Queue :=
  if q.freeDescIndex = q.length then (q.freeDescIndex,q)
  else (q.freeDescIndex,{ q with
    freeDescIndex := (q.descriptorArray q.freeDescIndex).next
    numFreeDescs := q.numFreeDescs - 1 })

def freeDescriptor (q : Queue) (index : Nat) : Queue :=
  { q.setDescriptor index fun d => { d with next := q.freeDescIndex } with
    freeDescIndex := index
    numFreeDescs := q.numFreeDescs + 1 }

def submitDescriptor (q : Queue) (index : Nat) : Queue :=
  { q with
    availableRing := Function.update q.availableRing (q.availableIndex % q.length) index
    availableIndex := (q.availableIndex + 1) % indexBound }

def deviceUses (q : Queue) (id : Nat) : Queue :=
  { q with
    usedRing := Function.update q.usedRing (q.usedIndex % q.length) id
    usedIndex := (q.usedIndex + 1) % indexBound }

def hasUsed (q : Queue) (i : Nat) : Prop := i ≠ q.usedIndex % q.length

instance {q : Queue} {i : Nat} : Decidable (q.hasUsed i) := inferInstanceAs (Decidable (_ ≠ _))

end Queue

theorem mod_eq_mod_iff {n c t : Nat} (hle : c ≤ t) (hn : t ≤ c + n) (hpos : 0 < n) :
    c % n = t % n ↔ t = c ∨ t = c + n := by
  constructor
  · intro h
    have hdvd : n ∣ t - c := (Nat.modEq_iff_dvd' hle).mp h
    obtain ⟨k,hk⟩ := hdvd
    have hk1 : k ≤ 1 := by
      by_contra hk1
      have : n * 2 ≤ n * k := Nat.mul_le_mul_left n (by omega)
      omega
    rcases Nat.le_one_iff_eq_zero_or_eq_one.mp hk1 with rfl | rfl
    · exact .inl (by omega)
    · exact .inr (by omega)
  · rintro (rfl | rfl)
    · rfl
    · simp

inductive Handler where
  | irq
  | rxIrq
  | txIrq
deriving DecidableEq, Repr

structure Consumer where
  queue : Queue
  cursor : Option Nat
  completed : List Nat
  processed : List Nat

namespace Consumer

def boot : Consumer := ⟨Queue.init,none,[],[]⟩

-- The device never has more entries unconsumed than the queue is long.
def complete (s : Consumer) (id : Nat) : Option Consumer :=
  if s.completed.length < s.processed.length + s.queue.length then
    some { s with queue := s.queue.deviceUses id, completed := s.completed ++ [id] }
  else none

def enter (s : Consumer) : Option Consumer :=
  if s.cursor = none then some { s with cursor := some s.queue.lastSeenUsed } else none

def turn (s : Consumer) (h : Handler) : Option Consumer :=
  match s.cursor with
  | none => none
  | some i =>
    if s.queue.hasUsed i then
      let next := (i + 1) % s.queue.length
      some { s with
        queue := if h = .rxIrq then { s.queue with lastSeenUsed := next } else s.queue
        cursor := some next
        processed := s.processed ++ [s.queue.usedRing i] }
    else some { s with queue := { s.queue with lastSeenUsed := i }, cursor := none }

inductive Step (h : Handler) : Consumer → Consumer → Prop
  | complete {s s' : Consumer} {id : Nat} : s.complete id = some s' → Step h s s'
  | enter {s s' : Consumer} : s.enter = some s' → Step h s s'
  | turn {s s' : Consumer} : s.turn h = some s' → Step h s s'

def Reachable (h : Handler) : Consumer → Prop := Relation.ReflTransGen (Step h) boot

def Leaves (h : Handler) (s s' : Consumer) : Prop := s.turn h = some s' ∧ s'.cursor = none

structure Synced (s : Consumer) : Prop where
  length : s.queue.length = queueLength
  used : s.queue.usedIndex = s.completed.length % indexBound
  order : s.processed <+: s.completed
  window : s.completed.length ≤ s.processed.length + queueLength
  entries : ∀ k, s.processed.length ≤ k → (hk : k < s.completed.length) →
    s.queue.usedRing (k % queueLength) = s.completed[k]
  seen : s.cursor = none → s.queue.lastSeenUsed = s.processed.length % queueLength
  cursor : ∀ i, s.cursor = some i → i = s.processed.length % queueLength

variable {s s' : Consumer} {h : Handler}

theorem Synced.boot : Synced boot := by
  refine ⟨rfl,rfl,List.nil_prefix,Nat.zero_le _,?_,fun _ => rfl,?_⟩
  · intro k _ hk
    exact absurd hk (Nat.not_lt_zero k)
  · rintro i ⟨⟩

theorem Synced.slot (hs : Synced s) :
    s.queue.usedIndex % s.queue.length = s.completed.length % queueLength := by
  rw [hs.used,hs.length]
  exact Nat.mod_mod_of_dvd _ (by decide)

theorem Synced.complete (hs : Synced s) {id : Nat} (hstep : s.complete id = some s') :
    Synced s' := by
  rw [Consumer.complete] at hstep
  split_ifs at hstep with hroom
  rw [hs.length] at hroom
  cases hstep
  refine ⟨hs.length,?_,?_,?_,?_,hs.seen,hs.cursor⟩
  · rw [List.length_append,Queue.deviceUses,hs.used]
    exact Nat.mod_add_mod _ _ _
  · exact hs.order.trans (List.prefix_append _ _)
  · rw [List.length_append]
    exact hroom
  · intro k hlow hk
    have hlow' : s.processed.length ≤ k := hlow
    have hk' : k < s.completed.length + 1 := by simpa using hk
    simp only [Queue.deviceUses,hs.slot]
    by_cases hlast : k = s.completed.length
    · subst hlast
      simp
    · have hne : k % queueLength ≠ s.completed.length % queueLength := by
        intro heq
        rcases (mod_eq_mod_iff (by omega) (by omega) (by decide)).mp heq with h | h
        · exact hlast h.symm
        · omega
      have hold := hs.entries k hlow (by omega)
      rw [Function.update_of_ne hne,hold,List.getElem_append_left]

theorem Synced.enter (hs : Synced s) (hstep : s.enter = some s') : Synced s' := by
  rw [Consumer.enter] at hstep
  split_ifs at hstep with hcur
  cases hstep
  refine ⟨hs.length,hs.used,hs.order,hs.window,hs.entries,?_,?_⟩
  · rintro ⟨⟩
  · rintro i ⟨⟩
    exact hs.seen hcur

theorem Synced.not_all (hs : Synced s) {i : Nat} (hi : s.cursor = some i) :
    s.queue.hasUsed i ↔
      s.processed.length < s.completed.length ∧
        s.completed.length ≠ s.processed.length + queueLength := by
  have hle := hs.order.length_le
  rw [Queue.hasUsed,hs.slot,hs.cursor i hi,Ne,
    mod_eq_mod_iff hle hs.window (by decide)]
  omega

theorem Synced.next (hs : Synced s) {i : Nat} (hi : s.cursor = some i)
    (hlt : s.processed.length < s.completed.length) :
    s.queue.usedRing i = s.completed[s.processed.length] := by
  rw [hs.cursor i hi]
  exact hs.entries _ (Nat.le_refl _) hlt

theorem prefix_next {l l' : List Nat} (h : l <+: l') (hlt : l.length < l'.length) :
    l ++ [l'[l.length]] <+: l' := by
  have heq := List.prefix_iff_eq_take.mp h
  have happ : l ++ [l'[l.length]] = l'.take (l.length + 1) := by
    rw [← List.take_append_getElem hlt,← heq]
  rw [happ]
  exact List.take_prefix _ _

theorem turn_used {i : Nat} (hi : s.cursor = some i) (hused : s.queue.hasUsed i) :
    s.turn h = some { s with
      queue := if h = .rxIrq then { s.queue with lastSeenUsed := (i + 1) % s.queue.length } else s.queue
      cursor := some ((i + 1) % s.queue.length)
      processed := s.processed ++ [s.queue.usedRing i] } := by
  simp only [Consumer.turn,hi]
  exact if_pos hused

theorem turn_empty {i : Nat} (hi : s.cursor = some i) (hempty : ¬s.queue.hasUsed i) :
    s.turn h = some { s with queue := { s.queue with lastSeenUsed := i }, cursor := none } := by
  simp only [Consumer.turn,hi]
  exact if_neg hempty

theorem Synced.turn (hs : Synced s) (hstep : s.turn h = some s') : Synced s' := by
  cases hi : s.cursor with
  | none => simp [Consumer.turn,hi] at hstep
  | some i =>
    by_cases hused : s.queue.hasUsed i
    · rw [turn_used hi hused] at hstep
      obtain ⟨hlt,-⟩ := (hs.not_all hi).mp hused
      have hnext : (i + 1) % s.queue.length = (s.processed.length + 1) % queueLength := by
        rw [hs.length,hs.cursor i hi]
        exact Nat.mod_add_mod _ _ _
      rw [hs.next hi hlt,hnext] at hstep
      have hwindow := hs.window
      have hentries : ∀ k, s.processed.length + 1 ≤ k → (hk : k < s.completed.length) →
          s.queue.usedRing (k % queueLength) = s.completed[k] :=
        fun k hlow hk => hs.entries k (by omega) hk
      cases Option.some.inj hstep
      by_cases hrx : h = .rxIrq
      · simp only [if_pos hrx]
        refine ⟨hs.length,hs.used,prefix_next hs.order hlt,?_,?_,?_,?_⟩
        · simp only [List.length_append,List.length_singleton]
          omega
        · simpa using hentries
        · rintro ⟨⟩
        · rintro j ⟨⟩
          simp
      · simp only [if_neg hrx]
        refine ⟨hs.length,hs.used,prefix_next hs.order hlt,?_,?_,?_,?_⟩
        · simp only [List.length_append,List.length_singleton]
          omega
        · simpa using hentries
        · rintro ⟨⟩
        · rintro j ⟨⟩
          simp
    · rw [turn_empty hi hused] at hstep
      cases Option.some.inj hstep
      refine ⟨hs.length,hs.used,hs.order,hs.window,hs.entries,fun _ => hs.cursor i hi,?_⟩
      rintro j ⟨⟩

theorem Synced.step (hs : Synced s) (hstep : Step h s s') : Synced s' := by
  cases hstep with
  | complete hstep => exact hs.complete hstep
  | enter hstep => exact hs.enter hstep
  | turn hstep => exact hs.turn hstep

theorem Reachable.synced (hr : Reachable h s) : Synced s := by
  induction hr with
  | refl => exact .boot
  | tail _ hstep ih => exact ih.step hstep

theorem handler_run_iff (hr : Reachable h s) : s.processed <+: s.completed ∧
    ∀ s', Leaves h s s' →
      (s'.processed = s'.completed ↔ s.completed.length ≠ s.processed.length + queueLength) := by
  have hs := hr.synced
  refine ⟨hs.order,?_⟩
  rintro s' ⟨hturn,hleft⟩
  cases hi : s.cursor with
  | none => simp [Consumer.turn,hi] at hturn
  | some i =>
    by_cases hused : s.queue.hasUsed i
    · rw [turn_used hi hused] at hturn
      cases Option.some.inj hturn
      cases hleft
    · rw [turn_empty hi hused] at hturn
      cases Option.some.inj hturn
      have hle := hs.order.length_le
      rw [hs.not_all hi] at hused
      constructor
      · intro heq hfull
        rw [heq] at hfull
        simp [queueLength] at hfull
      · intro hfull
        exact hs.order.eq_of_length (by omega)

def filled : Nat → Consumer
  | 0 => boot
  | n + 1 => { filled n with
      queue := (filled n).queue.deviceUses n, completed := (filled n).completed ++ [n] }

theorem filled_fields (n : Nat) : (filled n).queue.length = queueLength ∧
    (filled n).queue.lastSeenUsed = 0 ∧ (filled n).queue.usedIndex = n % indexBound ∧
    (filled n).cursor = none ∧ (filled n).processed = [] ∧ (filled n).completed.length = n := by
  induction n with
  | zero => exact ⟨rfl,rfl,rfl,rfl,rfl,rfl⟩
  | succ n ih =>
    obtain ⟨hlen,hseen,hused,hcur,hproc,hcomp⟩ := ih
    refine ⟨hlen,hseen,?_,hcur,hproc,?_⟩
    · simp only [filled,Queue.deviceUses,hused]
      exact Nat.mod_add_mod _ _ _
    · simp [filled,hcomp]

theorem filled_reachable {n : Nat} (hn : n ≤ queueLength) : Reachable h (filled n) := by
  induction n with
  | zero => exact .refl
  | succ n ih =>
    refine (ih (by omega)).tail (@Step.complete _ _ _ n ?_)
    obtain ⟨hlen,-,-,-,hproc,hcomp⟩ := filled_fields n
    rw [Consumer.complete,if_pos]
    · rfl
    · rw [hproc,hcomp,hlen,List.length_nil]
      omega

def entered (n : Nat) : Consumer := { filled n with cursor := some 0 }

theorem entered_reachable {n : Nat} (hn : n ≤ queueLength) : Reachable h (entered n) := by
  obtain ⟨-,hseen,-,hcur,-,-⟩ := filled_fields n
  refine (filled_reachable hn).tail (.enter ?_)
  rw [Consumer.enter,if_pos hcur,hseen]
  rfl

theorem completes (n : Nat) : ∀ s : Consumer, Reachable h s →
    s.completed.length + n ≤ s.processed.length + queueLength → ∃ s', Reachable h s' ∧
      s'.cursor = s.cursor ∧ s'.processed = s.processed ∧
      s'.completed.length = s.completed.length + n := by
  induction n with
  | zero => exact fun s hr _ => ⟨s,hr,rfl,rfl,rfl⟩
  | succ n ih =>
    intro s hr hle
    have hroom : s.completed.length < s.processed.length + s.queue.length := by
      rw [hr.synced.length]
      omega
    have hstep : s.complete 0 = some { s with
        queue := s.queue.deviceUses 0, completed := s.completed ++ [0] } := if_pos hroom
    obtain ⟨s',hr',hcur,hproc,hlen⟩ := ih _ (hr.tail (.complete hstep)) (by simp; omega)
    refine ⟨s',hr',hcur,hproc,?_⟩
    simp only [List.length_append,List.length_singleton] at hlen
    omega

theorem turns (n : Nat) : ∀ s : Consumer, Reachable h s → s.cursor.isSome →
    s.processed.length + n = s.completed.length → n < queueLength → ∃ s', Reachable h s' ∧
      s'.cursor.isSome ∧ s'.completed = s.completed ∧
      s'.processed.length = s'.completed.length := by
  induction n with
  | zero => exact fun s hr hcur hlen _ => ⟨s,hr,hcur,rfl,hlen⟩
  | succ n ih =>
    intro s hr hcur hlen hn
    obtain ⟨i,hi⟩ := Option.isSome_iff_exists.mp hcur
    have hused : s.queue.hasUsed i := (hr.synced.not_all hi).mpr (by omega)
    have hstep : s.turn h = some _ := turn_used hi hused
    obtain ⟨s',hr',hcur',hcomp,hall⟩ := ih _ (hr.tail (.turn hstep)) rfl (by simp; omega) (by omega)
    exact ⟨s',hr',hcur',hcomp,hall⟩

theorem burst (hr : Reachable h s) (hidle : s.cursor = none)
    (hall : s.processed.length = s.completed.length) {n : Nat} (hn : n < queueLength) :
    ∃ t t', Reachable h t ∧ Leaves h t t' ∧ t.processed.length = t.completed.length ∧
      t.completed.length = s.completed.length + n ∧ t'.processed = t.processed ∧
      t'.completed = t.completed := by
  obtain ⟨s1,hr1,hcur1,hproc1,hlen1⟩ := completes n s hr (by omega)
  have hstep : s1.enter = some { s1 with cursor := some s1.queue.lastSeenUsed } :=
    if_pos (hcur1.trans hidle)
  obtain ⟨t,hrt,hcurt,hcompt,hallt⟩ := turns n _ (hr1.tail (.enter hstep)) rfl
    (by simp only [hproc1]; omega) hn
  obtain ⟨i,hi⟩ := Option.isSome_iff_exists.mp hcurt
  have hempty : ¬t.queue.hasUsed i := by
    rw [hrt.synced.not_all hi]
    omega
  exact ⟨t,_,hrt,⟨turn_empty hi hempty,rfl⟩,hallt,by rw [hcompt]; exact hlen1,rfl,rfl⟩

theorem bursts {n : Nat} (hn : n < queueLength) (m : Nat) : ∃ t t', Reachable h t ∧
    Leaves h t t' ∧ t.processed.length = t.completed.length ∧
    t.completed.length = n * (m + 1) ∧ t'.processed = t.processed ∧ t'.completed = t.completed := by
  induction m with
  | zero =>
    obtain ⟨t,t',hr,hleaves,hall,hlen,hsame⟩ := burst (h := h) (s := boot) .refl rfl rfl hn
    refine ⟨t,t',hr,hleaves,hall,?_,hsame⟩
    simpa [boot] using hlen
  | succ m ih =>
    obtain ⟨s,s',hr,⟨hturn,hleft⟩,hall,hlen,hproc,hcomp⟩ := ih
    obtain ⟨t,t',hrt,hleaves,hallt,hlent,hsame⟩ := burst (hr.tail (.turn hturn)) hleft
      (by rw [hproc,hcomp,hall]) hn
    refine ⟨t,t',hrt,hleaves,hallt,?_,hsame⟩
    rw [hlent,hcomp,hlen]
    exact (Nat.mul_succ n (m + 1)).symm

theorem handler_run_wrapped : ∃ s s' : Consumer, Reachable .txIrq s ∧ Leaves .txIrq s s' ∧
    s.completed.length = indexBound + 64 ∧ s.queue.usedIndex = 64 ∧
    s'.processed = s'.completed := by
  obtain ⟨s,s',hr,hleaves,hall,hlen,_⟩ :=
    bursts (h := .txIrq) (show 100 < queueLength by decide) 655
  refine ⟨s,s',hr,hleaves,hlen,?_,((handler_run_iff hr).2 s' hleaves).mpr ?_⟩
  · rw [hr.synced.used,hlen]
    rfl
  · rw [hall]
    simp [queueLength]

theorem full_ring_missed : ∃ s s', Reachable .txIrq s ∧ Leaves .txIrq s s' ∧
    s'.processed ≠ s'.completed := by
  obtain ⟨hlen,-,hused,-,hproc,hcomp⟩ := filled_fields queueLength
  have hempty : ¬(entered queueLength).queue.hasUsed 0 := by
    rw [Queue.hasUsed,entered,hused,hlen]
    decide
  refine ⟨_,_,entered_reachable (Nat.le_refl _),⟨turn_empty rfl hempty,rfl⟩,?_⟩
  intro heq
  have hlength := congrArg List.length heq
  simp only [entered,hproc,hcomp] at hlength
  exact absurd hlength (by decide)

end Consumer

end SabaOS.Virtio
