import Mathlib.Data.Finset.Card
import Mathlib.Data.List.Perm.Basic
import Mathlib.Logic.Function.Basic

namespace SabaOS.Lib

section Holding

variable {ι α : Type} [DecidableEq ι] [DecidableEq α]

def Held (slot : ι → Option α) (count : α → Nat) : Prop :=
  ∀ a, ∃ holders : Finset ι, (∀ i, i ∈ holders ↔ slot i = some a) ∧ count a = holders.card

namespace Held

variable {slot slot' : ι → Option α} {count : α → Nat} {i : ι} {a : α}

omit [DecidableEq ι] [DecidableEq α] in
theorem nil : Held (fun _ : ι => (none : Option α)) fun _ => 0 :=
  fun _ => ⟨∅,by simp,rfl⟩

omit [DecidableEq ι] [DecidableEq α] in
theorem pos_iff (h : Held slot count) : 0 < count a ↔ ∃ i, slot i = some a := by
  obtain ⟨holders,hmem,hcard⟩ := h a
  rw [hcard,Finset.card_pos]
  exact exists_congr hmem

omit [DecidableEq ι] [DecidableEq α] in
theorem congr (h : Held slot count) (hs : ∀ i, slot' i = slot i) : Held slot' count := by
  obtain rfl : slot' = slot := funext hs
  exact h

theorem assign (h : Held slot count) (hi : slot i = none) :
    Held (Function.update slot i (some a)) (Function.update count a (count a + 1)) := by
  intro b
  obtain ⟨holders,hmem,hcard⟩ := h b
  have hnot : i ∉ holders := by
    rw [hmem,hi]
    nofun
  rcases eq_or_ne b a with rfl | hne
  · refine ⟨insert i holders,?_,?_⟩
    · intro j
      rcases eq_or_ne j i with rfl | hj
      · simp
      · rw [Finset.mem_insert,Function.update_of_ne hj,hmem]
        exact or_iff_right hj
    · rw [Function.update_self,Finset.card_insert_of_notMem hnot,hcard]
  · refine ⟨holders,?_,by rw [Function.update_of_ne hne,hcard]⟩
    intro j
    rcases eq_or_ne j i with rfl | hj
    · rw [Function.update_self]
      exact iff_of_false hnot fun heq => hne (Option.some.inj heq).symm
    · rw [Function.update_of_ne hj,hmem]

theorem clear (h : Held slot count) (hi : slot i = some a) :
    Held (Function.update slot i none) (Function.update count a (count a - 1)) := by
  intro b
  obtain ⟨holders,hmem,hcard⟩ := h b
  rcases eq_or_ne b a with rfl | hne
  · refine ⟨holders.erase i,?_,?_⟩
    · intro j
      rcases eq_or_ne j i with rfl | hj
      · simp
      · rw [Finset.mem_erase,Function.update_of_ne hj,hmem]
        exact and_iff_right hj
    · rw [Function.update_self,Finset.card_erase_of_mem ((hmem i).mpr hi),hcard]
  · refine ⟨holders,?_,by rw [Function.update_of_ne hne,hcard]⟩
    intro j
    rcases eq_or_ne j i with rfl | hj
    · rw [Function.update_self,hmem,hi]
      exact iff_of_false (fun heq => hne (Option.some.inj heq).symm) nofun
    · rw [Function.update_of_ne hj,hmem]

end Held

end Holding

section Counting

variable {α : Type} [DecidableEq α]

def Counts (rc : α → Option Nat) (refs : List α) : Prop :=
  ∀ a, rc a = if refs.count a = 0 then none else some (refs.count a)

namespace Counts

variable {rc rc' : α → Option Nat} {refs refs' : List α} {a : α} {n : Nat}

theorem perm (h : Counts rc refs) (hp : refs'.Perm refs) : Counts rc refs' := by
  intro a
  rw [hp.count_eq]
  exact h a

theorem congr (h : Counts rc refs) (heq : ∀ a, rc' a = rc a) : Counts rc' refs :=
  fun a => (heq a).trans (h a)

theorem eq_some (h : Counts rc refs) (ha : rc a = some n) : n = refs.count a := by
  have hcount := h a
  rw [ha] at hcount
  split_ifs at hcount
  exact Option.some.inj hcount

theorem live_iff (h : Counts rc refs) : (rc a).isSome ↔ a ∈ refs := by
  rw [h a,← List.count_pos_iff]
  split_ifs with hzero
  · simp [hzero]
  · simp [Nat.pos_of_ne_zero hzero]

theorem of_mem (h : Counts rc refs) (ha : a ∈ refs) : rc a = some (refs.count a) := by
  rw [h a,if_neg (Nat.ne_of_gt (List.count_pos_iff.mpr ha))]

theorem nil : Counts (fun _ : α => none) [] := fun _ => rfl

theorem cons (h : Counts rc refs) :
    Counts (Function.update rc a (some (refs.count a + 1))) (a :: refs) := by
  intro b
  rcases eq_or_ne b a with rfl | hne
  · rw [Function.update_self,List.count_cons_self,if_neg (Nat.succ_ne_zero _)]
  · rw [Function.update_of_ne hne,List.count_cons_of_ne hne.symm]
    exact h b

theorem take (h : Counts rc refs) (ha : rc a = some n) :
    Counts (Function.update rc a (some (n + 1))) (a :: refs) := by
  rw [h.eq_some ha]
  exact h.cons

theorem new (h : Counts rc refs) (ha : rc a = none) :
    Counts (Function.update rc a (some 1)) (a :: refs) := by
  have hnot : refs.count a = 0 := by
    rw [List.count_eq_zero,← h.live_iff,ha]
    exact Bool.false_ne_true
  have hcons := h.cons (a := a)
  rwa [hnot] at hcons

theorem drop (h : Counts rc (a :: refs)) :
    Counts (Function.update rc a (if refs.count a = 0 then none else some (refs.count a))) refs := by
  intro b
  rcases eq_or_ne b a with rfl | hne
  · rw [Function.update_self]
  · rw [Function.update_of_ne hne,h b,List.count_cons_of_ne hne.symm]

end Counts

end Counting

end SabaOS.Lib
