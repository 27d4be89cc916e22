import Mathlib.Data.List.Forall2
import Mathlib.Data.List.Nodup
import Mathlib.Logic.Function.Basic

namespace SabaOS.Lib

variable {ι α β : Type}

structure Boxes (ι α β : Type) where
  queue : ι → List α
  heap : α → Option β

namespace Boxes

def post [DecidableEq ι] [DecidableEq α] (s : Boxes ι α β) (i : ι) (a : α) (m : β) :
    Boxes ι α β :=
  ⟨Function.update s.queue i (s.queue i ++ [a]),Function.update s.heap a (some m)⟩

def take [DecidableEq ι] [DecidableEq α] (s : Boxes ι α β) (i : ι) (a : α) : Boxes ι α β :=
  ⟨Function.update s.queue i (s.queue i).tail,Function.update s.heap a none⟩

structure Refines (s : Boxes ι α β) (ms : ι → List β) : Prop where
  holds : ∀ i, List.Forall₂ (fun m a => s.heap a = some m) (ms i) (s.queue i)
  nodup : ∀ i, (s.queue i).Nodup
  apart : ∀ i j a, a ∈ s.queue i → a ∈ s.queue j → i = j

variable {s : Boxes ι α β} {ms : ι → List β} {i : ι} {a : α} {m : β}

theorem Refines.empty (heap : α → Option β) : Refines (⟨fun _ : ι => [],heap⟩) fun _ => [] :=
  ⟨fun _ => .nil,fun _ => .nil,fun _ _ _ ha _ => by cases ha⟩

theorem holds_live {ms : List β} {as : List α} {heap : α → Option β}
    (h : List.Forall₂ (fun m a => heap a = some m) ms as) (ha : a ∈ as) : heap a ≠ none := by
  induction h with
  | nil => cases ha
  | cons hm _ ih =>
    rcases List.mem_cons.mp ha with rfl | ha
    · rw [hm]
      exact Option.some_ne_none _
    · exact ih ha

theorem holds_update [DecidableEq α] {ms : List β} {as : List α} {heap : α → Option β}
    {o : Option β} (h : List.Forall₂ (fun m a => heap a = some m) ms as) (ha : a ∉ as) :
    List.Forall₂ (fun m b => Function.update heap a o b = some m) ms as := by
  induction h with
  | nil => exact .nil
  | @cons m b ms as hm _ ih =>
    rw [List.mem_cons,not_or] at ha
    exact .cons (by rwa [Function.update_of_ne (Ne.symm ha.1)]) (ih ha.2)

section Steps

variable [DecidableEq ι] [DecidableEq α]

theorem Refines.post (h : s.Refines ms) (ha : s.heap a = none) :
    (s.post i a m).Refines (Function.update ms i (ms i ++ [m])) := by
  have hnew : ∀ j, a ∉ s.queue j := fun j hj => holds_live (h.holds j) hj ha
  have hmem : ∀ j b, b ∈ (s.post i a m).queue j → b ∈ s.queue j ∨ (j = i ∧ b = a) := by
    intro j b hb
    rcases eq_or_ne j i with rfl | hj
    · simpa [Boxes.post] using hb
    · exact .inl (by simpa [Boxes.post,Function.update_of_ne hj] using hb)
  refine ⟨fun j => ?_,fun j => ?_,fun j k b hj hk => ?_⟩
  · rcases eq_or_ne j i with rfl | hj
    · simp only [Boxes.post,Function.update_self]
      exact List.rel_append (holds_update (h.holds j) (hnew j))
        (.cons (Function.update_self a (some m) s.heap) .nil)
    · simp only [Boxes.post,Function.update_of_ne hj]
      exact holds_update (h.holds j) (hnew j)
  · rcases eq_or_ne j i with rfl | hj
    · simp only [Boxes.post,Function.update_self]
      rw [← List.concat_eq_append]
      exact (List.Nodup.concat (hnew j) (h.nodup j))
    · simp only [Boxes.post,Function.update_of_ne hj]
      exact h.nodup j
  · rcases hmem j b hj with hold | ⟨rfl,rfl⟩
    · rcases hmem k b hk with hold' | ⟨-,rfl⟩
      · exact h.apart j k b hold hold'
      · exact absurd hold (hnew j)
    · rcases hmem k b hk with hold | ⟨rfl,-⟩
      · exact absurd hold (hnew k)
      · rfl

theorem Refines.take {as : List α} (h : s.Refines ms) (hq : s.queue i = a :: as) :
    ∃ m rest, ms i = m :: rest ∧ s.heap a = some m ∧
      (s.take i a).Refines (Function.update ms i rest) := by
  have hholds := h.holds i
  rw [hq] at hholds
  obtain ⟨m,rest,hm,hrest,hms⟩ := List.forall₂_cons_right_iff.mp hholds
  have hnodup := h.nodup i
  rw [hq] at hnodup
  obtain ⟨hnot,htail⟩ := List.nodup_cons.mp hnodup
  have ha : a ∈ s.queue i := by
    rw [hq]
    exact List.mem_cons_self
  have hsub : ∀ j b, b ∈ (s.take i a).queue j → b ∈ s.queue j := by
    intro j b hb
    rcases eq_or_ne j i with rfl | hj
    · exact List.mem_of_mem_tail (by simpa [Boxes.take] using hb)
    · simpa [Boxes.take,Function.update_of_ne hj] using hb
  refine ⟨m,rest,hms,hm,fun j => ?_,fun j => ?_,fun j k b hj hk => ?_⟩
  · rcases eq_or_ne j i with rfl | hj
    · simp only [Boxes.take,Function.update_self,hq,List.tail_cons]
      exact holds_update hrest hnot
    · simp only [Boxes.take,Function.update_of_ne hj]
      exact holds_update (h.holds j) fun haj => hj (h.apart j i a haj ha)
  · rcases eq_or_ne j i with rfl | hj
    · simp only [Boxes.take,Function.update_self,hq,List.tail_cons]
      exact htail
    · simp only [Boxes.take,Function.update_of_ne hj]
      exact h.nodup j
  · exact h.apart j k b (hsub j b hj) (hsub k b hk)

end Steps

end Boxes

end SabaOS.Lib
