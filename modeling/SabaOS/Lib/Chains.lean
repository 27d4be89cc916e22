import Mathlib.Data.List.Nodup
import Mathlib.Logic.Function.Basic

namespace SabaOS.Lib

structure Chains (κ α : Type) where
  lists : κ → List α
  link : α → Option κ
  nodup : ∀ k, (lists k).Nodup
  mem_iff : ∀ k a, a ∈ lists k ↔ link a = some k

namespace Chains

variable {κ α : Type} [DecidableEq α]

def unlink (c : Chains κ α) (a : α) : Chains κ α where
  lists k := (c.lists k).erase a
  link := Function.update c.link a none
  nodup k := (c.nodup k).erase a
  mem_iff k b := by
    rw [(c.nodup k).mem_erase_iff,c.mem_iff]
    by_cases h : b = a <;> simp [h]

theorem not_mem_unlink (c : Chains κ α) (k : κ) (a : α) : a ∉ (c.unlink a).lists k := by
  rw [(c.unlink a).mem_iff]
  simp [unlink]

variable [DecidableEq κ]

def place (c : Chains κ α) (k : κ) (a : α) (l : List α) (hl : l.Perm (a :: (c.unlink a).lists k)) :
    Chains κ α where
  lists := Function.update (c.unlink a).lists k l
  link := Function.update c.link a (some k)
  nodup j := by
    by_cases h : j = k
    · subst h
      rw [Function.update_self]
      exact hl.nodup_iff.mpr (List.nodup_cons.mpr ⟨not_mem_unlink c j a,(c.unlink a).nodup j⟩)
    · rw [Function.update_of_ne h]
      exact (c.unlink a).nodup j
  mem_iff j b := by
    by_cases h : j = k
    · subst h
      rw [Function.update_self,hl.mem_iff,List.mem_cons,(c.unlink a).mem_iff]
      by_cases hb : b = a <;> simp [unlink,hb]
    · rw [Function.update_of_ne h,(c.unlink a).mem_iff]
      by_cases hb : b = a <;> simp [unlink,hb,Ne.symm h]

def append (c : Chains κ α) (k : κ) (a : α) : Chains κ α :=
  c.place k a ((c.unlink a).lists k ++ [a]) (List.perm_append_singleton a _)

def push (c : Chains κ α) (k : κ) (a : α) : Chains κ α :=
  c.place k a (a :: (c.unlink a).lists k) (.refl _)

def only (k : κ) (l : List α) (h : l.Nodup) : Chains κ α where
  lists j := if j = k then l else []
  link a := if a ∈ l then some k else none
  nodup j := by
    by_cases hj : j = k
    · simpa [hj] using h
    · simp [hj]
  mem_iff j a := by
    by_cases hj : j = k
    · simp [hj]
    · simp [hj,Ne.symm hj]

variable (c : Chains κ α) (k : κ) (a b : α)

omit [DecidableEq κ] in
@[simp] theorem link_unlink : (c.unlink a).link b = if b = a then none else c.link b :=
  Function.update_apply ..

@[simp] theorem link_append : (c.append k a).link b = if b = a then some k else c.link b :=
  Function.update_apply ..

@[simp] theorem link_push : (c.push k a).link b = if b = a then some k else c.link b :=
  Function.update_apply ..

theorem lists_append_of_ne {j : κ} (hj : j ≠ k) (ha : c.link a ≠ some j) :
    (c.append k a).lists j = c.lists j := by
  have hn : a ∉ c.lists j := fun h => ha ((c.mem_iff _ _).mp h)
  exact (Function.update_of_ne hj ..).trans (List.erase_of_not_mem hn)

omit [DecidableEq κ] in
theorem length_unlink {j : κ} (ha : c.link a = some j) :
    ((c.unlink a).lists j).length + 1 = (c.lists j).length := by
  have hm := (c.mem_iff _ _).mpr ha
  have hpos := List.length_pos_of_mem hm
  have := List.length_erase_of_mem hm
  simp only [unlink]
  omega

end Chains

end SabaOS.Lib
