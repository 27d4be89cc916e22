import Mathlib.Data.List.Nodup
import Mathlib.Data.List.Perm.Basic
import Mathlib.Logic.Function.Basic

namespace SabaOS.Lib

variable {α : Type}

def Chain (next : α → Option α) : Option α → List α → Prop
  | a,[] => a = none
  | a,x :: xs => a = some x ∧ Chain next (next x) xs

theorem Chain.congr {next next' : α → Option α} {a : Option α} {l : List α} (h : Chain next a l)
    (heq : ∀ x ∈ l, next' x = next x) : Chain next' a l := by
  induction l generalizing a with
  | nil => exact h
  | cons x l ih =>
    refine ⟨h.1,?_⟩
    rw [heq x List.mem_cons_self]
    exact ih h.2 fun y hy => heq y (List.mem_cons_of_mem _ hy)

theorem Chain.unique {next : α → Option α} {a : Option α} {l l' : List α} (h : Chain next a l)
    (h' : Chain next a l') : l = l' := by
  induction l generalizing a l' with
  | nil =>
    cases l' with
    | nil => rfl
    | cons y l' => cases h.symm.trans h'.1
  | cons x l ih =>
    cases l' with
    | nil => cases h.1.symm.trans h'
    | cons y l' =>
      cases h.1.symm.trans h'.1
      rw [ih h.2 h'.2]

structure Pool (next : α → Option α) (head : Option α) (free owned all : List α) : Prop where
  chain : Chain next head free
  perm : (free ++ owned).Perm all
  nodup : all.Nodup

namespace Pool

variable {next next' : α → Option α} {head : Option α} {free owned owned' all : List α} {x : α}

theorem nodup_append (h : Pool next head free owned all) : (free ++ owned).Nodup :=
  h.perm.nodup_iff.mpr h.nodup

theorem owned_nodup (h : Pool next head free owned all) : owned.Nodup :=
  (List.nodup_append.mp h.nodup_append).2.1

theorem not_free (h : Pool next head free owned all) (hx : x ∈ owned) : x ∉ free :=
  fun hfree => (List.nodup_append.mp h.nodup_append).2.2 x hfree x hx rfl

theorem mem_all (h : Pool next head free owned all) (hx : x ∈ owned) : x ∈ all :=
  h.perm.mem_iff.mp (List.mem_append_right _ hx)

theorem head_none (h : Pool next head free owned all) : head = none ↔ free = [] := by
  cases free with
  | nil => exact iff_of_true h.chain rfl
  | cons x free => simp [h.chain.1]

theorem of_owned (h : Pool next head free owned all) (hp : owned'.Perm owned) :
    Pool next head free owned' all :=
  ⟨h.chain,(hp.append_left free).trans h.perm,h.nodup⟩

theorem of_next (h : Pool next head free owned all) (heq : ∀ x ∈ free, next' x = next x) :
    Pool next' head free owned all :=
  ⟨h.chain.congr heq,h.perm,h.nodup⟩

theorem take (h : Pool next head free owned all) (hx : head = some x) :
    ∃ rest, free = x :: rest ∧ Pool next (next x) rest (x :: owned) all := by
  cases free with
  | nil => cases hx.symm.trans h.chain
  | cons y rest =>
    cases hx.symm.trans h.chain.1
    exact ⟨rest,rfl,h.chain.2,List.perm_middle.trans h.perm,h.nodup⟩

theorem give (h : Pool next head free owned all) (hp : owned.Perm (x :: owned'))
    (hx : next' x = head) (heq : ∀ y ∈ free, next' y = next y) :
    Pool next' (some x) (x :: free) owned' all := by
  refine ⟨⟨rfl,?_⟩,?_,h.nodup⟩
  · rw [hx]
    exact h.chain.congr heq
  · exact (List.perm_middle.symm.trans (hp.symm.append_left free)).trans h.perm

end Pool

end SabaOS.Lib
