import Mathlib.Data.List.Basic

namespace SabaOS.Lib

variable {α : Type} {sep : α} {loose : Prop} {a b n : List α}

-- The second list is the first with some separators left out: of a run all but one, and, if loose,
-- all at the end.
inductive Thin (sep : α) (loose : Prop) : List α → List α → Prop
  | nil : Thin sep loose [] []
  | chop : loose → Thin sep loose [sep] []
  | keep {c : α} {a b : List α} : Thin sep loose a b → Thin sep loose (c :: a) (c :: b)
  | skip {a b : List α} : Thin sep loose (sep :: a) b → Thin sep loose (sep :: sep :: a) b

def collapse [DecidableEq α] (sep : α) : List α → List α
  | [] => []
  | [c] => [c]
  | c :: d :: l => if c = sep ∧ d = sep then collapse sep (d :: l) else c :: collapse sep (d :: l)

namespace Thin

theorem refl (a : List α) : Thin sep loose a a := by
  induction a with
  | nil => exact .nil
  | cons c a ih => exact .keep ih

theorem append_left (t : List α) (h : Thin sep loose a b) : Thin sep loose (t ++ a) (t ++ b) := by
  induction t with
  | nil => exact h
  | cons c t ih => exact .keep ih

theorem eq_nil (h : Thin sep loose [] b) : b = [] := by
  cases h
  rfl

theorem length_le (h : Thin sep loose a b) : b.length ≤ a.length := by
  induction h with
  | nil => exact Nat.le_refl _
  | chop _ => simp
  | keep _ ih => simpa using ih
  | skip _ ih => exact Nat.le_trans ih (by simp)

theorem all_sep_iff (h : Thin sep loose a b) : (∀ c ∈ a, c = sep) ↔ ∀ c ∈ b, c = sep := by
  induction h with
  | nil => exact Iff.rfl
  | chop _ => simp
  | keep _ ih => simp [ih]
  | skip _ ih => simpa using ih

theorem sep_cons (h : Thin sep loose (sep :: a) b) : b = [] ∨ ∃ b', b = sep :: b' := by
  generalize hl : sep :: a = l at h
  induction h generalizing a with
  | nil => cases hl
  | chop _ => exact .inl rfl
  | keep _ _ =>
    cases hl
    exact .inr ⟨_,rfl⟩
  | skip _ ih => exact ih rfl

theorem of_ne_cons {c : α} (h : Thin sep loose (c :: a) b) (hc : c ≠ sep) :
    ∃ b', b = c :: b' ∧ Thin sep loose a b' := by
  cases h with
  | chop _ => exact absurd rfl hc
  | keep h => exact ⟨_,rfl,h⟩
  | skip _ => exact absurd rfl hc

theorem split (hn : sep ∉ n) (h : Thin sep loose (n ++ a) b) : ∃ b', b = n ++ b' ∧ Thin sep loose a b' := by
  induction n generalizing b with
  | nil => exact ⟨b,rfl,h⟩
  | cons c n ih =>
    have hc : c ≠ sep := by
      rintro rfl
      exact hn List.mem_cons_self
    obtain ⟨b',rfl,h'⟩ := of_ne_cons h hc
    obtain ⟨b'',rfl,h''⟩ := ih (fun hmem => hn (List.mem_cons_of_mem _ hmem)) h'
    exact ⟨b'',rfl,h''⟩

theorem eq_nil_or_loose (h : Thin sep loose a b) (hb : b = []) : a = [] ∨ loose := by
  induction h with
  | nil => exact .inl rfl
  | chop h => exact .inr h
  | keep _ _ => cases hb
  | skip _ ih =>
    rcases ih hb with h | h
    · cases h
    · exact .inr h

theorem to_nil (hl : loose) (h : ∀ c ∈ a, c = sep) : Thin sep loose (sep :: a) [] := by
  induction a with
  | nil => exact .chop hl
  | cons c a ih =>
    obtain rfl : c = sep := h c List.mem_cons_self
    exact .skip (ih fun d hd => h d (List.mem_cons_of_mem _ hd))

theorem chop_last (hloose : loose) (h : Thin sep loose a (b ++ [sep])) : Thin sep loose a b := by
  generalize hl : b ++ [sep] = l at h
  induction h generalizing b with
  | nil => simp at hl
  | chop _ => simp at hl
  | @keep c a l h ih =>
    cases b with
    | nil =>
      simp only [List.nil_append,List.cons.injEq] at hl
      obtain ⟨rfl,rfl⟩ := hl
      exact to_nil hloose ((all_sep_iff h).mpr (by simp))
    | cons d b =>
      simp only [List.cons_append,List.cons.injEq] at hl
      obtain ⟨rfl,hl⟩ := hl
      exact .keep (ih hl)
  | skip _ ih => exact .skip (ih hl)

theorem collapse [DecidableEq α] (a : List α) : Thin sep loose a (collapse sep a) := by
  induction a with
  | nil => exact .nil
  | cons c a ih =>
    cases a with
    | nil => exact .refl _
    | cons d a =>
      rw [Lib.collapse]
      split_ifs with h
      · obtain ⟨rfl,rfl⟩ := h
        exact .skip ih
      · exact .keep ih

end Thin

inductive Marked (mark : α → Prop) : List α → List α → Prop
  | nil : Marked mark [] []
  | keep {c : α} {a b : List α} : Marked mark a b → Marked mark (c :: a) (c :: b)
  | drop {run : List α} {m : α} {a b : List α} : run ≠ [] → mark m → Marked mark a b →
      Marked mark (run ++ a) (m :: b)

namespace Marked

variable {mark : α → Prop} {a' b' : List α} {m : α}

theorem refl (a : List α) : Marked mark a a := by
  induction a with
  | nil => exact .nil
  | cons c a ih => exact .keep ih

theorem append (h : Marked mark a b) (h' : Marked mark a' b') : Marked mark (a ++ a') (b ++ b') := by
  induction h with
  | nil => exact h'
  | keep _ ih => exact .keep ih
  | drop hrun hm _ ih =>
    rw [List.append_assoc]
    exact .drop hrun hm ih

theorem split (h : Marked mark a (b ++ b')) : ∃ a₁ a₂, a = a₁ ++ a₂ ∧ Marked mark a₁ b ∧
    Marked mark a₂ b' := by
  induction b generalizing a with
  | nil => exact ⟨[],a,rfl,.nil,h⟩
  | cons c b ih =>
    cases h with
    | keep h =>
      obtain ⟨a₁,a₂,rfl,h₁,h₂⟩ := ih h
      exact ⟨c :: a₁,a₂,rfl,.keep h₁,h₂⟩
    | @drop run _ _ _ hrun hm h =>
      obtain ⟨a₁,a₂,rfl,h₁,h₂⟩ := ih h
      exact ⟨run ++ a₁,a₂,(List.append_assoc ..).symm,.drop hrun hm h₁,h₂⟩

theorem ne_nil (h : Marked mark a b) (hb : b ≠ []) : a ≠ [] := by
  cases h with
  | nil => exact absurd rfl hb
  | keep _ => exact List.cons_ne_nil _ _
  | drop hrun _ _ => exact fun h => hrun (List.append_eq_nil_iff.mp h).1

theorem lose (h : Marked mark a (b ++ b')) (hb : b' ≠ []) (hm : mark m) : Marked mark a (b ++ [m]) := by
  obtain ⟨a₁,a₂,rfl,h₁,h₂⟩ := h.split
  have hlost : Marked mark (a₂ ++ []) [m] := .drop (h₂.ne_nil hb) hm .nil
  rw [List.append_nil] at hlost
  exact h₁.append hlost

theorem eq_of_unmarked (h : Marked mark a b) (hb : ∀ c ∈ b, ¬mark c) : a = b := by
  induction h with
  | nil => rfl
  | keep _ ih => rw [ih fun c hc => hb c (List.mem_cons_of_mem _ hc)]
  | drop _ hm _ _ => exact absurd hm (hb _ List.mem_cons_self)

end Marked

end SabaOS.Lib
