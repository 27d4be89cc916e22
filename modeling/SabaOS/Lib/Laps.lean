import Mathlib.Data.List.Basic
import Mathlib.Data.Nat.ModEq
import Mathlib.Logic.Function.Basic

namespace SabaOS.Lib

variable {α : Type} {n k index : Nat} {cycle : Bool} {slot : Nat → α × Bool} {vals : List α} {a : α}

def lapPhase (n k : Nat) : Bool := k / n % 2 = 0

theorem lapPhase_of_div {j : Nat} (h : j / n = k / n + 1) : lapPhase n j = !lapPhase n k := by
  unfold lapPhase
  rw [h]
  rcases Nat.mod_two_eq_zero_or_one (k / n) with hk | hk
  · have hnext : (k / n + 1) % 2 = 1 := by omega
    simp [hk,hnext]
  · have hnext : (k / n + 1) % 2 = 0 := by omega
    simp [hk,hnext]

theorem lapPhase_add (hn : 0 < n) : lapPhase n (k + n) = !lapPhase n k := by
  have hdiv : (k + n) / n = k / n + 1 := Nat.add_div_right k hn
  exact lapPhase_of_div hdiv

theorem lapPhase_of_lt (h : k < n) : lapPhase n k = true := by
  simp [lapPhase,Nat.div_eq_of_lt h]

structure Lap (n k index : Nat) (cycle : Bool) : Prop where
  index : index = k % n
  cycle : cycle = lapPhase n k

theorem Lap.start : Lap n 0 0 true := ⟨(Nat.zero_mod n).symm,by simp [lapPhase]⟩

theorem succ_inside (hn : 0 < n) (h : k % n + 1 ≠ n) : (k + 1) / n = k / n ∧ (k + 1) % n = k % n + 1 := by
  have hlt : k % n < n := Nat.mod_lt k hn
  have hk : k + 1 = (k % n + 1) + n * (k / n) := by
    have hdecomp := Nat.mod_add_div k n
    omega
  constructor
  · rw [hk,Nat.add_mul_div_left _ _ hn,Nat.div_eq_of_lt (by omega),Nat.zero_add]
  · rw [hk,Nat.add_mul_mod_self_left,Nat.mod_eq_of_lt (by omega)]

theorem succ_end (hn : 0 < n) (h : k % n + 1 = n) : (k + 1) / n = k / n + 1 ∧ (k + 1) % n = 0 := by
  have hk : k + 1 = n * (k / n + 1) := by
    have hdecomp := Nat.mod_add_div k n
    rw [Nat.mul_add]
    omega
  constructor
  · rw [hk,Nat.mul_div_cancel_left _ hn]
  · rw [hk,Nat.mul_mod_right]

theorem Lap.step (hn : 0 < n) (h : Lap n k index cycle) :
    if index + 1 = n then Lap n (k + 1) 0 (!cycle) else Lap n (k + 1) (index + 1) cycle := by
  have hindex := h.index
  have hcycle := h.cycle
  split_ifs with hend
  · obtain ⟨hdiv,hmod⟩ := succ_end hn (hindex ▸ hend)
    refine ⟨hmod.symm,?_⟩
    rw [hcycle,lapPhase_of_div hdiv]
  · obtain ⟨hdiv,hmod⟩ := succ_inside hn (hindex ▸ hend)
    refine ⟨by rw [hmod,hindex],?_⟩
    rw [hcycle,lapPhase,lapPhase,hdiv]

structure Stamped (n : Nat) (slot : Nat → α × Bool) (vals : List α) : Prop where
  written : ∀ k (h : k < vals.length), vals.length ≤ k + n → slot (k % n) = (vals[k],lapPhase n k)
  blank : ∀ k, k < n → vals.length ≤ k → (slot k).2 = false

namespace Stamped

theorem start (h : ∀ k, k < n → (slot k).2 = false) : Stamped n slot [] :=
  ⟨fun k hk => absurd hk (Nat.not_lt_zero k),fun k hk _ => h k hk⟩

theorem congr {slot' : Nat → α × Bool} (hn : 0 < n) (h : Stamped n slot vals) (hsame : ∀ k, k < n → slot' k = slot k) :
    Stamped n slot' vals := by
  refine ⟨?_,?_⟩
  · intro k hk hwindow
    rw [hsame _ (Nat.mod_lt k hn)]
    exact h.written k hk hwindow
  · intro k hk hblank
    rw [hsame k hk]
    exact h.blank k hk hblank

theorem mod_ne {j : Nat} (hkj : k < j) (hjn : j < k + n) : k % n ≠ j % n := by
  intro h
  have hdvd : n ∣ j - k := (Nat.modEq_iff_dvd' (le_of_lt hkj)).mp h
  have hle : n ≤ j - k := Nat.le_of_dvd (by omega) hdvd
  omega

theorem write (h : Stamped n slot vals) :
    Stamped n (Function.update slot (vals.length % n) (a,lapPhase n vals.length)) (vals ++ [a]) := by
  refine ⟨?_,?_⟩
  · intro k hk hwindow
    rw [List.length_append,List.length_singleton] at hk hwindow
    rcases Nat.lt_or_eq_of_le (Nat.le_of_lt_succ hk) with hold | rfl
    · rw [Function.update_of_ne (mod_ne hold (by omega)),h.written k hold (by omega),List.getElem_append_left hold]
    · rw [Function.update_self,List.getElem_append_right (le_refl _)]
      simp
  · intro k hk hblank
    rw [List.length_append,List.length_singleton] at hblank
    have hne : k ≠ vals.length % n := by
      rw [Nat.mod_eq_of_lt (by omega)]
      omega
    rw [Function.update_of_ne hne]
    exact h.blank k hk (by omega)

theorem exhausted (hn : 0 < n) (h : Stamped n slot vals) :
    (slot (vals.length % n)).2 ≠ lapPhase n vals.length := by
  rcases Nat.lt_or_ge vals.length n with hfirst | hlater
  · rw [Nat.mod_eq_of_lt hfirst,h.blank _ hfirst (le_refl _),lapPhase_of_lt hfirst]
    decide
  · obtain ⟨k,hk⟩ : ∃ k, vals.length = k + n := ⟨vals.length - n,by omega⟩
    have hslot := h.written k (by omega) (by omega)
    rw [hk,Nat.add_mod_right,hslot,lapPhase_add hn]
    cases lapPhase n k <;> simp

end Stamped

end SabaOS.Lib
