import Mathlib.Data.Nat.Basic
import Mathlib.Tactic.Ring

namespace SabaOS.Klib

def uadd (a b : Nat) : Nat := (a + b) % 2 ^ 64

def usub (a b : Nat) : Nat := (a + (2 ^ 64 - b % 2 ^ 64)) % 2 ^ 64

def alignUp (i alignment : Nat) : Nat :=
  if i % alignment ≠ 0 then (i / alignment + 1) * alignment % 2 ^ 64 else i

def alignDown (i alignment : Nat) : Nat :=
  if i % alignment ≠ 0 then i / alignment * alignment else i

theorem uadd_of_lt {a b : Nat} (h : a + b < 2 ^ 64) : uadd a b = a + b :=
  Nat.mod_eq_of_lt h

theorem uadd_lt (a b : Nat) : uadd a b < 2 ^ 64 :=
  Nat.mod_lt _ (by decide)

theorem usub_of_le {a b : Nat} (ha : a < 2 ^ 64) (h : b ≤ a) : usub a b = a - b := by
  unfold usub
  omega

theorem usub_lt (a b : Nat) : usub a b < 2 ^ 64 :=
  Nat.mod_lt _ (by decide)

theorem alignUp_bounds {i j a : Nat} (hi : i ≤ j) (hj : j < 2 ^ 64) (ha : a ∣ j) :
    i ≤ alignUp i a ∧ alignUp i a ≤ j := by
  obtain ⟨k,rfl⟩ := ha
  unfold alignUp
  split_ifs with h
  · have hne : i ≠ a * k := fun he => h (he ▸ Nat.mul_mod_right a k)
    have hdiv : i / a < k := Nat.div_lt_of_lt_mul (by omega)
    have hle : (i / a + 1) * a ≤ k * a := Nat.mul_le_mul_right a hdiv
    have hmod := Nat.div_add_mod i a
    have hlt : i % a < a := Nat.mod_lt i (Nat.pos_of_ne_zero fun h0 => by simp_all)
    rw [Nat.mod_eq_of_lt (by rw [Nat.mul_comm k a] at hle; omega)]
    rw [Nat.add_mul,Nat.one_mul,Nat.mul_comm (i / a) a] at *
    rw [Nat.mul_comm k a] at hle
    omega
  · exact ⟨le_rfl,hi⟩

theorem alignUp_of_dvd {i a : Nat} (hi : i < 2 ^ 64) (ha : a ∣ 2 ^ 64) :
    a ∣ alignUp i a ∧ (i ≤ alignUp i a ∨ alignUp i a = 0) := by
  have hpos : 0 < a := Nat.pos_of_dvd_of_pos ha (by decide)
  unfold alignUp
  split_ifs with h
  · obtain ⟨m,hm⟩ := ha
    have hdiv : i / a < m := Nat.div_lt_of_lt_mul (hm ▸ hi)
    have hle : (i / a + 1) * a ≤ m * a := Nat.mul_le_mul_right a hdiv
    have hlt : i < (i / a + 1) * a := Nat.lt_mul_of_div_lt (Nat.lt_succ_self _) hpos
    rw [Nat.mul_comm m a,← hm] at hle
    rcases Nat.lt_or_eq_of_le hle with hlt' | heq
    · rw [Nat.mod_eq_of_lt hlt']
      exact ⟨Dvd.intro_left _ rfl,.inl hlt.le⟩
    · rw [heq,Nat.mod_self]
      exact ⟨dvd_zero a,.inr rfl⟩
  · exact ⟨Nat.dvd_of_mod_eq_zero (not_not.mp h),.inl le_rfl⟩

end SabaOS.Klib
