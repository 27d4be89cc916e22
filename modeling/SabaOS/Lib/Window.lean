import Mathlib.Tactic.SplitIfs
import Mathlib.Tactic.Common

namespace SabaOS.Lib

@[ext]
structure Window where
  start : Nat
  length : Nat
deriving DecidableEq, Repr

namespace Window

variable {modulus size room count offset : Nat} {w : Window}

def Inside (w : Window) (size : Nat) : Prop :=
  ∀ i, w.start ≤ i → i < w.start + w.length → i < size

theorem inside_iff : w.Inside size ↔ w.length = 0 ∨ w.start + w.length ≤ size := by
  constructor
  · intro h
    rcases Nat.eq_zero_or_pos w.length with hzero | hpos
    · exact .inl hzero
    · have hlast := h (w.start + w.length - 1) (by omega) (by omega)
      exact .inr (by omega)
  · rintro (h | h) i hlow hi
    · omega
    · omega

instance : Decidable (w.Inside size) := decidable_of_iff _ inside_iff.symm

def clamp (modulus size count offset : Nat) : Window :=
  if size ≤ offset then ⟨offset,0⟩
  else if size < (offset + count) % modulus then ⟨offset,size - offset⟩
  else ⟨offset,count⟩

theorem clamp_start : (clamp modulus size count offset).start = offset := by
  rw [clamp]
  split_ifs
  · rfl
  · rfl
  · rfl

theorem clamp_length : (clamp modulus size count offset).length = if size ≤ offset then 0
    else if size < (offset + count) % modulus then size - offset else count := by
  rw [clamp]
  split_ifs
  · rfl
  · rfl
  · rfl

def Serves (size count offset : Nat) (w : Window) : Prop :=
  w.Inside size ∧ w.length = min count (size - offset)

theorem clamp_past (h : size ≤ offset) : (clamp modulus size count offset).length = 0 := by
  rw [clamp_length,if_pos h]

theorem clamp_fits (h : offset + count < modulus) :
    (clamp modulus size count offset).length = min count (size - offset) := by
  rw [clamp_length,Nat.mod_eq_of_lt h]
  split_ifs
  · omega
  · omega
  · omega

theorem clamp_wraps (hoffset : offset < modulus) (hcount : count < modulus) (hin : offset < size)
    (h : modulus ≤ offset + count) : (clamp modulus size count offset).length = count := by
  have hmod : (offset + count) % modulus = offset + count - modulus := by
    rw [Nat.mod_eq_sub_mod h,Nat.mod_eq_of_lt (by omega)]
  rw [clamp_length,if_neg (by omega),hmod,if_neg (by omega)]

theorem inside_clamp_iff (hsize : size < modulus) (hoffset : offset < modulus)
    (hcount : count < modulus) : (clamp modulus size count offset).Inside size ↔
      size ≤ offset ∨ offset + count < modulus := by
  rw [inside_iff,clamp_start]
  constructor
  · intro h
    by_contra hnot
    have hwrap := @clamp_wraps modulus size _ _ hoffset hcount (by omega) (by omega)
    omega
  · rintro (h | h)
    · exact .inl (clamp_past h)
    · have hfits := @clamp_fits modulus size _ _ h
      omega

theorem serves_clamp_iff (hsize : size < modulus) (hoffset : offset < modulus)
    (hcount : count < modulus) : Serves size count offset (clamp modulus size count offset) ↔
      size ≤ offset ∨ offset + count < modulus := by
  rw [Serves,inside_clamp_iff hsize hoffset hcount]
  refine and_iff_left_of_imp ?_
  rintro (h | h)
  · rw [clamp_past h,Nat.sub_eq_zero_of_le h,Nat.min_zero]
  · exact clamp_fits h

end Window

end SabaOS.Lib
