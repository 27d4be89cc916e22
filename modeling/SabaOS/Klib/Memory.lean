import Mathlib.Logic.Function.Basic
import Mathlib.Data.List.Basic
import Mathlib.Data.List.GetD

namespace SabaOS.Klib

abbrev Bytes := Nat → UInt8

-- `rep movsb`: one byte after the other, upwards, so an overlapping copy reads what it has written.
def memcpy (m : Bytes) (dst src : Nat) : Nat → Bytes
  | 0 => m
  | n + 1 =>
    let m := memcpy m dst src n
    Function.update m (dst + n) (m (src + n))

def memset (m : Bytes) (dst : Nat) (c : UInt8) (n : Nat) : Bytes := fun a =>
  if dst ≤ a ∧ a < dst + n then c else m a

def copyIn (m : Bytes) (dst : Nat) (buf : List UInt8) : Bytes := fun a =>
  if dst ≤ a ∧ a < dst + buf.length then buf.getD (a - dst) 0 else m a

def copyOut (m : Bytes) (src n : Nat) : List UInt8 := (List.range n).map fun i => m (src + i)

variable {m : Bytes} {dst src n a i : Nat} {buf : List UInt8}

theorem memcpy_outside (h : a < dst ∨ dst + n ≤ a) : memcpy m dst src n a = m a := by
  induction n with
  | zero => rfl
  | succ n ih =>
    have ha : a ≠ dst + n := by omega
    simp only [memcpy,Function.update_of_ne ha]
    exact ih (by omega)

theorem memcpy_inside (hs : src < dst) (hi : i < n) :
    memcpy m dst src n (dst + i) = m (src + i % (dst - src)) := by
  induction n generalizing i with
  | zero => omega
  | succ n ih =>
    rcases Nat.lt_succ_iff_lt_or_eq.mp hi with h | rfl
    · rw [memcpy,Function.update_of_ne (by omega)]
      exact ih h
    · rw [memcpy,Function.update_self]
      by_cases hd : i < dst - src
      · rw [memcpy_outside (by omega),Nat.mod_eq_of_lt hd]
      · have hback : src + i = dst + (i - (dst - src)) := by omega
        rw [hback,ih (by omega),Nat.mod_eq_sub_mod (by omega : dst - src ≤ i)]

theorem memset_outside {c : UInt8} (h : a < dst ∨ dst + n ≤ a) : memset m dst c n a = m a := by
  simp only [memset]
  exact if_neg (by omega)

theorem memset_add {c : UInt8} (offset : Nat) : memset m (dst + offset) c n (dst + i) =
    if offset ≤ i ∧ i < offset + n then c else m (dst + i) := by
  simp only [memset]
  split_ifs with h h' h'
  · rfl
  · omega
  · omega
  · rfl

theorem memset_inside {c : UInt8} (hi : i < n) : memset m dst c n (dst + i) = c := by
  simp only [memset]
  exact if_pos (by omega)

theorem copyIn_add (offset : Nat) : copyIn m (dst + offset) buf (dst + i) =
    if offset ≤ i ∧ i < offset + buf.length then buf.getD (i - offset) 0 else m (dst + i) := by
  simp only [copyIn]
  split_ifs with h h' h'
  · congr 1
    omega
  · omega
  · omega
  · rfl

section Copies

variable {k : Nat}

theorem copyOut_length (m : Bytes) (a n : Nat) : (copyOut m a n).length = n := by
  simp [copyOut]

theorem copyOut_add (m : Bytes) (a n k : Nat) :
    copyOut m a (n + k) = copyOut m a n ++ copyOut m (a + n) k := by
  simp [copyOut,List.range_add,Function.comp_def,Nat.add_assoc]

theorem copyOut_take (m : Bytes) (a : Nat) (hk : k ≤ n) : (copyOut m a n).take k = copyOut m a k := by
  rw [copyOut,← List.map_take,List.take_range,Nat.min_eq_left hk]
  rfl

theorem copyOut_drop (m : Bytes) (a : Nat) (hk : k ≤ n) :
    (copyOut m a n).drop k = copyOut m (a + k) (n - k) := by
  have hadd := copyOut_add m a k (n - k)
  rw [Nat.add_sub_cancel' hk] at hadd
  rw [hadd,List.drop_left' (copyOut_length m a k)]

theorem copyOut_congr {m' : Bytes} (h : ∀ i < n, m (a + i) = m' (a + i)) :
    copyOut m a n = copyOut m' a n := by
  refine List.map_congr_left fun i hi => ?_
  exact h i (List.mem_range.mp hi)

theorem copyOut_zero (h : ∀ i < n, m (a + i) = 0) : copyOut m a n = List.replicate n 0 := by
  refine List.ext_getElem (by simp [copyOut]) fun i hi _ => ?_
  simpa [copyOut] using h i (by simpa [copyOut] using hi)

theorem copyIn_outside (h : k < a ∨ a + buf.length ≤ k) : copyIn m a buf k = m k := by
  simp only [copyIn]
  exact if_neg (by omega)

theorem copyOut_copyIn (m : Bytes) (a : Nat) (buf : List UInt8) :
    copyOut (copyIn m a buf) a buf.length = buf := by
  refine List.ext_getElem (copyOut_length _ _ _) fun i _ hi => ?_
  simp [copyOut,copyIn,hi]

theorem copyIn_append (m : Bytes) (a : Nat) (buf rest : List UInt8) :
    copyIn (copyIn m a buf) (a + buf.length) rest = copyIn m a (buf ++ rest) := by
  funext k
  simp only [copyIn,List.length_append]
  by_cases hlow : k < a + buf.length
  · rw [if_neg (by omega)]
    by_cases ha : a ≤ k
    · rw [if_pos ⟨ha,hlow⟩,if_pos (by omega),List.getD_append _ _ _ _ (by omega)]
    · rw [if_neg (by omega),if_neg (by omega)]
  · by_cases hin : k < a + (buf.length + rest.length)
    · rw [if_pos (by omega),if_pos (by omega),List.getD_append_right _ _ _ _ (by omega)]
      congr 1
      omega
    · rw [if_neg (by omega),if_neg (by omega),if_neg (by omega)]

theorem copyIn_nil (m : Bytes) (a : Nat) : copyIn m a [] = m := by
  funext k
  exact copyIn_outside (by simp; omega)

end Copies

end SabaOS.Klib
