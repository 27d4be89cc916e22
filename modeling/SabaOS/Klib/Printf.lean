import Mathlib.Logic.Function.Iterate
import Mathlib.Tactic.IntervalCases

namespace SabaOS.Klib

abbrev Base := { b : Nat // 1 < b }

namespace Base

variable {b : Base} {used : Nat → UInt8}

def numDigits (b : Base) (x : Nat) : Nat := if x / b = 0 then 0 else b.numDigits (x / b) + 1
termination_by x
decreasing_by
  have := b.2
  exact Nat.div_lt_self (Nat.pos_of_ne_zero fun h0 => by simp_all) b.2

def putDigits (b : Base) (used : Nat → UInt8) (value : Nat) : List UInt8 :=
  (List.range (b.numDigits value + 1)).reverse.map fun di => used (((· / b.1)^[di] value) % b)

theorem putDigits_length (value : Nat) :
    (b.putDigits used value).length = b.numDigits value + 1 := by
  simp [putDigits]

theorem putDigits_of_lt {value : Nat} (h : value < b) : b.putDigits used value = [used value] := by
  rw [putDigits,numDigits,if_pos (Nat.div_eq_of_lt h)]
  simp [Nat.mod_eq_of_lt h]

theorem putDigits_of_le {value : Nat} (h : b ≤ value) :
    b.putDigits used value = b.putDigits used (value / b) ++ [used (value % b)] := by
  have hb := b.2
  have hdiv : value / b ≠ 0 := by
    rw [Nat.div_ne_zero_iff]
    omega
  rw [putDigits,numDigits,if_neg hdiv,List.range_succ_eq_map]
  simp only [List.reverse_cons,List.map_append,← List.map_reverse,List.map_map]
  rfl

theorem putDigits_eq (digit : Char → UInt8) (hused : ∀ d < b.1, used d = digit (Nat.digitChar d))
    (value : Nat) : b.putDigits used value = (Nat.toDigits b value).map digit := by
  have hb := b.2
  induction value using Nat.strongRecOn with
  | ind value ih =>
    rcases Nat.lt_or_ge value b with h | h
    · rw [putDigits_of_lt h,Nat.toDigits_of_lt_base h,hused value h]
      rfl
    · have hlt : value / b < value := Nat.div_lt_self (by omega) hb
      rw [putDigits_of_le h,ih (value / b) hlt,hused _ (Nat.mod_lt value (by omega)),
        Nat.toDigits_of_base_le hb h,List.map_append]
      rfl

end Base

def numDigits (x : Nat) : Nat := if x / 10 = 0 then 0 else numDigits (x / 10) + 1
termination_by x
decreasing_by omega

def usedDigit (d : Nat) : UInt8 := (48 + d).toUInt8

def putDigits (value : Nat) : List UInt8 :=
  (List.range (numDigits value + 1)).reverse.map fun di => usedDigit (((· / 10)^[di] value) % 10)

def printfD (value : Int) : List UInt8 :=
  (if value < 0 then [45] else []) ++ putDigits value.natAbs

def decimal (n : Nat) : List UInt8 := (Nat.toDigits 10 n).map fun c => c.toNat.toUInt8

def ten : Base := ⟨10,by decide⟩

theorem numDigits_ten (x : Nat) : numDigits x = ten.numDigits x := by
  induction x using Nat.strongRecOn with
  | ind x ih =>
    rw [numDigits,Base.numDigits]
    by_cases h : x / 10 = 0
    · rw [if_pos h,if_pos (show x / ten = 0 from h)]
    · rw [if_neg h,if_neg (show x / ten ≠ 0 from h),ih (x / 10) (by omega)]
      rfl

theorem usedDigit_digitChar {d : Nat} (h : d < 10) : usedDigit d = (Nat.digitChar d).toNat.toUInt8 := by
  interval_cases d <;> rfl

theorem putDigits_eq_decimal (value : Nat) : putDigits value = decimal value := by
  rw [putDigits,numDigits_ten]
  exact Base.putDigits_eq (b := ten) (fun c => c.toNat.toUInt8) (fun _ => usedDigit_digitChar) value

theorem printfD_natCast (n : Nat) : printfD n = decimal n := by
  rw [printfD,if_neg (by omega),Int.natAbs_natCast,putDigits_eq_decimal]
  rfl

end SabaOS.Klib
