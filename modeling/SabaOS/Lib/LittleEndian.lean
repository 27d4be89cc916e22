import Mathlib.Data.List.Basic
import Mathlib.Data.List.Infix
import Mathlib.Data.Nat.Bitwise
import Mathlib.Data.UInt
import Mathlib.Tactic.Ring

namespace SabaOS.Lib

section Words

def leBytes : Nat → Nat → List UInt8
  | 0, _ => []
  | n + 1, v => UInt8.ofNat v :: leBytes n (v / 256)

def ofLe : List UInt8 → Nat
  | [] => 0
  | b :: bs => b.toNat + 256 * ofLe bs

def words (ws : List Nat) : List UInt8 := (ws.map (leBytes 8)).flatten

@[simp]
theorem leBytes_length (n v : Nat) : (leBytes n v).length = n := by
  induction n generalizing v with
  | zero => rfl
  | succ n ih => rw [leBytes,List.length_cons,ih]

theorem ofLe_leBytes {n v : Nat} (h : v < 256 ^ n) : ofLe (leBytes n v) = v := by
  induction n generalizing v with
  | zero => exact (Nat.lt_one_iff.mp h).symm
  | succ n ih =>
    have hdiv : v / 256 < 256 ^ n := by
      rw [Nat.pow_succ] at h
      exact Nat.div_lt_of_lt_mul (by omega)
    rw [leBytes,ofLe,ih hdiv,UInt8.toNat_ofNat']
    exact Nat.mod_add_div v 256

theorem words_nil : words [] = [] := rfl

theorem words_cons (w : Nat) (ws : List Nat) : words (w :: ws) = leBytes 8 w ++ words ws := rfl

theorem words_append (vs ws : List Nat) : words (vs ++ ws) = words vs ++ words ws := by
  simp [words]

@[simp]
theorem words_length (ws : List Nat) : (words ws).length = 8 * ws.length := by
  induction ws with
  | nil => rfl
  | cons w ws ih =>
    rw [words_cons,List.length_append,leBytes_length,ih,List.length_cons]
    omega

end Words

section Fields

def bits (data : List UInt8) (offset size : Nat) : Nat := ofLe data / 2 ^ offset % 2 ^ size

def signed (size n : Nat) : Int := (n : Int).bmod (2 ^ size)

variable {data : List UInt8} {offset size k : Nat}

theorem ofLe_drop (data : List UInt8) (k : Nat) : ofLe data / 256 ^ k = ofLe (data.drop k) := by
  induction k generalizing data with
  | zero => simp
  | succ k ih =>
    cases data with
    | nil => simp [ofLe]
    | cons b data =>
      have hrest : ofLe (b :: data) / 256 = ofLe data := by
        have hb := b.toNat_lt
        rw [ofLe]
        omega
      rw [List.drop_succ_cons,← ih data,← hrest,Nat.div_div_eq_div_mul,Nat.pow_succ']

theorem ofLe_mod (data : List UInt8) : ofLe data % 256 = (data.getD 0 0).toNat := by
  cases data with
  | nil => rfl
  | cons b data =>
    have hb := b.toNat_lt
    rw [ofLe,List.getD_cons_zero]
    omega

theorem bits_shift (data : List UInt8) (offset size : Nat) :
    bits data offset size = bits (data.drop (offset / 8)) (offset % 8) size := by
  have hpow : 2 ^ offset = 256 ^ (offset / 8) * 2 ^ (offset % 8) := by
    rw [show 256 = 2 ^ 8 from rfl,← Nat.pow_mul,← Nat.pow_add,Nat.div_add_mod]
  rw [bits,bits,hpow,← Nat.div_div_eq_div_mul,ofLe_drop]

theorem bits_byte (h : offset % 8 = 0) : bits data offset 8 = (data.getD (offset / 8) 0).toNat := by
  rw [bits_shift,h,bits,Nat.pow_zero,Nat.div_one,show 2 ^ 8 = 256 from rfl,ofLe_mod]
  simp

theorem bits_word (h : offset % 8 = 0) : bits data offset 16 =
    (data.getD (offset / 8) 0).toNat + 256 * (data.getD (offset / 8 + 1) 0).toNat := by
  have hlow := ofLe_mod (data.drop (offset / 8))
  have hhigh := ofLe_mod (data.drop (offset / 8 + 1))
  have hnext : ofLe (data.drop (offset / 8)) / 256 = ofLe (data.drop (offset / 8 + 1)) := by
    rw [← List.drop_drop,← ofLe_drop _ 1,Nat.pow_one]
  rw [bits_shift,h,bits,Nat.pow_zero,Nat.div_one]
  simp only [List.getD_eq_getElem?_getD,List.getElem?_drop,Nat.add_zero] at hlow hhigh ⊢
  omega

theorem bits_lt : bits data offset size < 2 ^ size := Nat.mod_lt _ (Nat.two_pow_pos size)

theorem signed_eq_zero {n : Nat} (h : n < 2 ^ size) : signed size n = 0 ↔ n = 0 := by
  have hmod : (n : Int) % ((2 ^ size : Nat) : Int) = n := by
    rw [← Int.natCast_emod,Nat.mod_eq_of_lt h]
  rw [signed,Int.bmod_def,hmod]
  split_ifs <;> omega

theorem bits_one : bits data offset 1 = ((data.getD (offset / 8) 0).toNat.testBit (offset % 8)).toNat := by
  have hbyte : ofLe (data.drop (offset / 8)) % 2 ^ 8 = (data.getD (offset / 8) 0).toNat := by
    rw [show 2 ^ 8 = 256 from rfl,ofLe_mod]
    simp
  have hlow : offset % 8 < 8 := Nat.mod_lt _ (by decide)
  rw [bits_shift,bits,Nat.pow_one,← Nat.toNat_testBit,← hbyte,Nat.testBit_mod_two_pow,decide_eq_true hlow,
    Bool.true_and]

end Fields

section Masks

def Has (x : UInt32) (b : Nat) : Prop := x.toBitVec.getLsbD b = true

instance (x : UInt32) (b : Nat) : Decidable (Has x b) := inferInstanceAs (Decidable (_ = _))

variable {x y : UInt32} {b : Nat}

@[simp] theorem has_and : Has (x &&& y) b ↔ Has x b ∧ Has y b := by
  simp only [Has,UInt32.toBitVec_and,BitVec.getLsbD_and,Bool.and_eq_true]

@[simp] theorem has_or : Has (x ||| y) b ↔ Has x b ∨ Has y b := by
  simp only [Has,UInt32.toBitVec_or,BitVec.getLsbD_or,Bool.or_eq_true]

theorem Has.lt (h : Has x b) : b < 32 := by
  by_contra hge
  rw [Has,BitVec.getLsbD_of_ge _ _ (Nat.le_of_not_lt hge)] at h
  cases h

@[simp] theorem has_and_not : Has (x &&& ~~~y) b ↔ Has x b ∧ ¬Has y b := by
  rw [has_and]
  refine and_congr_right fun hx => ?_
  simp only [Has,UInt32.toBitVec_not,BitVec.getLsbD_not,decide_eq_true hx.lt,Bool.true_and,
    Bool.not_eq_true',Bool.not_eq_true]

@[simp] theorem not_has_zero : ¬Has 0 b := by
  simp [Has]

theorem ne_zero_of_has (h : Has x b) : x ≠ 0 := by
  rintro rfl
  exact not_has_zero h

end Masks

end SabaOS.Lib
