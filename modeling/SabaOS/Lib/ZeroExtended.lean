import Mathlib.Data.List.Basic
import Mathlib.Data.List.TakeDrop
import Mathlib.Tactic.Ring

namespace SabaOS.Lib

structure ZeroExtended (α : Type) [Zero α] where
  size : Nat
  byte : Nat → α
  zero : ∀ i, size ≤ i → byte i = 0

namespace ZeroExtended

variable {α : Type} [Zero α]

@[ext] theorem ext {f g : ZeroExtended α} (hs : f.size = g.size) (hb : ∀ i, f.byte i = g.byte i) :
    f = g := by
  obtain ⟨n,b,hz⟩ := f
  obtain ⟨n',b',hz'⟩ := g
  obtain rfl : n = n' := hs
  obtain rfl : b = b' := funext hb
  rfl

def empty : ZeroExtended α := ⟨0,fun _ => 0,fun _ _ => rfl⟩

def read (f : ZeroExtended α) (count offset : Nat) : List α :=
  (List.range (min count (f.size - offset))).map fun i => f.byte (offset + i)

def write (f : ZeroExtended α) (buf : List α) (offset : Nat) : ZeroExtended α :=
  if buf = [] then f
  else
    { size := max f.size (offset + buf.length)
      byte := fun i =>
        if offset ≤ i ∧ i < offset + buf.length then buf.getD (i - offset) 0 else f.byte i
      zero := by
        intro i hi
        rw [if_neg (by omega)]
        exact f.zero i (by omega) }

def truncate (f : ZeroExtended α) (length : Nat) : ZeroExtended α where
  size := length
  byte := fun i => if i < length then f.byte i else 0
  zero := fun i hi => if_neg (by omega)

theorem read_full (f : ZeroExtended α) {i : Nat} (hi : i < f.size) :
    f.read 1 i = [f.byte i] := by
  have hmin : min 1 (f.size - i) = 1 := by omega
  simp [read,hmin]

theorem eq_of_read {f g : ZeroExtended α} {bound : Nat} (hf : f.size < bound) (hg : g.size < bound)
    (h : ∀ count offset, offset + count < bound → f.read count offset = g.read count offset) :
    f = g := by
  have hsize : f.size = g.size := by
    have := congrArg List.length (h (bound - 1) 0 (by omega))
    simp only [read,List.length_map,List.length_range] at this
    omega
  apply ext hsize
  intro i
  by_cases hi : i < f.size
  · have := h 1 i (by omega)
    rw [read_full f hi,read_full g (hsize ▸ hi)] at this
    simpa using this
  · rw [f.zero i (by omega),g.zero i (by omega)]

theorem eq_write_iff {f f' : ZeroExtended α} {buf : List α} {offset : Nat} {g : Nat → α}
    (hb : buf ≠ []) (hs : f'.size = max f.size (offset + buf.length))
    (hg : ∀ i < f'.size, f'.byte i =
      if offset ≤ i ∧ i < offset + buf.length then buf.getD (i - offset) 0 else g i) :
    f' = f.write buf offset ↔
      ∀ i < f'.size, i < offset ∨ offset + buf.length ≤ i → g i = f.byte i := by
  simp only [write,if_neg hb]
  constructor
  · intro heq i hi hout
    have := hg i hi
    rw [heq] at this
    dsimp only at this
    rw [if_neg (by omega),if_neg (by omega)] at this
    exact this.symm
  · intro hkept
    apply ext hs
    intro i
    by_cases hi : i < f'.size
    · rw [hg i hi]
      dsimp only
      split_ifs with hin
      · rfl
      · exact hkept i hi (by omega)
    · rw [f'.zero i (by omega)]
      dsimp only
      rw [if_neg (by omega),f.zero i (by omega)]

theorem eq_truncate_iff {f f' : ZeroExtended α} {g : Nat → α}
    (hg : ∀ i < f'.size, f'.byte i = g i) :
    f' = f.truncate f'.size ↔ ∀ i < f'.size, g i = f.byte i := by
  constructor
  · intro heq i hi
    have := hg i hi
    rw [heq] at this
    dsimp only [truncate] at this
    rw [if_pos hi] at this
    exact this.symm
  · intro hkept
    refine ext rfl ?_
    intro i
    dsimp only [truncate]
    split_ifs with hi
    · rw [hg i hi,hkept i hi]
    · exact f'.zero i (by omega)

theorem write_size_lt {f : ZeroExtended α} {buf : List α} {offset bound : Nat}
    (hf : f.size < bound) (hb : offset + buf.length < bound) :
    (f.write buf offset).size < bound := by
  unfold write
  split_ifs
  · exact hf
  · exact Nat.max_lt.mpr ⟨hf,hb⟩

inductive Op (α : Type) where
  | write (buf : List α) (offset : Nat)
  | truncate (length : Nat)
  | others
deriving DecidableEq, Repr

def Op.Representable : Op α → Prop
  | .write buf offset => offset + buf.length < 2 ^ 64
  | .truncate length => length < 2 ^ 64
  | .others => True

instance (op : Op α) : Decidable op.Representable :=
  match op with
  | .write buf offset => inferInstanceAs (Decidable (offset + buf.length < 2 ^ 64))
  | .truncate length => inferInstanceAs (Decidable (length < 2 ^ 64))
  | .others => inferInstanceAs (Decidable True)

def Op.apply (f : ZeroExtended α) : Op α → ZeroExtended α
  | .write buf offset => f.write buf offset
  | .truncate length => f.truncate length
  | .others => f

theorem apply_size {f : ZeroExtended α} {op : Op α} (hf : f.size < 2 ^ 64) (hop : op.Representable) :
    (op.apply f).size < 2 ^ 64 := by
  cases op with
  | write buf offset => exact write_size_lt hf hop
  | truncate length => exact hop
  | others => exact hf

end ZeroExtended

end SabaOS.Lib
