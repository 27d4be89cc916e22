import Mathlib.Data.List.Basic
import Mathlib.Data.List.GetD
import SabaOS.Klib.Word

namespace SabaOS.Klib

structure RingBuffer (α : Type) (size : Nat) where
  readIndex : Nat
  writeIndex : Nat
  data : Nat → α

namespace RingBuffer

variable {α : Type} {size : Nat}

def dataCount (r : RingBuffer α size) : Nat := usub r.writeIndex r.readIndex

def freeCount (r : RingBuffer α size) : Nat := usub size r.dataCount

def isEmpty (r : RingBuffer α size) : Bool := r.dataCount = 0

def isFull (r : RingBuffer α size) : Bool := r.dataCount = size

def slice (data : Nat → α) (start count : Nat) : List α := (List.range count).map fun i => data (start + i)

def store (data : Nat → α) (start : Nat) (buf : List α) : Nat → α := fun p =>
  if start ≤ p then buf.getD (p - start) (data p) else data p

def read (r : RingBuffer α size) (count : Nat) : RingBuffer α size × List α :=
  let count := min count r.dataCount
  if count = 0 then (r,[])
  else
    let firstPassOffset := r.readIndex % size
    let firstPassRemaining := size - firstPassOffset
    let firstPassCount := min count firstPassRemaining
    let first := slice r.data firstPassOffset firstPassCount
    let second := if firstPassCount < count then slice r.data 0 (count - firstPassCount) else []
    ({ r with readIndex := uadd r.readIndex count },first ++ second)

def write (r : RingBuffer α size) (buffer : List α) : RingBuffer α size × Nat :=
  let count := min buffer.length r.freeCount
  let firstPassOffset := r.writeIndex % size
  let firstPassRemaining := size - firstPassOffset
  let firstPassCount := min count firstPassRemaining
  let data := store r.data firstPassOffset (buffer.take firstPassCount)
  let data :=
    if firstPassCount < count then
      store data 0 ((buffer.drop firstPassCount).take (count - firstPassCount))
    else data
  ({ r with data := data, writeIndex := uadd r.writeIndex count },count)

def truncate (r : RingBuffer α size) (count : Nat) : RingBuffer α size :=
  { r with readIndex := uadd r.readIndex (min count r.dataCount) }

def truncated (r : RingBuffer α size) (count : Nat) : Nat := min count r.dataCount

def writeTruncate (r : RingBuffer α size) (buffer : List α) : RingBuffer α size × Nat :=
  let r := if r.freeCount < buffer.length then r.truncate buffer.length else r
  r.write buffer

def peek (r : RingBuffer α size) : List α :=
  if r.isEmpty then [] else [r.data (r.readIndex % size)]

structure Valid (r : RingBuffer α size) : Prop where
  size_pos : 0 < size
  size_lt : size < 2 ^ 64
  read_le : r.readIndex ≤ r.writeIndex
  write_lt : r.writeIndex < 2 ^ 64
  count_le : r.writeIndex ≤ r.readIndex + size

def contents (r : RingBuffer α size) : List α :=
  (List.range (r.writeIndex - r.readIndex)).map fun i => r.data ((r.readIndex + i) % size)

variable {r : RingBuffer α size}

theorem Valid.dataCount_eq (hr : r.Valid) : r.dataCount = r.writeIndex - r.readIndex :=
  usub_of_le hr.write_lt hr.read_le

theorem Valid.freeCount_eq (hr : r.Valid) :
    r.freeCount = size - (r.writeIndex - r.readIndex) := by
  have hc := hr.count_le
  rw [freeCount,hr.dataCount_eq]
  exact usub_of_le hr.size_lt (by omega)

@[simp] theorem contents_length : r.contents.length = r.writeIndex - r.readIndex := by
  simp [contents]

theorem Valid.isEmpty_iff (hr : r.Valid) : r.isEmpty = true ↔ r.contents = [] := by
  rw [← List.length_eq_zero_iff,contents_length,isEmpty,decide_eq_true_eq,hr.dataCount_eq]

theorem Valid.isFull_iff (hr : r.Valid) : r.isFull = true ↔ r.contents.length = size := by
  rw [contents_length,isFull,decide_eq_true_eq,hr.dataCount_eq]

theorem add_mod_cases {i k : Nat} (hk : k < size) :
    (i + k) % size = if i % size + k < size then i % size + k else i % size + k - size := by
  have hlt : i % size < size := Nat.mod_lt _ (by omega)
  rw [Nat.add_mod,Nat.mod_eq_of_lt hk]
  split_ifs with h
  · exact Nat.mod_eq_of_lt h
  · rw [Nat.mod_eq_sub_mod (by omega),Nat.mod_eq_of_lt (by omega)]

theorem slices_eq (data : Nat → α) (start : Nat) {count : Nat} (hc : count ≤ size) (hs : 0 < size) :
    slice data (start % size) (min count (size - start % size)) ++
        (if min count (size - start % size) < count then
          slice data 0 (count - min count (size - start % size)) else []) =
      (List.range count).map fun i => data ((start + i) % size) := by
  have hlt : start % size < size := Nat.mod_lt _ hs
  apply List.ext_getElem?
  intro i
  rw [List.getElem?_append]
  by_cases hi : i < count
  · have hmod := add_mod_cases (i := start) (by omega : i < size)
    by_cases hfirst : i < min count (size - start % size)
    · rw [if_pos (by simpa [slice] using hfirst)]
      rw [if_pos (by omega)] at hmod
      simp [slice,hi,hmod,show i < size - start % size by omega]
    · rw [if_neg (by simpa [slice] using hfirst),if_pos (by omega)]
      rw [if_neg (by omega)] at hmod
      have hidx : i - min count (size - start % size) < count - min count (size - start % size) := by
        omega
      have hpos : start % size + i - size = i - min count (size - start % size) := by omega
      simp [slice,hi,hmod,hidx,hpos]
  · have hlen : ¬i < min count (size - start % size) := by omega
    rw [if_neg (by simpa [slice] using hlen)]
    have hnone : ((List.range count).map fun i => data ((start + i) % size))[i]? = none := by
      simp
      omega
    rw [hnone]
    split_ifs
    · simp [slice]
      omega
    · rfl

theorem contents_drop {i : Nat} (hi : i ≤ r.writeIndex - r.readIndex) :
    ({ r with readIndex := r.readIndex + i } : RingBuffer α size).contents = r.contents.drop i := by
  apply List.ext_getElem?
  intro j
  simp only [contents,List.getElem?_map,List.getElem?_drop]
  by_cases hj : i + j < r.writeIndex - r.readIndex
  · rw [List.getElem?_range (by omega),List.getElem?_range hj]
    simp only [Option.map_some,Nat.add_assoc]
  · rw [List.getElem?_eq_none (by simp; omega),List.getElem?_eq_none (by simp; omega)]
    rfl

theorem contents_drop_min (count : Nat) :
    r.contents.drop (min count (r.writeIndex - r.readIndex)) = r.contents.drop count := by
  rcases Nat.le_total count (r.writeIndex - r.readIndex) with h | h
  · rw [Nat.min_eq_left h]
  · rw [Nat.min_eq_right h,List.drop_eq_nil_of_le (by simp),List.drop_eq_nil_of_le (by simpa using h)]

theorem Valid.read_spec (hr : r.Valid) (count : Nat) :
    (r.read count).2 = r.contents.take count ∧ (r.read count).1.contents = r.contents.drop count ∧
      (r.read count).1.Valid ∧ (r.read count).1.writeIndex = r.writeIndex := by
  have hle := hr.read_le
  have hlt := hr.write_lt
  have hcl := hr.count_le
  have htake : r.contents.take (min count (r.writeIndex - r.readIndex)) = r.contents.take count := by
    rw [← contents_length,List.take_eq_take_iff]
    omega
  have hdrop := contents_drop_min (r := r) count
  rw [read,hr.dataCount_eq]
  dsimp only
  by_cases h0 : min count (r.writeIndex - r.readIndex) = 0
  · rw [if_pos h0]
    rw [h0] at htake hdrop
    exact ⟨htake,hdrop,hr,rfl⟩
  · have hread : uadd r.readIndex (min count (r.writeIndex - r.readIndex)) =
      r.readIndex + min count (r.writeIndex - r.readIndex) := uadd_of_lt (by omega)
    rw [if_neg h0,hread]
    dsimp only
    rw [slices_eq r.data r.readIndex (by omega) hr.size_pos]
    refine ⟨?_,?_,⟨hr.size_pos,hr.size_lt,?_,hlt,?_⟩,rfl⟩
    · rw [← htake]
      simp [contents,← List.map_take,List.take_range]
    · rw [contents_drop (by omega),hdrop]
    · dsimp only
      omega
    · dsimp only
      omega

theorem Valid.truncate_spec (hr : r.Valid) (count : Nat) :
    (r.truncate count).contents = r.contents.drop count ∧ (r.truncate count).Valid ∧
      (r.truncate count).writeIndex = r.writeIndex := by
  have hle := hr.read_le
  have hlt := hr.write_lt
  have hcl := hr.count_le
  have hread : uadd r.readIndex (min count (r.writeIndex - r.readIndex)) =
    r.readIndex + min count (r.writeIndex - r.readIndex) := uadd_of_lt (by omega)
  rw [truncate,hr.dataCount_eq,hread]
  refine ⟨?_,⟨hr.size_pos,hr.size_lt,?_,hlt,?_⟩,rfl⟩
  · rw [contents_drop (by omega),contents_drop_min]
  · dsimp only
    omega
  · dsimp only
    omega

theorem Valid.truncated_eq (hr : r.Valid) (count : Nat) :
    r.truncated count = min count r.contents.length := by
  rw [truncated,hr.dataCount_eq,contents_length]

def stores (data : Nat → α) (size start count : Nat) (buf : List α) : Nat → α :=
  let first := min count (size - start % size)
  let data' := store data (start % size) (buf.take first)
  if first < count then store data' 0 ((buf.drop first).take (count - first)) else data'

theorem stores_at (data : Nat → α) (start : Nat) {count k : Nat} {buf : List α} (hc : count ≤ size)
    (hb : count ≤ buf.length) (hk : k < count) :
    some (stores data size start count buf ((start + k) % size)) = buf[k]? := by
  have hlt : start % size < size := Nat.mod_lt _ (by omega)
  have hmod := add_mod_cases (i := start) (by omega : k < size)
  rw [List.getElem?_eq_getElem (by omega)]
  congr 1
  simp only [stores]
  split_ifs at hmod with hfirst
  · have hin : k < (buf.take (min count (size - start % size))).length := by
      simp
      omega
    have hinner : store data (start % size) (buf.take (min count (size - start % size)))
        ((start + k) % size) = buf[k] := by
      rw [hmod,store,if_pos (by omega),Nat.add_sub_cancel_left,List.getD_eq_getElem _ _ hin]
      exact List.getElem_take
    split_ifs with hsecond
    · rw [store,if_pos (Nat.zero_le _),List.getD_eq_default _ _ (by simp; omega)]
      exact hinner
    · exact hinner
  · have hidx : start % size + k - size <
        ((buf.drop (min count (size - start % size))).take
          (count - min count (size - start % size))).length := by
      simp
      omega
    rw [if_pos (by omega),hmod,store,if_pos (Nat.zero_le _),Nat.sub_zero,
      List.getD_eq_getElem _ _ hidx,List.getElem_take,List.getElem_drop]
    congr 1
    omega

theorem stores_other {data : Nat → α} {start count p : Nat} {buf : List α} (hc : count ≤ size)
    (hp : p < size) (hne : ∀ k < count, (start + k) % size ≠ p) :
    stores data size start count buf p = data p := by
  have hlt : start % size < size := Nat.mod_lt _ (by omega)
  have hfirst : store data (start % size) (buf.take (min count (size - start % size))) p =
      data p := by
    rw [store]
    split_ifs with hle
    · apply List.getD_eq_default
      by_contra hin
      simp only [List.length_take] at hin
      have hmod := add_mod_cases (i := start) (by omega : p - start % size < size)
      rw [if_pos (by omega)] at hmod
      exact hne (p - start % size) (by omega) (by omega)
    · rfl
  simp only [stores]
  split_ifs with hsecond
  · rw [store,if_pos (Nat.zero_le _),List.getD_eq_default,hfirst]
    by_contra hin
    simp only [List.length_take,List.length_drop] at hin
    have hmod := add_mod_cases (i := start) (by omega : size - start % size + p < size)
    rw [if_neg (by omega)] at hmod
    exact hne (size - start % size + p) (by omega) (by omega)
  · exact hfirst

theorem Valid.write_spec (hr : r.Valid) (buf : List α)
    (hw : r.writeIndex + (r.write buf).2 < 2 ^ 64) :
    (r.write buf).2 = min buf.length (size - r.contents.length) ∧
      (r.write buf).1.contents = r.contents ++ buf.take (r.write buf).2 ∧
      (r.write buf).1.Valid ∧ (r.write buf).1.writeIndex = r.writeIndex + (r.write buf).2 := by
  have hle := hr.read_le
  have hcl := hr.count_le
  have hret : (r.write buf).2 = min buf.length (size - r.contents.length) := by
    rw [contents_length,← hr.freeCount_eq]
    rfl
  rw [contents_length] at hret
  have hindex : (r.write buf).1.writeIndex = r.writeIndex + (r.write buf).2 := uadd_of_lt hw
  have hdata : (r.write buf).1.data = stores r.data size r.writeIndex (r.write buf).2 buf := rfl
  have hread : (r.write buf).1.readIndex = r.readIndex := rfl
  generalize (r.write buf).1 = r' at *
  generalize (r.write buf).2 = n at *
  refine ⟨by rw [contents_length]; exact hret,?_,⟨hr.size_pos,hr.size_lt,?_,?_,?_⟩,hindex⟩
  · apply List.ext_getElem?
    intro i
    rw [List.getElem?_append,contents_length]
    simp only [contents,hindex,hread,hdata,List.getElem?_map]
    split_ifs with hi
    · rw [List.getElem?_range (by omega),List.getElem?_range hi]
      simp only [Option.map_some]
      congr 1
      apply stores_other (by omega) (Nat.mod_lt _ hr.size_pos)
      intro k hk heq
      have hlt : (r.readIndex + i) % size < size := Nat.mod_lt _ hr.size_pos
      have hmod := add_mod_cases (i := r.readIndex + i)
        (by omega : r.writeIndex - (r.readIndex + i) + k < size)
      rw [show r.readIndex + i + (r.writeIndex - (r.readIndex + i) + k) = r.writeIndex + k by omega,
        heq] at hmod
      split_ifs at hmod <;> omega
    · by_cases hn : i - (r.writeIndex - r.readIndex) < n
      · rw [List.getElem?_range (by omega),List.getElem?_take_of_lt hn,
          ← stores_at r.data r.writeIndex (by omega : n ≤ size) (by omega) hn]
        simp only [Option.map_some]
        congr 3
        omega
      · rw [List.getElem?_eq_none (by simp; omega),List.getElem?_eq_none (by simp; omega)]
        rfl
  · omega
  · omega
  · omega

end RingBuffer

end SabaOS.Klib
