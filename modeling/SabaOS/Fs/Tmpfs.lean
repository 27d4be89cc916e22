import Mathlib.Data.UInt
import SabaOS.Mem.BumpHeap
import SabaOS.Fs.Entry
import SabaOS.Lib.ZeroExtended

namespace SabaOS.Fs.Tmpfs

open SabaOS.Klib SabaOS.Mem SabaOS.Lib

structure NodeData where
  storage : Nat
  size : Nat
  capacity : Nat
deriving DecidableEq, Repr

structure Node where
  nodeType : NodeType
  data : NodeData
  heap : Bump

def growCapacity (size : Nat) : Nat → Nat → Option Nat
  | 0,capacity => if capacity < size then none else some capacity
  | fuel + 1,capacity =>
    if capacity < size then growCapacity size fuel (max 1 (capacity * 4 % 2 ^ 64))
    else some capacity

namespace Node

def setBytes (n : Node) (bytes : Bytes) : Node := { n with heap := { n.heap with bytes := bytes } }

def setSize (n : Node) (size : Nat) : Node := { n with data := { n.data with size := size } }

-- From 0 or a power of 4 the loop is back where it was after 33 turns.
def growTo (n : Node) (length : Nat) : Option Node :=
  if n.data.capacity < length then do
    let capacity ← growCapacity length 33 n.data.capacity
    let (heap,storage) ← n.heap.reallocate n.data.storage capacity
    return { n with heap := heap, data := ⟨storage,length,capacity⟩ }
  else some (n.setSize length)

def read (n : Node) (count offset : Nat) : Except Errno (List UInt8) :=
  if n.nodeType = .directory then .error .eisdir
  else if n.data.size ≤ offset then .ok []
  else
    let actualCount := if n.data.size < uadd offset count then n.data.size - offset else count
    .ok (copyOut n.heap.bytes (n.data.storage + offset) actualCount)

def growPast (n : Node) (length : Nat) : Option Node :=
  if n.data.size < length then n.growTo length else some n

def write (n : Node) (buf : List UInt8) (offset : Nat) : Option (Node × Except Errno Nat) :=
  if n.nodeType = .directory then some (n,.error .eisdir)
  else if buf.length = 0 then some (n,.ok 0)
  else do
    let n ← n.growPast (uadd offset buf.length)
    return (n.setBytes (copyIn n.heap.bytes (n.data.storage + offset) buf),.ok buf.length)

def extend (n : Node) (length : Nat) : Option Node :=
  if n.data.size < length then do
    let n ← n.growTo length
    return n.setBytes (memset n.heap.bytes (n.data.storage + n.data.size) 0
      (usub length n.data.size))
  else some n

def truncate (n : Node) (length : Nat) : Option (Node × Except Errno Nat) :=
  if n.nodeType = .directory then some (n,.error .eisdir)
  else do
    let n ← n.extend length
    return (n.setSize length,.ok 0)

end Node

abbrev Op : Type := ZeroExtended.Op UInt8

-- Any other use of the heap allocates, and writes what is not this node's storage.
inductive Step : Node → Op → Node → Prop
  | write {n n' : Node} {buf : List UInt8} {offset : Nat} {ret : Except Errno Nat} :
      n.write buf offset = some (n',ret) → Step n (.write buf offset) n'
  | truncate {n n' : Node} {length : Nat} {ret : Except Errno Nat} :
      n.truncate length = some (n',ret) → Step n (.truncate length) n'
  | others {n : Node} {heap : Bump} :
      heap.allocBase = n.heap.allocBase → n.heap.allocPtr ≤ heap.allocPtr →
      (∀ i < n.data.capacity,
        heap.bytes (n.data.storage + i) = n.heap.bytes (n.data.storage + i)) →
      Step n .others { n with heap := heap }

def fresh (heap : Bump) : Node := ⟨.regular,⟨0,0,0⟩,heap⟩

def Quadruple (capacity : Nat) : Prop := capacity = 0 ∨ ∃ k ≤ 31, capacity = 4 ^ k

structure Owned (n : Node) : Prop where
  regular : n.nodeType ≠ .directory
  size_le : n.data.size ≤ n.data.capacity
  shape : Quadruple n.data.capacity
  null : n.data.storage = 0 ↔ n.data.capacity = 0
  lower : n.data.storage ≠ 0 → n.heap.allocBase ≤ n.data.storage
  upper : n.data.storage ≠ 0 →
    n.data.storage + n.data.capacity ≤ n.heap.allocBase + n.heap.allocPtr

-- The byte that index `i` has once the file is grown to `length`: that of the storage, of the
-- bytes `reallocate` finds behind the old storage, or of the memory `allocate` returns.
def Node.exposed (n : Node) (length i : Nat) : UInt8 :=
  if n.data.capacity < length then
    if n.data.storage = 0 then n.heap.bytes (n.heap.next Bump.defaultAlignment + i)
    else n.heap.bytes (n.data.storage + i % (n.heap.next Bump.defaultAlignment - n.data.storage))
  else n.heap.bytes (n.data.storage + i)

def Node.HoleZero (n : Node) : Op → Prop
  | .write buf offset => buf ≠ [] → ∀ i, n.data.size ≤ i → i < offset →
      n.exposed (offset + buf.length) i = 0
  | .truncate length => ∀ i, n.data.size ≤ i → i < length → n.exposed length i = 0
  | .others => True

def Node.contents (n : Node) : ZeroExtended UInt8 where
  size := n.data.size
  byte := fun i => if i < n.data.size then n.heap.bytes (n.data.storage + i) else 0
  zero := fun i hi => if_neg (by omega)

def ReadsAs (n : Node) (f : ZeroExtended UInt8) : Prop :=
  ∀ count offset, offset + count < 2 ^ 64 → n.read count offset = .ok (f.read count offset)

theorem Quadruple.le {c : Nat} (h : Quadruple c) : c ≤ 2 ^ 62 := by
  obtain rfl | ⟨k,hk,rfl⟩ := h
  · exact Nat.zero_le _
  · exact (Nat.pow_le_pow_right (by omega) hk).trans (by decide)

theorem Quadruple.next {c : Nat} (h : Quadruple c) : Quadruple (max 1 (c * 4 % 2 ^ 64)) := by
  obtain rfl | ⟨k,hk,rfl⟩ := h
  · exact .inr ⟨0,by omega,by decide⟩
  · rw [← Nat.pow_succ]
    rcases Nat.lt_or_eq_of_le hk with h | rfl
    · have hlt : 4 ^ (k + 1) < 2 ^ 64 :=
        (Nat.pow_le_pow_right (by omega) (by omega : k + 1 ≤ 31)).trans_lt (by decide)
      have hpos : 1 ≤ 4 ^ (k + 1) := Nat.one_le_pow _ _ (by omega)
      exact .inr ⟨k + 1,by omega,by rw [Nat.mod_eq_of_lt hlt,Nat.max_eq_right hpos]⟩
    · exact .inr ⟨0,by omega,by decide⟩

theorem growCapacity_spec {size fuel c c' : Nat} (h : growCapacity size fuel c = some c')
    (hc : Quadruple c) : size ≤ c' ∧ Quadruple c' := by
  induction fuel generalizing c with
  | zero =>
    simp only [growCapacity] at h
    split_ifs at h with hlt
    cases h
    exact ⟨Nat.le_of_not_lt hlt,hc⟩
  | succ fuel ih =>
    simp only [growCapacity] at h
    split_ifs at h with hlt
    · exact ih h hc.next
    · cases h
      exact ⟨Nat.le_of_not_lt hlt,hc⟩

theorem growCapacity_power {size fuel k : Nat} (hs : size ≤ 2 ^ 62) (hk : k ≤ 31)
    (hf : 31 ≤ fuel + k) : (growCapacity size fuel (4 ^ k)).isSome := by
  induction fuel generalizing k with
  | zero =>
    obtain rfl : k = 31 := by omega
    simp only [growCapacity]
    rw [if_neg (by omega)]
    rfl
  | succ fuel ih =>
    simp only [growCapacity]
    split_ifs with hlt
    · have hk' : k ≠ 31 := by
        rintro rfl
        omega
      have hpow : 4 ^ k * 4 % 2 ^ 64 = 4 ^ (k + 1) := by
        rw [← Nat.pow_succ]
        exact Nat.mod_eq_of_lt
          ((Nat.pow_le_pow_right (by omega) (by omega : k + 1 ≤ 31)).trans_lt (by decide))
      rw [hpow,Nat.max_eq_right (Nat.one_le_pow _ _ (by omega))]
      exact ih (by omega) (by omega)
    · rfl

theorem growCapacity_isSome {size c : Nat} (hc : Quadruple c) :
    (growCapacity size 33 c).isSome ↔ size ≤ 2 ^ 62 := by
  constructor
  · intro h
    obtain ⟨c',h'⟩ := Option.isSome_iff_exists.mp h
    obtain ⟨hle,hq⟩ := growCapacity_spec h' hc
    exact hle.trans hq.le
  · intro hs
    obtain rfl | ⟨k,hk,rfl⟩ := hc
    · rw [growCapacity]
      split_ifs
      · exact growCapacity_power (k := 0) hs (by omega) (by omega)
      · rfl
    · exact growCapacity_power hs hk (by omega)

theorem Node.exposed_kept {n : Node} (hn : Owned n) {length i : Nat} (hi : i < n.data.size) :
    n.exposed length i = n.heap.bytes (n.data.storage + i) := by
  have hsize := hn.size_le
  unfold exposed
  split_ifs with h h0
  · have := hn.null.mp h0
    omega
  · have hup := hn.upper h0
    have hnext := n.heap.next_bounds.1
    rw [Nat.mod_eq_of_lt (by omega)]
  · rfl

theorem Node.growTo_spec {n n' : Node} (hn : Owned n) {length : Nat} (hl : 0 < length)
    (h : n.growTo length = some n') :
    Owned n' ∧ n'.data.size = length ∧
      ∀ i < length, n'.heap.bytes (n'.data.storage + i) = n.exposed length i := by
  have hbase := n.heap.fits.1
  have hnext := n.heap.next_bounds
  simp only [growTo] at h
  split_ifs at h with hcap
  · simp only [Option.bind_eq_bind,Option.bind_eq_some_iff,Option.pure_def] at h
    obtain ⟨c,hc,⟨heap,p⟩,hr,h⟩ := h
    cases h
    obtain ⟨hle,hq⟩ := growCapacity_spec hc hn.shape
    have hc0 : c ≠ 0 := by omega
    simp only [Bump.reallocate] at hr
    split_ifs at hr with h0
    · obtain ⟨rfl,hbytes,hb,hp⟩ := Bump.allocate_cases hr hc0 hq.le
      refine ⟨⟨hn.regular,hle,hq,?_,?_,?_⟩,rfl,?_⟩
      · dsimp only
        omega
      · intro _
        dsimp only
        omega
      · intro _
        dsimp only
        omega
      · intro i _
        dsimp only
        rw [hbytes,exposed,if_pos hcap,if_pos h0]
    · simp only [Option.bind_eq_bind,Option.bind_eq_some_iff,Option.pure_def] at hr
      obtain ⟨⟨heap',p'⟩,hr,h⟩ := hr
      cases h
      obtain ⟨rfl,hbytes,hb,hp⟩ := Bump.allocate_cases hr hc0 hq.le
      have hup := hn.upper h0
      have hlow := hn.lower h0
      refine ⟨⟨hn.regular,hle,hq,?_,?_,?_⟩,rfl,?_⟩
      · dsimp only
        omega
      · intro _
        dsimp only
        omega
      · intro _
        dsimp only
        omega
      · intro i hi
        have hpos : n.data.capacity ≠ 0 := mt hn.null.mpr h0
        dsimp only
        rw [exposed,if_pos hcap,if_neg h0,memcpy_inside (by omega) (by omega),hbytes]
  · cases h
    refine ⟨{ hn with size_le := Nat.le_of_not_lt hcap },rfl,?_⟩
    intro i _
    rw [exposed,if_neg hcap]
    rfl

theorem Node.exposed_fits {n : Node} (hn : Owned n) {length : Nat} (h : length ≤ n.data.size)
    (i : Nat) : n.exposed length i = n.heap.bytes (n.data.storage + i) := by
  have := hn.size_le
  rw [exposed,if_neg (by omega)]

theorem Node.write_spec {n n' : Node} (hn : Owned n) {buf : List UInt8} {offset : Nat}
    {ret : Except Errno Nat} (hb : buf ≠ []) (hr : offset + buf.length < 2 ^ 64)
    (h : n.write buf offset = some (n',ret)) :
    Owned n' ∧ n'.data.size = max n.data.size (offset + buf.length) ∧
      ∀ i < n'.data.size, n'.heap.bytes (n'.data.storage + i) =
        if offset ≤ i ∧ i < offset + buf.length then buf.getD (i - offset) 0
        else n.exposed (offset + buf.length) i := by
  have hpos : buf.length ≠ 0 := by simpa using hb
  have hgrown : ∃ n₁, Owned n₁ ∧ n₁.data.size = max n.data.size (offset + buf.length) ∧
      (∀ i < n₁.data.size, n₁.heap.bytes (n₁.data.storage + i) =
        n.exposed (offset + buf.length) i) ∧
      n' = n₁.setBytes (copyIn n₁.heap.bytes (n₁.data.storage + offset) buf) := by
    simp only [write,if_neg hn.regular,if_neg hpos,uadd_of_lt hr,Option.bind_eq_bind,
      Option.bind_eq_some_iff,Option.pure_def] at h
    obtain ⟨n₁,h₁,h⟩ := h
    cases h
    refine ⟨n₁,?_⟩
    simp only [growPast] at h₁
    split_ifs at h₁ with hlt
    · obtain ⟨ho,hs,hbytes⟩ := growTo_spec hn (by omega) h₁
      exact ⟨ho,by omega,by simpa [hs] using hbytes,rfl⟩
    · cases h₁
      exact ⟨hn,by omega,fun i _ => (exposed_fits hn (by omega) i).symm,rfl⟩
  obtain ⟨n₁,ho,hs,hbytes,rfl⟩ := hgrown
  refine ⟨{ ho with },hs,?_⟩
  intro i hi
  refine (copyIn_add offset).trans ?_
  rw [hbytes i hi]

theorem Node.truncate_spec {n n' : Node} (hn : Owned n) {length : Nat} {ret : Except Errno Nat}
    (h : n.truncate length = some (n',ret)) :
    Owned n' ∧ n'.data.size = length ∧
      ∀ i < length, n'.heap.bytes (n'.data.storage + i) = n.exposed length i := by
  have hsize := hn.size_le
  simp only [truncate,if_neg hn.regular,Option.bind_eq_bind,Option.bind_eq_some_iff,
    Option.pure_def] at h
  obtain ⟨n₁,h₁,h⟩ := h
  cases h
  simp only [extend] at h₁
  split_ifs at h₁ with hlt
  · simp only [Option.bind_eq_bind,Option.bind_eq_some_iff,Option.pure_def] at h₁
    obtain ⟨n₂,h₂,h₁⟩ := h₁
    cases h₁
    obtain ⟨ho,hs,hbytes⟩ := growTo_spec hn (by omega) h₂
    refine ⟨{ ho with size_le := by simpa [setSize,setBytes,hs] using ho.size_le },rfl,?_⟩
    intro i hi
    show memset _ _ _ _ (n₂.data.storage + i) = _
    rw [memset_outside (by omega)]
    exact hbytes i hi
  · cases h₁
    refine ⟨{ hn with size_le := by simp only [setSize]; omega },rfl,?_⟩
    intro i _
    exact (exposed_fits hn (by omega) i).symm

theorem readsAs_contents {n : Node} (hn : Owned n) : ReadsAs n n.contents := by
  intro count offset hr
  simp only [Node.read,if_neg hn.regular,uadd_of_lt hr,ZeroExtended.read,copyOut]
  by_cases hoff : n.data.size ≤ offset
  · rw [if_pos hoff]
    have hmin : min count (n.contents.size - offset) = 0 := by
      simp only [Node.contents]
      omega
    simp [hmin]
  · have hcount : (if n.data.size < offset + count then n.data.size - offset else count) =
        min count (n.data.size - offset) := by
      split_ifs <;> omega
    rw [if_neg hoff,hcount]
    congr 1
    apply List.map_congr_left
    intro i hi
    rw [List.mem_range] at hi
    simp only [Node.contents]
    rw [if_pos (by omega),Nat.add_assoc]

theorem ReadsAs.contents_eq {n : Node} (hn : Owned n) {f : ZeroExtended UInt8}
    (hf : f.size < 2 ^ 64) (h : ReadsAs n f) : n.contents = f := by
  have hlt : n.contents.size < 2 ^ 64 :=
    (hn.size_le.trans hn.shape.le).trans_lt (by decide)
  apply ZeroExtended.eq_of_read hlt hf
  intro count offset hr
  have := (readsAs_contents hn count offset hr).symm.trans (h count offset hr)
  simpa using this

end SabaOS.Fs.Tmpfs
