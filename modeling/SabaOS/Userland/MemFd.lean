import Mathlib.Data.UInt
import SabaOS.Klib.Word
import SabaOS.Klib.Memory
import SabaOS.Lib.ZeroExtended
import SabaOS.Lib.Tracking

namespace SabaOS.Userland

open SabaOS.Klib SabaOS.Lib

def pageSize : Nat := 4096

-- The kernel image is mapped from here up; `virt_alloc` hands out addresses below.
def kernelImageBase : Nat := 0xFFFFFFFF80000000

structure Kernel where
  bytes : Bytes
  mapped : Nat → Bool
  virtAllocBase : Nat
  freePages : Nat

namespace Kernel

def virtAlloc (k : Kernel) (length : Nat) : Kernel × Nat :=
  ({ k with virtAllocBase := uadd k.virtAllocBase (alignUp length pageSize) },k.virtAllocBase)

-- `map_anonymous` and one touch of each page; a page that is not there panics.
def populate (k : Kernel) (address capacity : Nat) : Option Kernel :=
  if capacity / pageSize ≤ k.freePages then
    some { k with
      bytes := memset k.bytes address 0 capacity
      mapped := fun a => decide (address ≤ a ∧ a < address + capacity) || k.mapped a
      freePages := k.freePages - capacity / pageSize }
  else none

def mappedAll (k : Kernel) (address count : Nat) : Bool :=
  decide (∀ i < count, k.mapped (address + i) = true)

end Kernel

structure MemFd where
  size : Nat
  capacity : Nat
  address : Nat
  kernel : Kernel

namespace MemFd

def setBytes (m : MemFd) (bytes : Bytes) : MemFd := { m with kernel := { m.kernel with bytes := bytes } }

def growTo (m : MemFd) (length : Nat) : Option MemFd :=
  if m.capacity < length then do
    let capacity := alignUp length pageSize
    let (kernel,address) := m.kernel.virtAlloc capacity
    let kernel ← kernel.populate address capacity
    return ⟨length,capacity,address,kernel⟩
  else some { m with size := length }

def growPast (m : MemFd) (length : Nat) : Option MemFd :=
  if m.size < length then m.growTo length else some m

-- A copy from or to an address that is not mapped is a page fault in the kernel.
def read (m : MemFd) (count offset : Nat) : Option (List UInt8) :=
  if m.size ≤ offset then some []
  else
    let actualCount := if m.size < uadd offset count then m.size - offset else count
    if m.kernel.mappedAll (uadd m.address offset) actualCount then
      some (copyOut m.kernel.bytes (uadd m.address offset) actualCount)
    else none

def write (m : MemFd) (buf : List UInt8) (offset : Nat) : Option (MemFd × Nat) :=
  if buf.length = 0 then some (m,0)
  else do
    let m ← m.growPast (uadd offset buf.length)
    guard (m.kernel.mappedAll (uadd m.address offset) buf.length)
    return (m.setBytes (copyIn m.kernel.bytes (uadd m.address offset) buf),buf.length)

def resize (m : MemFd) (length : Nat) : Option MemFd :=
  if m.size < length then m.growTo length
  else do
    guard (m.kernel.mappedAll (uadd m.address length) (m.size - length))
    return m.setBytes (memset m.kernel.bytes (uadd m.address length) 0 (m.size - length))

def truncate (m : MemFd) (length : Nat) : Option MemFd := do
  let m ← m.resize length
  return { m with size := length }

end MemFd

structure Kernel.Ready (k : Kernel) : Prop where
  aligned : k.virtAllocBase % pageSize = 0
  room : k.virtAllocBase + pageSize * (k.freePages + 1) ≤ kernelImageBase
  unmapped : ∀ a, k.virtAllocBase ≤ a → a < kernelImageBase → k.mapped a = false

namespace MemFd

abbrev Op : Type := ZeroExtended.Op UInt8

-- The rest of the kernel takes pages and addresses, and leaves the pages of this file alone.
inductive Step : MemFd → Op → MemFd → Prop
  | write {m m' : MemFd} {buf : List UInt8} {offset ret : Nat} :
      m.write buf offset = some (m',ret) → Step m (.write buf offset) m'
  | truncate {m m' : MemFd} {length : Nat} :
      m.truncate length = some m' → Step m (.truncate length) m'
  | others {m : MemFd} {k : Kernel} : k.Ready → m.kernel.virtAllocBase ≤ k.virtAllocBase →
      (∀ i < m.capacity, k.bytes (m.address + i) = m.kernel.bytes (m.address + i)) →
      (∀ i < m.capacity, k.mapped (m.address + i) = m.kernel.mapped (m.address + i)) →
      Step m .others { m with kernel := k }

def create (k : Kernel) : MemFd := ⟨0,0,0,k⟩

structure Held (m : MemFd) : Prop where
  ready : m.kernel.Ready
  size_le : m.size ≤ m.capacity
  below : m.address + m.capacity ≤ m.kernel.virtAllocBase
  mapped : ∀ i < m.capacity, m.kernel.mapped (m.address + i) = true
  tail : ∀ i, m.size ≤ i → i < m.capacity → m.kernel.bytes (m.address + i) = 0

def Grows (m : MemFd) (length bound : Nat) : Prop :=
  m.capacity < length → length ≤ 2 ^ 64 - pageSize ∧
    ∀ i < min m.size bound, m.kernel.bytes (m.address + i) = 0

def LosesNothing (m : MemFd) : Op → Prop
  | .write buf offset => buf ≠ [] → m.Grows (offset + buf.length) offset
  | .truncate length => m.Grows length length
  | .others => True

def contents (m : MemFd) : ZeroExtended UInt8 where
  size := m.size
  byte := fun i => if i < m.size then m.kernel.bytes (m.address + i) else 0
  zero := fun i hi => if_neg (by omega)

def ReadsAs (m : MemFd) (f : ZeroExtended UInt8) : Prop :=
  ∀ count offset, offset + count < 2 ^ 64 → m.read count offset = some (f.read count offset)

def grown (m : MemFd) (length i : Nat) : UInt8 :=
  if m.capacity < length then 0 else m.kernel.bytes (m.address + i)

variable {m m' : MemFd}

theorem Held.top_le (hm : Held m) : m.address + m.capacity + pageSize ≤ kernelImageBase :=
  calc m.address + m.capacity + pageSize
    _ ≤ m.kernel.virtAllocBase + pageSize * (m.kernel.freePages + 1) :=
        Nat.add_le_add hm.below (Nat.le_mul_of_pos_right _ (Nat.succ_pos _))
    _ ≤ kernelImageBase := hm.ready.room

theorem readsAs_contents (hm : Held m) : m.ReadsAs m.contents := by
  intro count offset hr
  have htop := hm.top_le
  have hsize := hm.size_le
  simp only [read,uadd_of_lt hr]
  by_cases hoff : m.size ≤ offset
  · have hmin : min count (m.contents.size - offset) = 0 := by
      simp only [contents]
      omega
    rw [if_pos hoff]
    simp [ZeroExtended.read,hmin]
  · have hcount : (if m.size < offset + count then m.size - offset else count) =
        min count (m.size - offset) := by
      split_ifs <;> omega
    have haddr : uadd m.address offset = m.address + offset := by
      apply uadd_of_lt
      simp only [kernelImageBase,pageSize] at htop
      omega
    have hmapped : m.kernel.mappedAll (m.address + offset) (min count (m.size - offset)) = true := by
      simp only [Kernel.mappedAll,decide_eq_true_eq]
      intro i hi
      rw [Nat.add_assoc]
      exact hm.mapped _ (by omega)
    rw [if_neg hoff,hcount,haddr,if_pos hmapped]
    simp only [ZeroExtended.read,copyOut]
    congr 1
    apply List.map_congr_left
    intro i hi
    rw [List.mem_range] at hi
    simp only [contents]
    rw [if_pos (by omega),Nat.add_assoc]

theorem ReadsAs.contents_eq (hm : Held m) {f : ZeroExtended UInt8} (hf : f.size < 2 ^ 64)
    (h : m.ReadsAs f) : m.contents = f := by
  have hlt : m.contents.size < 2 ^ 64 := by
    have htop := hm.top_le
    have hsize := hm.size_le
    simp only [contents,kernelImageBase] at *
    omega
  apply ZeroExtended.eq_of_read hlt hf
  intro count offset hr
  have := (readsAs_contents hm count offset hr).symm.trans (h count offset hr)
  simpa using this

theorem alignUp_pageSize {length : Nat} (h : length ≤ 2 ^ 64 - pageSize) :
    length ≤ alignUp length pageSize ∧ alignUp length pageSize % pageSize = 0 ∧
      alignUp (alignUp length pageSize) pageSize = alignUp length pageSize := by
  obtain ⟨hle,hle'⟩ := alignUp_bounds (a := pageSize) h (by decide) (by decide)
  have hmod : alignUp length pageSize % pageSize = 0 := by
    unfold alignUp
    split_ifs with h0
    · simp only [pageSize]
      omega
    · exact not_not.mp h0
  refine ⟨hle,hmod,?_⟩
  rw [alignUp,if_neg (not_not.mpr hmod)]

theorem alignUp_pageSize_wraps {length : Nat} (h : 2 ^ 64 - pageSize < length)
    (hl : length < 2 ^ 64) : alignUp length pageSize = 0 := by
  simp only [pageSize] at h
  have h0 : length % pageSize ≠ 0 := by
    simp only [pageSize]
    omega
  rw [alignUp,if_pos h0]
  simp only [pageSize]
  omega

theorem populate_held {k k' : Kernel} (hk : k.Ready) {length : Nat}
    (hfit : length ≤ 2 ^ 64 - pageSize)
    (h : (k.virtAlloc (alignUp length pageSize)).1.populate k.virtAllocBase
      (alignUp length pageSize) = some k') :
    Held ⟨length,alignUp length pageSize,k.virtAllocBase,k'⟩ ∧
      ∀ i < alignUp length pageSize, k'.bytes (k.virtAllocBase + i) = 0 := by
  obtain ⟨hle,hmod,hagain⟩ := alignUp_pageSize hfit
  generalize alignUp length pageSize = capacity at *
  simp only [Kernel.virtAlloc,Kernel.populate,hagain] at h
  split_ifs at h with hfree
  cases h
  have hroom := hk.room
  have halign := hk.aligned
  have hpages := Nat.div_add_mod capacity pageSize
  simp only [hmod,Nat.add_zero] at hpages
  have hle' : k.virtAllocBase + capacity + pageSize * (k.freePages - capacity / pageSize + 1) ≤
      kernelImageBase := by
    refine le_trans ?_ hroom
    rw [Nat.add_assoc]
    apply Nat.add_le_add_left
    rw [← hpages,Nat.mul_div_cancel_left _ (by decide),← Nat.mul_add]
    apply Nat.mul_le_mul_left
    omega
  have hwrap : uadd k.virtAllocBase capacity = k.virtAllocBase + capacity := by
    apply uadd_of_lt
    simp only [kernelImageBase] at hle'
    omega
  have hzero : ∀ i < capacity, memset k.bytes k.virtAllocBase 0 capacity (k.virtAllocBase + i) = 0 :=
    fun i hi => memset_inside hi
  refine ⟨⟨⟨?_,?_,?_⟩,hle,?_,?_,?_⟩,hzero⟩
  · dsimp only
    rw [hwrap,Nat.add_mod,halign,hmod]
    rfl
  · dsimp only
    rw [hwrap]
    exact hle'
  · dsimp only
    rw [hwrap]
    intro a ha hlt
    simp only [Bool.or_eq_false_iff,decide_eq_false_iff_not]
    exact ⟨by omega,hk.unmapped a (by omega) hlt⟩
  · dsimp only
    rw [hwrap]
  · intro i hi
    dsimp only at hi
    simp only [Bool.or_eq_true,decide_eq_true_eq]
    exact .inl (by omega)
  · intro i _ hi
    exact hzero i hi

theorem growTo_spec (hm : Held m) {length : Nat} (hlt : m.size < length)
    (hfit : length ≤ 2 ^ 64 - pageSize) (h : m.growTo length = some m') :
    Held m' ∧ m'.size = length ∧
      ∀ i < m'.capacity, m'.kernel.bytes (m'.address + i) = m.grown length i := by
  simp only [growTo] at h
  split_ifs at h with hcap
  · simp only [Option.bind_eq_bind,Option.bind_eq_some_iff,Option.pure_def] at h
    obtain ⟨k,hk,h⟩ := h
    cases h
    obtain ⟨hheld,hzero⟩ := populate_held hm.ready hfit hk
    refine ⟨hheld,rfl,?_⟩
    intro i hi
    rw [grown,if_pos hcap]
    exact hzero i hi
  · cases h
    refine ⟨{ hm with size_le := Nat.le_of_not_lt hcap, tail := ?_ },rfl,?_⟩
    · intro i hi hc
      exact hm.tail i (hlt.le.trans hi) hc
    · intro i _
      rw [grown,if_neg hcap]

theorem growPast_spec (hm : Held m) {length : Nat} (hfit : length ≤ 2 ^ 64 - pageSize)
    (h : m.growPast length = some m') :
    Held m' ∧ m'.size = max m.size length ∧
      ∀ i < m'.capacity, m'.kernel.bytes (m'.address + i) = m.grown length i := by
  have hsize := hm.size_le
  simp only [growPast] at h
  split_ifs at h with hlt
  · obtain ⟨hheld,hs,hbytes⟩ := growTo_spec hm hlt hfit h
    exact ⟨hheld,by omega,hbytes⟩
  · cases h
    refine ⟨hm,by omega,fun i _ => ?_⟩
    rw [grown,if_neg (by omega)]

theorem growTo_wraps (hm : Held m) {length : Nat} (hwrap : 2 ^ 64 - pageSize < length)
    (hl : length < 2 ^ 64) (h : m.growTo length = some m') :
    m'.size = length ∧ m'.address = m.kernel.virtAllocBase ∧ m'.kernel.mapped m'.address = false := by
  have htop := hm.top_le
  have hroom := hm.ready.room
  have hcap : m.capacity < length := by
    simp only [kernelImageBase,pageSize] at *
    omega
  simp only [growTo,if_pos hcap,alignUp_pageSize_wraps hwrap hl,Kernel.virtAlloc,Kernel.populate,
    Nat.zero_div,Nat.zero_le,if_true,Option.bind_eq_bind,Option.bind_some,Option.pure_def,
    Option.some.injEq] at h
  subst h
  refine ⟨rfl,rfl,?_⟩
  simp only [Nat.add_zero,Bool.or_eq_false_iff,decide_eq_false_iff_not]
  refine ⟨by omega,hm.ready.unmapped _ le_rfl ?_⟩
  have := Nat.le_mul_of_pos_right pageSize (Nat.succ_pos m.kernel.freePages)
  simp only [pageSize] at *
  omega

theorem Held.uadd_address (hm : Held m) {i : Nat} (hi : i ≤ m.capacity) :
    uadd m.address i = m.address + i := by
  have htop := hm.top_le
  apply uadd_of_lt
  simp only [kernelImageBase,pageSize] at htop
  omega

theorem not_readsAs_unmapped {f : ZeroExtended UInt8} (hs : 0 < m.size) (hl : m.address < 2 ^ 64)
    (hm : m.kernel.mapped m.address = false) : ¬m.ReadsAs f := by
  intro h
  have hread := h 1 0 (by decide)
  have haddr : uadd m.address 0 = m.address := uadd_of_lt hl
  have hone : (if m.size < uadd 0 1 then m.size - 0 else 1) = 1 := by
    split_ifs with hlt
    · simp only [uadd] at hlt
      omega
    · rfl
  have hnot : m.kernel.mappedAll m.address 1 = false := by
    simp [Kernel.mappedAll,hm]
  simp only [read,if_neg (Nat.not_le.mpr hs),haddr,hone,hnot,Bool.false_eq_true,if_false] at hread
  cases hread

theorem Held.base_lt (hm : Held m) : m.kernel.virtAllocBase < 2 ^ 64 :=
  (Nat.le_add_right _ _).trans_lt (hm.ready.room.trans_lt (by decide))

theorem grown_fits (hm : Held m) {length i : Nat} (hc : ¬m.capacity < length)
    (hi : i < m.capacity) : m.grown length i = m.contents.byte i := by
  simp only [grown,if_neg hc,contents]
  split_ifs with hs
  · rfl
  · exact hm.tail i (by omega) hi

theorem grown_moves {length i : Nat} (hc : m.capacity < length) :
    m.grown length i = m.contents.byte i ↔
      (i < m.size → m.kernel.bytes (m.address + i) = 0) := by
  simp only [grown,if_pos hc,contents]
  split_ifs with hi
  · exact ⟨fun h _ => h.symm,fun h => (h hi).symm⟩
  · exact ⟨fun _ h => (hi h).elim,fun _ => rfl⟩

theorem readsAs_iff (hm : Held m) {f : ZeroExtended UInt8} (hf : f.size < 2 ^ 64) :
    m.ReadsAs f ↔ m.contents = f :=
  ⟨fun h => h.contents_eq hm hf,fun h => h ▸ readsAs_contents hm⟩

theorem write_wraps (hm : Held m) {buf : List UInt8} {offset ret : Nat} (hb : buf.length ≠ 0)
    (hr : offset + buf.length < 2 ^ 64) (hwrap : 2 ^ 64 - pageSize < offset + buf.length)
    (h : m.write buf offset = some (m',ret)) (f : ZeroExtended UInt8) : ¬m'.ReadsAs f := by
  have htop := hm.top_le
  have hsize := hm.size_le
  have hlt : m.size < offset + buf.length := by
    simp only [kernelImageBase,pageSize] at *
    omega
  simp only [write,if_neg hb,uadd_of_lt hr,growPast,if_pos hlt,Option.bind_eq_bind,
    Option.bind_eq_some_iff,Option.pure_def] at h
  obtain ⟨m₁,h₁,-,-,h⟩ := h
  cases h
  obtain ⟨hs,haddr,hunmapped⟩ := growTo_wraps hm hwrap hr h₁
  apply not_readsAs_unmapped (m := m₁.setBytes _)
  · show 0 < m₁.size
    omega
  · show m₁.address < 2 ^ 64
    exact haddr ▸ hm.base_lt
  · exact hunmapped

theorem write_spec (hm : Held m) {buf : List UInt8} {offset ret : Nat} (hb : buf.length ≠ 0)
    (hfit : offset + buf.length ≤ 2 ^ 64 - pageSize) (h : m.write buf offset = some (m',ret)) :
    Held m' ∧ m'.size = max m.size (offset + buf.length) ∧
      ∀ i < m'.size, m'.kernel.bytes (m'.address + i) =
        if offset ≤ i ∧ i < offset + buf.length then buf.getD (i - offset) 0
        else m.grown (offset + buf.length) i := by
  have hr : offset + buf.length < 2 ^ 64 := by
    simp only [pageSize] at hfit
    omega
  simp only [write,if_neg hb,uadd_of_lt hr,Option.bind_eq_bind,Option.bind_eq_some_iff,
    Option.pure_def] at h
  obtain ⟨m₁,h₁,-,-,h⟩ := h
  cases h
  obtain ⟨hm₁,hs,hbytes⟩ := growPast_spec hm hfit h₁
  have hsize := hm₁.size_le
  rw [hm₁.uadd_address (by omega)]
  refine ⟨{ hm₁ with ready := { hm₁.ready with }, tail := ?_ },hs,?_⟩
  · intro i hi hc
    refine (copyIn_add offset).trans ?_
    simp only [setBytes] at hi hc
    rw [if_neg (by omega)]
    exact hm₁.tail i hi hc
  · intro i hi
    refine (copyIn_add offset).trans ?_
    simp only [setBytes] at hi
    rw [hbytes i (by omega)]

theorem write_view (hm : Held m) {buf : List UInt8} {offset ret : Nat}
    (hr : offset + buf.length < 2 ^ 64) (hf : (m.contents.write buf offset).size < 2 ^ 64)
    (h : m.write buf offset = some (m',ret)) :
    (m'.ReadsAs (m.contents.write buf offset) ↔ m.LosesNothing (.write buf offset)) ∧
      (m.LosesNothing (.write buf offset) → Held m') := by
  by_cases hb : buf = []
  · subst hb
    simp only [write,List.length_nil,if_true] at h
    cases h
    have hw : m.contents.write [] offset = m.contents := if_pos rfl
    rw [hw]
    exact ⟨⟨fun _ hne => (hne rfl).elim,fun _ => readsAs_contents hm⟩,fun _ => hm⟩
  have hlen : buf.length ≠ 0 := by simpa using hb
  have htop := hm.top_le
  by_cases hwrap : 2 ^ 64 - pageSize < offset + buf.length
  · have hgrow : ¬m.LosesNothing (.write buf offset) := by
      intro hl
      have := (hl hb (by simp only [kernelImageBase,pageSize] at *; omega)).1
      omega
    exact ⟨iff_of_false (write_wraps hm hlen hr hwrap h _) hgrow,fun hl => (hgrow hl).elim⟩
  obtain ⟨hheld,hs,hbytes⟩ := write_spec hm hlen (by omega) h
  refine ⟨?_,fun _ => hheld⟩
  rw [readsAs_iff hheld hf,
    ZeroExtended.eq_write_iff hb hs fun i hi => (if_pos hi).trans (hbytes i hi)]
  have hsize : m'.contents.size = max m.size (offset + buf.length) := hs
  have hle := hm.size_le
  constructor
  · intro hkept _ hc
    refine ⟨by omega,fun i hi => ?_⟩
    exact (grown_moves hc).mp (hkept i (by omega) (by omega)) (by omega)
  · intro hl i hi hout
    by_cases hc : m.capacity < offset + buf.length
    · exact (grown_moves hc).mpr fun his => (hl hb hc).2 i (by omega)
    · exact grown_fits hm hc (by omega)

theorem truncate_grows {length : Nat} (hlt : m.size < length) (h : m.truncate length = some m') :
    ∃ m₁, m.growTo length = some m₁ ∧ m' = { m₁ with size := length } := by
  simp only [truncate,resize,if_pos hlt,Option.bind_eq_bind,Option.bind_eq_some_iff,
    Option.pure_def] at h
  obtain ⟨m₁,h₁,h⟩ := h
  cases h
  exact ⟨m₁,h₁,rfl⟩

theorem truncate_wraps (hm : Held m) {length : Nat} (hl : length < 2 ^ 64)
    (hwrap : 2 ^ 64 - pageSize < length) (h : m.truncate length = some m')
    (f : ZeroExtended UInt8) : ¬m'.ReadsAs f := by
  have htop := hm.top_le
  have hsize := hm.size_le
  have hlt : m.size < length := by
    simp only [kernelImageBase,pageSize] at *
    omega
  obtain ⟨m₁,h₁,rfl⟩ := truncate_grows hlt h
  obtain ⟨-,haddr,hunmapped⟩ := growTo_wraps hm hwrap hl h₁
  apply not_readsAs_unmapped
  · exact (Nat.zero_le _).trans_lt hlt
  · exact haddr ▸ hm.base_lt
  · exact hunmapped

theorem truncate_spec (hm : Held m) {length : Nat} (hfit : length ≤ 2 ^ 64 - pageSize)
    (h : m.truncate length = some m') :
    Held m' ∧ m'.size = length ∧
      ∀ i < m'.size, m'.kernel.bytes (m'.address + i) = m.grown length i := by
  have hsize := hm.size_le
  by_cases hlt : m.size < length
  · obtain ⟨m₁,h₁,rfl⟩ := truncate_grows hlt h
    obtain ⟨hm₁,hs,hbytes⟩ := growTo_spec hm hlt hfit h₁
    subst hs
    exact ⟨hm₁,rfl,fun i hi => hbytes i (hi.trans_le hm₁.size_le)⟩
  · simp only [truncate,resize,if_neg hlt,Option.bind_eq_bind,Option.bind_eq_some_iff,
      Option.pure_def] at h
    obtain ⟨m₁,⟨-,-,h₁⟩,h⟩ := h
    cases h
    cases h₁
    rw [hm.uadd_address (by omega)]
    refine ⟨{ hm with ready := { hm.ready with }, size_le := ?_, tail := ?_ },rfl,?_⟩
    · simp only [setBytes]
      omega
    · intro i hi hc
      simp only [setBytes] at hi hc ⊢
      rw [memset_add]
      split_ifs with hin
      · rfl
      · exact hm.tail i (by omega) hc
    · intro i hi
      simp only [setBytes] at hi ⊢
      rw [memset_add,if_neg (by omega),grown,if_neg (by omega)]

theorem truncate_view (hm : Held m) {length : Nat} (hl : length < 2 ^ 64)
    (h : m.truncate length = some m') :
    (m'.ReadsAs (m.contents.truncate length) ↔ m.LosesNothing (.truncate length)) ∧
      (m.LosesNothing (.truncate length) → Held m') := by
  have htop := hm.top_le
  have hle := hm.size_le
  by_cases hwrap : 2 ^ 64 - pageSize < length
  · have hgrow : ¬m.LosesNothing (.truncate length) := by
      intro hl
      have := (hl (by simp only [kernelImageBase,pageSize] at *; omega)).1
      omega
    exact ⟨iff_of_false (truncate_wraps hm hl hwrap h _) hgrow,fun hl => (hgrow hl).elim⟩
  obtain ⟨hheld,rfl,hbytes⟩ := truncate_spec hm (by omega) h
  refine ⟨?_,fun _ => hheld⟩
  rw [readsAs_iff hheld hl]
  refine (ZeroExtended.eq_truncate_iff fun i hi => (if_pos hi).trans (hbytes i hi)).trans ?_
  constructor
  · intro hkept hc
    refine ⟨by omega,fun i hi => ?_⟩
    exact (grown_moves hc).mp (hkept i (by simp only [contents]; omega)) (by omega)
  · intro hl i hi
    simp only [contents] at hi
    by_cases hc : m.capacity < m'.size
    · exact (grown_moves hc).mpr fun his => (hl hc).2 i (by omega)
    · exact grown_fits hm hc (by omega)

theorem others_view (hm : Held m) {k : Kernel} (hk : k.Ready)
    (hbase : m.kernel.virtAllocBase ≤ k.virtAllocBase)
    (hbytes : ∀ i < m.capacity, k.bytes (m.address + i) = m.kernel.bytes (m.address + i))
    (hmapped : ∀ i < m.capacity, k.mapped (m.address + i) = m.kernel.mapped (m.address + i)) :
    Held { m with kernel := k } ∧ contents { m with kernel := k } = m.contents := by
  have hsize := hm.size_le
  refine ⟨⟨hk,hsize,hm.below.trans hbase,?_,?_⟩,?_⟩
  · intro i hi
    exact (hmapped i hi).trans (hm.mapped i hi)
  · intro i hi hc
    exact (hbytes i hc).trans (hm.tail i hi hc)
  · refine ZeroExtended.ext (by rfl) ?_
    intro i
    simp only [contents]
    split_ifs with hi
    · exact hbytes i (by omega)
    · rfl

structure Backed (m : MemFd) (f : ZeroExtended UInt8) : Prop where
  held : Held m
  size_lt : f.size < 2 ^ 64

theorem step_view {op : Op} (hm : Held m) (hs : m.size < 2 ^ 64) (hop : op.Representable)
    (h : Step m op m') :
    (m'.ReadsAs (op.apply m.contents) ↔ m.LosesNothing op) ∧ (m.LosesNothing op → Held m') := by
  cases h with
  | write h => exact write_view hm hop (ZeroExtended.write_size_lt hs hop) h
  | truncate h => exact truncate_view hm hop h
  | others hk hbase hbytes hmapped =>
    obtain ⟨hheld,heq⟩ := others_view hm hk hbase hbytes hmapped
    refine ⟨iff_of_true ?_ trivial,fun _ => hheld⟩
    exact (readsAs_iff hheld hs).mpr heq

def tracking : Tracking Step ZeroExtended.Op.apply where
  Inv := Backed
  View := ReadsAs
  Ok := ZeroExtended.Op.Representable
  Safe := LosesNothing
  view_step := by
    intro m m' f op hi hv hop h
    obtain rfl := hv.contents_eq hi.held hi.size_lt
    exact (step_view hi.held hi.size_lt hop h).1
  inv_step := by
    intro m m' f op hi hv hop hsafe h
    obtain rfl := hv.contents_eq hi.held hi.size_lt
    exact ⟨(step_view hi.held hi.size_lt hop h).2 hsafe,ZeroExtended.apply_size hi.size_lt hop⟩

theorem create_held {k : Kernel} (hk : k.Ready) : Held (create k) where
  ready := hk
  size_le := le_rfl
  below := Nat.zero_le _
  mapped := fun _ hi => (Nat.not_lt_zero _ hi).elim
  tail := fun _ _ hi => (Nat.not_lt_zero _ hi).elim

theorem create_readsAs {k : Kernel} (hk : k.Ready) : (create k).ReadsAs .empty := by
  rw [readsAs_iff (create_held hk) (by decide)]
  exact ZeroExtended.ext rfl fun i => by simp [create,contents,ZeroExtended.empty]

theorem memfd_reads_zero_extended (k : Kernel) (hk : k.Ready) (ops : List Op)
    (hops : ∀ op ∈ ops, op.Representable) :
    (∀ pre, pre <+: ops → ∀ m, Runs Step (create k) pre m →
        ∀ count offset, offset + count < 2 ^ 64 →
          m.read count offset = some ((pre.foldl ZeroExtended.Op.apply .empty).read count offset)) ↔
      ∀ pre op, pre ++ [op] <+: ops → ∀ m m', Runs Step (create k) pre m → Step m op m' →
        m.LosesNothing op :=
  tracking.view_iff_safe hops ⟨create_held hk,by decide⟩ (create_readsAs hk)

def emptyKernel : Kernel where
  bytes := fun _ => 0
  mapped := fun a => decide (kernelImageBase ≤ a)
  virtAllocBase := 0xFFFF900000000000
  freePages := 1024

theorem emptyKernel_ready : emptyKernel.Ready where
  aligned := by decide
  room := by decide
  unmapped := by
    intro a _ ha
    simp only [emptyKernel,decide_eq_false_iff_not]
    omega

def onePage : List Op := [.write [5] 0,.write [6] 1]

theorem memfd_reads_zero_extended_page :
    emptyKernel.Ready ∧ (∀ op ∈ onePage, op.Representable) ∧
      ∀ pre, pre <+: onePage → ∀ m, Runs Step (create emptyKernel) pre m →
        ∀ count offset, offset + count < 2 ^ 64 →
          m.read count offset = some ((pre.foldl ZeroExtended.Op.apply .empty).read count offset) := by
  have hops : ∀ op ∈ onePage, op.Representable := by decide
  refine ⟨emptyKernel_ready,hops,
    (memfd_reads_zero_extended emptyKernel emptyKernel_ready onePage hops).mpr ?_⟩
  intro pre op hpre m m' hm _
  simp only [onePage] at hpre
  match pre,hpre with
  | [],hpre =>
    obtain rfl : op = .write [5] 0 := by simpa using hpre
    cases hm
    intro _ _
    exact ⟨by decide,fun i hi => by simp [create] at hi⟩
  | [a],hpre =>
    obtain ⟨rfl,rfl⟩ : a = .write [5] 0 ∧ op = .write [6] 1 := by simpa using hpre
    obtain ⟨u,⟨hw⟩,rfl⟩ := hm
    have hcap : ((create emptyKernel).write [5] 0).map (·.1.capacity) = some 4096 := by
      decide +kernel
    have hcap : u.capacity = 4096 := by simpa [hw] using hcap
    intro _ hlt
    simp only [List.length_cons,List.length_nil] at hlt
    omega
  | _ :: _ :: _,hpre =>
    have := hpre.length_le
    simp at this

def twoPages : List Op := [.write [5] 0,.write [6] 4096]

def first : MemFd × Nat := ((create emptyKernel).write [5] 0).get (by decide +kernel)

def second : MemFd × Nat := (first.1.write [6] 4096).get (by decide +kernel)

theorem second_runs : Runs Step (create emptyKernel) twoPages second.1 :=
  ⟨first.1,.write (Option.some_get (by decide +kernel)).symm,
    second.1,.write (Option.some_get (by decide +kernel)).symm,rfl⟩

theorem growth_loses_byte :
    ¬∀ (k : Kernel), k.Ready → ∀ ops : List Op, (∀ op ∈ ops, op.Representable) →
      ∀ pre, pre <+: ops → ∀ m, Runs Step (create k) pre m →
        ∀ count offset, offset + count < 2 ^ 64 →
          m.read count offset = some ((pre.foldl ZeroExtended.Op.apply .empty).read count offset) := by
  intro h
  have hread : second.1.read 1 0 = some [0] := by decide +kernel
  have hbad := h emptyKernel emptyKernel_ready twoPages (by decide) _ (List.prefix_refl _) second.1
    second_runs 1 0 (by decide)
  rw [hread] at hbad
  revert hbad
  decide +kernel

end MemFd

end SabaOS.Userland
