import SabaOS.Klib.Memory
import SabaOS.Klib.Word
import SabaOS.Lib.Tracking

namespace SabaOS.Mem

open SabaOS.Klib

-- `VMM::init` gives the kernel heap this size, from a page-aligned base in the kernel half.
def heapSize : Nat := 12 * 1024 * 1024 * 1024

structure Bump where
  bytes : Bytes
  allocBase : Nat
  allocPtr : Nat
  aligned : allocBase % 4096 = 0
  fits : 0 < allocBase ∧ allocBase + heapSize < 2 ^ 64
  inside : allocPtr ≤ heapSize

namespace Bump

def defaultAlignment : Nat := 16

def next (b : Bump) (alignment : Nat) : Nat := alignUp (b.allocBase + b.allocPtr) alignment

def allocate (b : Bump) (size alignment : Nat) : Option (Bump × Nat) :=
  if size = 0 then some (b,0)
  else
    let ret := b.next alignment
    let allocPtr := uadd (usub ret b.allocBase) size
    if h : allocPtr < heapSize then
      some ({ b with allocPtr := allocPtr, inside := h.le },ret)
    else none

def reallocate (b : Bump) (ptr size : Nat) : Option (Bump × Nat) :=
  if ptr = 0 then b.allocate size defaultAlignment
  else if size = 0 then some (b,0)
  else do
    let (b,newptr) ← b.allocate size defaultAlignment
    return ({ b with bytes := memcpy b.bytes newptr ptr size },newptr)

variable {b b' : Bump} {size ptr p : Nat}

theorem next_bounds (b : Bump) :
    b.allocBase + b.allocPtr ≤ b.next defaultAlignment ∧
      b.next defaultAlignment ≤ b.allocBase + heapSize := by
  have ha := b.aligned
  apply alignUp_bounds (Nat.add_le_add_left b.inside _) b.fits.2
  simp only [defaultAlignment,heapSize]
  omega

theorem allocate_cases (h : b.allocate size defaultAlignment = some (b',p)) (hs : size ≠ 0)
    (hlt : size ≤ 2 ^ 62) :
    p = b.next defaultAlignment ∧ b'.bytes = b.bytes ∧ b'.allocBase = b.allocBase ∧
      b'.allocBase + b'.allocPtr = p + size := by
  have hn := next_bounds b
  have hf := b.fits
  simp only [allocate,hs,if_false,Option.dite_none_right_eq_some,Option.some.injEq,
    Prod.mk.injEq] at h
  obtain ⟨hin,rfl,rfl⟩ := h
  simp only [uadd,usub] at hin ⊢
  simp only [heapSize] at *
  refine ⟨trivial,trivial,trivial,?_⟩
  omega

end Bump

open SabaOS.Klib SabaOS.Lib

structure Heap where
  bytes : Bytes
  allocBase : Nat
  totalSize : Nat
  allocPtr : Nat

namespace Heap

def next (h : Heap) (alignment : Nat) : Nat := alignUp (uadd h.allocBase h.allocPtr) alignment

def offset (h : Heap) (alignment : Nat) : Nat := usub (h.next alignment) h.allocBase

-- A failed `ASSERT` ends the run.
def allocate (h : Heap) (size alignment : Nat) : Option (Heap × Nat) :=
  if size = 0 then some (h,0)
  else
    let allocPtr := uadd (h.offset alignment) size
    if allocPtr < h.totalSize then some ({ h with allocPtr := allocPtr },h.next alignment) else none

def reallocate (h : Heap) (ptr size : Nat) : Option (Heap × Nat) :=
  if ptr = 0 then h.allocate size Bump.defaultAlignment
  else if size = 0 then some (h,0)
  else do
    let (h,newptr) ← h.allocate size Bump.defaultAlignment
    return ({ h with bytes := memcpy h.bytes newptr ptr size },newptr)

end Heap

structure Blocks where
  heap : Heap
  blocks : List (Nat × Nat)

namespace Blocks

inductive Op where
  | allocate (size : Nat) (exponent : Fin 64)
  | reallocate (ptr size : Nat)
  | store (bytes : Bytes)

-- A block for a request of zero bytes is the null pointer.
def gain (b : Blocks) (heap : Heap) (ret size : Nat) : Blocks :=
  ⟨heap,if size = 0 then b.blocks else (ret,size) :: b.blocks⟩

inductive Step : Blocks → Op → Blocks → Prop
  | allocate {b : Blocks} {heap : Heap} {size ret : Nat} {exponent : Fin 64} :
      size < 2 ^ 64 → b.heap.allocate size (2 ^ exponent.val) = some (heap,ret) →
      Step b (.allocate size exponent) (b.gain heap ret size)
  | reallocate {b : Blocks} {heap : Heap} {ptr size ret : Nat} :
      size < 2 ^ 64 → (ptr ≠ 0 → ∃ old, (ptr,old) ∈ b.blocks) →
      b.heap.reallocate ptr size = some (heap,ret) →
      Step b (.reallocate ptr size) (b.gain heap ret size)
  | store {b : Blocks} {bytes : Bytes} :
      Step b (.store bytes) { b with heap := { b.heap with bytes := bytes } }

def Apart (a b : Nat × Nat) : Prop := a.1 + a.2 ≤ b.1 ∨ b.1 + b.2 ≤ a.1

structure Sound (b : Blocks) : Prop where
  inside : ∀ a ∈ b.blocks, b.heap.allocBase ≤ a.1 ∧ a.1 + a.2 ≤ b.heap.allocBase + b.heap.totalSize
  apart : b.blocks.Pairwise Apart

def Copies (b b' : Blocks) (ptr size : Nat) : Prop :=
  ptr ≠ 0 → size ≠ 0 → ∀ old, (ptr,old) ∈ b.blocks →
    (∀ a, ptr ≤ a → a < ptr + size → a < ptr + old) ∧
    ∃ ret, b'.blocks.head? = some (ret,size) ∧
      ∀ i < min old size, b'.heap.bytes (ret + i) = b.heap.bytes (ptr + i)

def Good (b : Blocks) (op : Op) (b' : Blocks) : Prop :=
  b'.Sound ∧
    match op with
    | .allocate size exponent =>
      size ≠ 0 → ∃ ret, b'.blocks = (ret,size) :: b.blocks ∧ 2 ^ exponent.val ∣ ret
    | .reallocate ptr size =>
      (size ≠ 0 → ∃ ret, b'.blocks = (ret,size) :: b.blocks ∧ Bump.defaultAlignment ∣ ret) ∧
        b.Copies b' ptr size
    | .store _ => True

def Room (h : Heap) (size alignment : Nat) : Prop := size ≠ 0 → h.offset alignment + size < 2 ^ 64

def Safe (b : Blocks) (op : Op) : Prop :=
  match op with
  | .allocate size exponent => Room b.heap size (2 ^ exponent.val)
  | .reallocate ptr size => Room b.heap size Bump.defaultAlignment ∧
      (ptr ≠ 0 → size ≠ 0 → ∀ old, (ptr,old) ∈ b.blocks → size ≤ old)
  | .store _ => True

structure Inv (b : Blocks) : Prop where
  base_pos : 0 < b.heap.allocBase
  fits : b.heap.allocBase + b.heap.totalSize ≤ 2 ^ 64
  ptr : b.heap.allocPtr = 0 ∨ b.heap.allocPtr < b.heap.totalSize
  base_lt : b.heap.allocBase < 2 ^ 64
  below : ∀ a ∈ b.blocks, b.heap.allocBase ≤ a.1 ∧ a.1 + a.2 ≤ b.heap.allocBase + b.heap.allocPtr
  apart : b.blocks.Pairwise Apart

variable {b b' : Blocks} {h h' : Heap} {size alignment ret : Nat}

theorem Inv.sound (hi : b.Inv) : b.Sound := by
  refine ⟨fun a ha => ?_,hi.apart⟩
  have hb := hi.below a ha
  rcases hi.ptr with hp | hp
  · omega
  · omega

theorem Inv.next_bounds (hi : b.Inv) (ha : alignment ∣ 2 ^ 64) :
    alignment ∣ b.heap.next alignment ∧
      (b.heap.allocBase + b.heap.allocPtr ≤ b.heap.next alignment ∨ b.heap.next alignment = 0) ∧
        b.heap.next alignment < 2 ^ 64 := by
  have hfits := hi.fits
  have hbase := hi.base_lt
  have hsum : b.heap.allocBase + b.heap.allocPtr < 2 ^ 64 := by
    rcases hi.ptr with hp | hp
    · omega
    · omega
  have hdvd := alignUp_of_dvd hsum ha
  rw [Heap.next,uadd_of_lt hsum]
  refine ⟨hdvd.1,hdvd.2,?_⟩
  rw [alignUp]
  split_ifs
  · exact Nat.mod_lt _ (by decide)
  · exact hsum

theorem Inv.allocate_spec (hi : b.Inv) (hs : size ≠ 0) (hlt : size < 2 ^ 64)
    (ha : alignment ∣ 2 ^ 64) (h : b.heap.allocate size alignment = some (h',ret)) :
    ret = b.heap.next alignment ∧ h'.bytes = b.heap.bytes ∧ h'.allocBase = b.heap.allocBase ∧
      h'.totalSize = b.heap.totalSize ∧ h'.allocPtr < h'.totalSize ∧
      (b.heap.allocBase ≤ ret ∧ ret + size ≤ b.heap.allocBase + b.heap.totalSize →
        b.heap.offset alignment + size < 2 ^ 64) ∧
      (b.heap.offset alignment + size < 2 ^ 64 → b.heap.allocBase + b.heap.allocPtr ≤ ret ∧
        b.heap.allocBase + h'.allocPtr = ret + size) := by
  have hbase := hi.base_lt
  have hpos := hi.base_pos
  have hfits := hi.fits
  obtain ⟨-,hnext,hnextLt⟩ := hi.next_bounds ha
  simp only [Heap.allocate,if_neg hs] at h
  split_ifs at h with hin
  cases h
  refine ⟨rfl,rfl,rfl,rfl,hin,?_,?_⟩
  · rintro ⟨hle,hend⟩
    rw [Heap.offset,usub_of_le hnextLt hle]
    omega
  · intro hroom
    rw [uadd_of_lt hroom] at hin
    dsimp only
    rw [uadd_of_lt hroom]
    rcases hnext with hle | hzero
    · rw [Heap.offset,usub_of_le hnextLt (by omega)]
      omega
    · -- An offset that has wrapped around is behind the heap.
      exfalso
      rw [Heap.offset,hzero,usub] at hin
      omega

theorem Inv.gain (hi : b.Inv) {heap : Heap} (hbase : heap.allocBase = b.heap.allocBase)
    (htotal : heap.totalSize = b.heap.totalSize) (hptr : heap.allocPtr < heap.totalSize)
    (hlow : b.heap.allocBase + b.heap.allocPtr ≤ ret)
    (hend : b.heap.allocBase + heap.allocPtr = ret + size) (hs : size ≠ 0) :
    (b.gain heap ret size).Inv := by
  have hblocks : (b.gain heap ret size).blocks = (ret,size) :: b.blocks := if_neg hs
  refine ⟨hbase ▸ hi.base_pos,by rw [Blocks.gain,hbase,htotal]; exact hi.fits,.inr hptr,
    hbase ▸ hi.base_lt,fun a ha => ?_,?_⟩
  · rw [hblocks] at ha
    dsimp only [Blocks.gain]
    rw [hbase]
    rcases List.mem_cons.mp ha with rfl | ha
    · dsimp only
      omega
    · have hb := hi.below a ha
      omega
  · rw [hblocks]
    refine List.pairwise_cons.mpr ⟨fun a ha => ?_,hi.apart⟩
    have hb := hi.below a ha
    exact .inr (by dsimp only; omega)

theorem pow_dvd (exponent : Fin 64) : 2 ^ exponent.val ∣ 2 ^ 64 :=
  Nat.pow_dvd_pow 2 exponent.isLt.le

theorem default_dvd : Bump.defaultAlignment ∣ 2 ^ 64 := by decide

theorem Inv.gain_iff (hi : b.Inv) {heap : Heap} (hs : size ≠ 0) (hlt : size < 2 ^ 64)
    (ha : alignment ∣ 2 ^ 64) (h : b.heap.allocate size alignment = some (h',ret))
    (hbase : heap.allocBase = h'.allocBase) (htotal : heap.totalSize = h'.totalSize)
    (hptr : heap.allocPtr = h'.allocPtr) :
    ((b.gain heap ret size).Sound ↔ Room b.heap size alignment) ∧
      (Room b.heap size alignment → (b.gain heap ret size).Inv) := by
  obtain ⟨-,-,hbase',htotal',hptr',hroom,hsafe⟩ := hi.allocate_spec hs hlt ha h
  have hinv : Room b.heap size alignment → (b.gain heap ret size).Inv := by
    intro hr
    obtain ⟨hlow,hend⟩ := hsafe (hr hs)
    exact hi.gain (hbase.trans hbase') (htotal.trans htotal') (by rw [hptr,htotal]; exact hptr') hlow
      (hptr ▸ hend) hs
  refine ⟨⟨fun hsound _ => ?_,fun hr => (hinv hr).sound⟩,hinv⟩
  have hin := hsound.inside (ret,size) (by simp [Blocks.gain,hs])
  dsimp only [Blocks.gain] at hin
  rw [hbase,hbase',htotal,htotal'] at hin
  exact hroom hin

theorem Heap_reallocate_cases {ptr : Nat} (hs : size ≠ 0)
    (h : b.heap.reallocate ptr size = some (h',ret)) :
    ∃ heap, b.heap.allocate size Bump.defaultAlignment = some (heap,ret) ∧
      h'.allocBase = heap.allocBase ∧ h'.totalSize = heap.totalSize ∧ h'.allocPtr = heap.allocPtr ∧
      (ptr ≠ 0 → h'.bytes = memcpy heap.bytes ret ptr size) := by
  rw [Heap.reallocate,if_neg hs] at h
  split_ifs at h with hnull
  · exact ⟨h',h,rfl,rfl,rfl,fun hne => (hne hnull).elim⟩
  · simp only [Option.bind_eq_bind,Option.bind_eq_some_iff,Option.pure_def] at h
    obtain ⟨⟨heap,newptr⟩,halloc,h⟩ := h
    cases h
    exact ⟨heap,halloc,rfl,rfl,rfl,fun _ => rfl⟩

theorem Inv.copies_iff (hi : b.Inv) {heap : Heap} {ptr : Nat} (hs : size ≠ 0)
    (hlow : b.heap.allocBase + b.heap.allocPtr ≤ ret)
    (hbytes : ptr ≠ 0 → heap.bytes = memcpy b.heap.bytes ret ptr size) :
    b.Copies (b.gain heap ret size) ptr size ↔
      (ptr ≠ 0 → size ≠ 0 → ∀ old, (ptr,old) ∈ b.blocks → size ≤ old) := by
  constructor
  · intro hc hne hs old hold
    have hlast := (hc hne hs old hold).1 (ptr + size - 1) (by omega) (by omega)
    omega
  · intro hle hne _ old hold
    have hsize := hle hne hs old hold
    have hbelow := (hi.below _ hold).2
    dsimp only at hbelow
    refine ⟨fun a _ ha => by omega,ret,by simp [Blocks.gain,hs],fun i hin => ?_⟩
    obtain ⟨-,hin⟩ := lt_min_iff.mp hin
    dsimp only [Blocks.gain]
    rw [hbytes hne,memcpy_inside (by omega) hin,Nat.mod_eq_of_lt (by omega)]

theorem Inv.good_iff_safe (hi : b.Inv) {op : Op} (h : Step b op b') :
    (b.Good op b' ↔ b.Safe op) ∧ (b.Safe op → b'.Inv) := by
  cases h with
  | @allocate heap size ret exponent hlt halloc =>
    by_cases hs : size = 0
    · subst hs
      cases halloc
      exact ⟨iff_of_true ⟨hi.sound,fun h0 => (h0 rfl).elim⟩ fun h0 => (h0 rfl).elim,fun _ => hi⟩
    · obtain ⟨hsound,hinv⟩ := hi.gain_iff hs hlt (pow_dvd exponent) halloc rfl rfl rfl
      refine ⟨⟨fun hg => hsound.mp hg.1,fun hr => ⟨hsound.mpr hr,fun _ => ⟨ret,if_neg hs,?_⟩⟩⟩,hinv⟩
      rw [(hi.allocate_spec hs hlt (pow_dvd exponent) halloc).1]
      exact (hi.next_bounds (pow_dvd exponent)).1
  | @reallocate heap ptr size ret hlt _ hre =>
    by_cases hs : size = 0
    · subst hs
      have hsame : heap = b.heap := by
        rw [Heap.reallocate,Heap.allocate,if_pos rfl,if_pos rfl] at hre
        split_ifs at hre
        · cases hre
          rfl
        · cases hre
          rfl
      subst hsame
      refine ⟨iff_of_true ⟨hi.sound,fun h0 => (h0 rfl).elim,fun _ h0 => (h0 rfl).elim⟩
        ⟨fun h0 => (h0 rfl).elim,fun _ h0 => (h0 rfl).elim⟩,fun _ => hi⟩
    · obtain ⟨heap',halloc,hbase,htotal,hptr,hbytes⟩ := Heap_reallocate_cases hs hre
      obtain ⟨hret,hbytes',-,-,-,-,hsafe⟩ := hi.allocate_spec hs hlt default_dvd halloc
      rw [hbytes'] at hbytes
      obtain ⟨hsound,hinv⟩ := hi.gain_iff hs hlt default_dvd halloc hbase htotal hptr
      have hcopies : Room b.heap size Bump.defaultAlignment → (b.Copies (b.gain heap ret size) ptr size ↔
          (ptr ≠ 0 → size ≠ 0 → ∀ old, (ptr,old) ∈ b.blocks → size ≤ old)) :=
        fun hr => hi.copies_iff hs (hsafe (hr hs)).1 hbytes
      refine ⟨⟨fun hg => ?_,fun hr => ⟨hsound.mpr hr.1,fun _ => ⟨ret,if_neg hs,?_⟩,
        (hcopies hr.1).mpr hr.2⟩⟩,fun hr => hinv hr.1⟩
      · have hroom := hsound.mp hg.1
        exact ⟨hroom,(hcopies hroom).mp hg.2.2⟩
      · rw [hret]
        exact (hi.next_bounds default_dvd).1
  | store =>
    have hsound := hi.sound
    exact ⟨iff_of_true ⟨⟨hsound.inside,hsound.apart⟩,trivial⟩ trivial,fun _ => { hi with }⟩

def start (bytes : Bytes) (base totalSize : Nat) : Blocks := ⟨⟨bytes,base,totalSize,0⟩,[]⟩

theorem start_inv (bytes : Bytes) {base totalSize : Nat} (hpos : 0 < base) (hbase : base < 2 ^ 64)
    (hfits : base + totalSize ≤ 2 ^ 64) : (start bytes base totalSize).Inv :=
  ⟨hpos,hfits,.inl rfl,hbase,nofun,List.Pairwise.nil⟩

theorem bump_heap_iff (bytes : Bytes) (base totalSize : Nat) (hpos : 0 < base) (hbase : base < 2 ^ 64)
    (hfits : base + totalSize ≤ 2 ^ 64) (ops : List Op) :
    Along Step (fun b op b' => b.Good op b') (start bytes base totalSize) ops ↔
      Along Step (fun b op _ => b.Safe op) (start bytes base totalSize) ops := by
  apply Along.iff_safe _ _ (start_inv bytes hpos hbase hfits)
  · exact fun hi hstep => (Inv.good_iff_safe hi hstep).1
  · intro s op u hi hstep hg
    obtain ⟨hiff,hinv⟩ := Inv.good_iff_safe hi hstep
    exact hinv (hiff.mp hg)

theorem bump_heap_small : Along Step (fun b op b' => b.Good op b') (start (fun _ => 0) 0x1000 0x1000)
    [.allocate 10 4] := by
  refine (bump_heap_iff (fun _ => 0) 0x1000 0x1000 (by decide) (by decide) (by decide) _).mpr ?_
  intro u _
  refine ⟨fun _ => ?_,trivial⟩
  decide

def sixteen : Blocks := ⟨⟨fun _ => 0,0x1000,0x1000,16⟩,[(0x1000,16)]⟩

theorem sixteen_step : Step (start (fun _ => 0) 0x1000 0x1000) (.allocate 16 4) sixteen :=
  @Step.allocate (start (fun _ => 0) 0x1000 0x1000) sixteen.heap 16 0x1000 4 (by decide) (by rfl)

-- The sum wraps around to 0, and the heap gives out a block of almost 2^64 bytes.
def huge : Blocks := ⟨⟨fun _ => 0,0x1000,0x1000,0⟩,[(0x1010,2 ^ 64 - 16),(0x1000,16)]⟩

theorem huge_allocate : sixteen.heap.allocate (2 ^ 64 - 16) (2 ^ 4) = some (huge.heap,0x1010) := by
  have hnext : sixteen.heap.next (2 ^ 4) = 0x1010 := by decide +kernel
  have hsum : uadd (sixteen.heap.offset (2 ^ 4)) (2 ^ 64 - 16) = 0 := by decide +kernel
  have htotal : 0 < sixteen.heap.totalSize := by decide +kernel
  rw [Heap.allocate,if_neg (by decide +kernel),hsum,if_pos htotal,hnext]
  rfl

theorem huge_step : Step sixteen (.allocate (2 ^ 64 - 16) 4) huge :=
  @Step.allocate sixteen huge.heap (2 ^ 64 - 16) 0x1010 4 (by decide +kernel) huge_allocate

def grown : Blocks :=
  ⟨⟨memcpy (fun _ => 0) 0x1010 0x1000 32,0x1000,0x1000,48⟩,[(0x1010,32),(0x1000,16)]⟩

theorem grown_step : Step sixteen (.reallocate 0x1000 32) grown :=
  @Step.reallocate sixteen grown.heap 0x1000 32 0x1010 (by decide) (fun _ => ⟨16,by simp [sixteen]⟩)
    (by rfl)

theorem bump_heap_fails :
    (¬Along Step (fun b op b' => b.Good op b') (start (fun _ => 0) 0x1000 0x1000)
      [.allocate 16 4,.allocate (2 ^ 64 - 16) 4]) ∧
    ¬Along Step (fun b op b' => b.Good op b') (start (fun _ => 0) 0x1000 0x1000)
      [.allocate 16 4,.reallocate 0x1000 32] := by
  constructor
  · intro h
    have hgood := (((h _ sixteen_step).2) _ huge_step).1
    have hin := hgood.1.inside (0x1010,2 ^ 64 - 16) (by simp [huge])
    revert hin
    decide
  · intro h
    have hgood := (((h _ sixteen_step).2) _ grown_step).1
    have hread := (hgood.2.2 (by decide) (by decide) 16 (by simp [sixteen])).1 0x101F (by decide)
      (by decide)
    revert hread
    decide

end Blocks

end SabaOS.Mem
