import SabaOS.Fs.Tmpfs
import SabaOS.Lib.Tracking

namespace SabaOS.Fs.Tmpfs

open SabaOS.Klib SabaOS.Mem SabaOS.Lib

structure Backed (n : Node) (f : ZeroExtended UInt8) : Prop where
  owned : Owned n
  size_lt : f.size < 2 ^ 64

theorem fresh_owned (heap : Bump) : Owned (fresh heap) where
  regular := NodeType.noConfusion
  size_le := le_rfl
  shape := .inl rfl
  null := Iff.rfl
  lower := fun h => (h rfl).elim
  upper := fun h => (h rfl).elim

theorem others_contents {n : Node} {heap : Bump} (hn : Owned n)
    (hbase : heap.allocBase = n.heap.allocBase) (hptr : n.heap.allocPtr ≤ heap.allocPtr)
    (hkept : ∀ i < n.data.capacity,
      heap.bytes (n.data.storage + i) = n.heap.bytes (n.data.storage + i)) :
    Owned { n with heap := heap } ∧ Node.contents { n with heap := heap } = n.contents := by
  refine ⟨{ hn with
    lower := fun h0 => hbase.symm ▸ hn.lower h0
    upper := fun h0 => (hn.upper h0).trans (by dsimp only; omega) },?_⟩
  refine ZeroExtended.ext (by rfl) ?_
  intro i
  have hsize := hn.size_le
  simp only [Node.contents]
  split_ifs with hi
  · exact hkept i (by omega)
  · rfl

theorem exposed_iff {n : Node} (hn : Owned n) (length i : Nat) :
    n.exposed length i = n.contents.byte i ↔ n.data.size ≤ i → n.exposed length i = 0 := by
  by_cases hi : i < n.data.size
  · have hbyte : n.contents.byte i = n.heap.bytes (n.data.storage + i) := if_pos hi
    rw [Node.exposed_kept hn hi,hbyte]
    simp only [true_iff]
    omega
  · have hbyte : n.contents.byte i = 0 := if_neg hi
    rw [hbyte]
    exact ⟨fun h _ => h,fun h => h (by omega)⟩

theorem write_contents {n n' : Node} (hn : Owned n) {buf : List UInt8} {offset : Nat}
    {ret : Except Errno Nat} (hr : offset + buf.length < 2 ^ 64)
    (h : n.write buf offset = some (n',ret)) :
    Owned n' ∧ (n'.contents = n.contents.write buf offset ↔ n.HoleZero (.write buf offset)) := by
  by_cases hb : buf = []
  · subst hb
    simp only [Node.write,if_neg hn.regular,List.length_nil,if_true] at h
    cases h
    simp [Node.HoleZero,ZeroExtended.write,hn]
  obtain ⟨ho,hs,hbytes⟩ := Node.write_spec hn hb hr h
  refine ⟨ho,?_⟩
  rw [ZeroExtended.eq_write_iff hb hs fun i hi => (if_pos hi).trans (hbytes i hi)]
  have hsize : n'.contents.size = max n.data.size (offset + buf.length) := hs
  constructor
  · intro hkept _ i hsi hi
    exact (exposed_iff hn _ i).mp (hkept i (by omega) (by omega)) hsi
  · intro hole i hi hout
    exact (exposed_iff hn _ i).mpr fun hsi => hole hb i hsi (by omega)

theorem truncate_contents {n n' : Node} (hn : Owned n) {length : Nat} {ret : Except Errno Nat}
    (h : n.truncate length = some (n',ret)) :
    Owned n' ∧ (n'.contents = n.contents.truncate length ↔ n.HoleZero (.truncate length)) := by
  obtain ⟨ho,rfl,hbytes⟩ := Node.truncate_spec hn h
  refine ⟨ho,?_⟩
  refine (ZeroExtended.eq_truncate_iff fun i hi => (if_pos hi).trans (hbytes i hi)).trans ?_
  constructor
  · intro hkept i hsi hi
    exact (exposed_iff hn _ i).mp (hkept i hi) hsi
  · intro hole i hi
    exact (exposed_iff hn _ i).mpr fun hsi => hole i hsi hi

theorem step_contents {n n' : Node} {op : Op} (hn : Owned n) (hop : op.Representable)
    (h : Step n op n') :
    Owned n' ∧ (n'.contents = op.apply n.contents ↔ n.HoleZero op) := by
  cases h with
  | write h => exact write_contents hn hop h
  | truncate h => exact truncate_contents hn h
  | others hbase hptr hkept =>
    obtain ⟨ho,heq⟩ := others_contents hn hbase hptr hkept
    exact ⟨ho,by simp [ZeroExtended.Op.apply,heq,Node.HoleZero]⟩

def tracking : Tracking Step ZeroExtended.Op.apply where
  Inv := Backed
  View := ReadsAs
  Ok := ZeroExtended.Op.Representable
  Safe := Node.HoleZero
  inv_step := fun hi _ hop _ h => ⟨(step_contents hi.owned hop h).1,ZeroExtended.apply_size hi.size_lt hop⟩
  view_step := by
    intro n n' f op hi hv hop h
    obtain ⟨ho,hiff⟩ := step_contents hi.owned hop h
    obtain rfl := hv.contents_eq hi.owned hi.size_lt
    rw [← hiff]
    constructor
    · intro hv'
      exact hv'.contents_eq ho (ZeroExtended.apply_size hi.size_lt hop)
    · intro heq
      rw [← heq]
      exact readsAs_contents ho

theorem fresh_readsAs (heap : Bump) : ReadsAs (fresh heap) .empty := by
  have heq : (fresh heap).contents = .empty :=
    ZeroExtended.ext rfl fun i => by simp [fresh,Node.contents,ZeroExtended.empty]
  rw [← heq]
  exact readsAs_contents (fresh_owned heap)

theorem file_reads_zero_extended (heap : Bump) (ops : List Op)
    (hops : ∀ op ∈ ops, op.Representable) :
    (∀ pre, pre <+: ops → ∀ n, Runs Step (fresh heap) pre n →
        ∀ count offset, offset + count < 2 ^ 64 →
          n.read count offset = .ok ((pre.foldl ZeroExtended.Op.apply .empty).read count offset)) ↔
      ∀ pre op, pre ++ [op] <+: ops → ∀ n n', Runs Step (fresh heap) pre n → Step n op n' →
        n.HoleZero op :=
  tracking.view_iff_safe hops ⟨fresh_owned heap,by decide⟩ (fresh_readsAs heap)

def zeroHeap : Bump where
  bytes := fun _ => 0
  allocBase := 0xFFFF900000000000
  allocPtr := 0
  aligned := by decide
  fits := by decide
  inside := by decide

def shrunk : List Op := [.write [7,8] 0,.truncate 1]

theorem file_reads_zero_extended_shrunk :
    (∀ op ∈ shrunk, op.Representable) ∧
      ∀ pre, pre <+: shrunk → ∀ n, Runs Step (fresh zeroHeap) pre n →
        ∀ count offset, offset + count < 2 ^ 64 →
          n.read count offset = .ok ((pre.foldl ZeroExtended.Op.apply .empty).read count offset) := by
  have hops : ∀ op ∈ shrunk, op.Representable := by decide
  refine ⟨hops,(file_reads_zero_extended zeroHeap shrunk hops).mpr ?_⟩
  intro pre op hpre n n' hn _
  simp only [shrunk] at hpre
  match pre,hpre with
  | [],hpre =>
    obtain rfl : op = .write [7,8] 0 := by simpa using hpre
    intro _ i _ hi
    omega
  | [a],hpre =>
    obtain ⟨rfl,rfl⟩ : a = .write [7,8] 0 ∧ op = .truncate 1 := by simpa using hpre
    obtain ⟨u,⟨hw⟩,rfl⟩ := hn
    have hsize := (Node.write_spec (fresh_owned zeroHeap) (by simp) (by decide) hw).2.1
    intro i hsi hi
    simp [fresh] at hsize
    omega
  | _ :: _ :: _,hpre =>
    have := hpre.length_le
    simp at this

def rewritten : List Op := [.write [97] 0,.truncate 0,.truncate 1]

def written : Node × Except Errno Nat := ((fresh zeroHeap).write [97] 0).get (by decide +kernel)

def emptied : Node × Except Errno Nat := (written.1.truncate 0).get (by decide +kernel)

def regrown : Node × Except Errno Nat := (emptied.1.truncate 1).get (by decide +kernel)

theorem regrown_runs : Runs Step (fresh zeroHeap) rewritten regrown.1 :=
  ⟨written.1,.write (Option.some_get (by decide +kernel)).symm,
    emptied.1,.truncate (Option.some_get (by decide +kernel)).symm,
    regrown.1,.truncate (Option.some_get (by decide +kernel)).symm,rfl⟩

theorem truncated_byte_returns :
    ¬∀ (heap : Bump) (ops : List Op), (∀ op ∈ ops, op.Representable) →
      ∀ pre, pre <+: ops → ∀ n, Runs Step (fresh heap) pre n →
        ∀ count offset, offset + count < 2 ^ 64 →
          n.read count offset = .ok ((pre.foldl ZeroExtended.Op.apply .empty).read count offset) := by
  intro h
  have hread : regrown.1.read 1 0 = .ok [97] := by decide +kernel
  have hbad := h zeroHeap rewritten (by decide) _ (List.prefix_refl _) regrown.1 regrown_runs
    1 0 (by decide)
  rw [hread] at hbad
  revert hbad
  decide +kernel

section Growth

variable {n n' : Node} {heap : Bump} {ops : List Op} {length : Nat}

def Grows (size capacity : Nat) : Prop :=
  ∃ fuel c, growCapacity size fuel capacity = some c ∧ size ≤ c ∧ c < 2 ^ 64

theorem growTo_shape (hn : Quadruple n.data.capacity) (h : n.growTo length = some n') :
    Quadruple n'.data.capacity := by
  unfold Node.growTo at h
  split_ifs at h with hcap
  · simp only [Option.bind_eq_bind,Option.bind_eq_some_iff,Option.pure_def] at h
    obtain ⟨c,hc,_,-,h⟩ := h
    cases h
    exact (growCapacity_spec hc hn).2
  · cases h
    exact hn

theorem write_shape {buf : List UInt8} {offset : Nat} {ret : Except Errno Nat}
    (hn : Quadruple n.data.capacity) (h : n.write buf offset = some (n',ret)) :
    Quadruple n'.data.capacity := by
  unfold Node.write at h
  split_ifs at h with hdir hzero
  · cases h
    exact hn
  · cases h
    exact hn
  · simp only [Option.bind_eq_bind,Option.bind_eq_some_iff,Option.pure_def] at h
    obtain ⟨n₁,h₁,h⟩ := h
    cases h
    unfold Node.growPast at h₁
    show Quadruple n₁.data.capacity
    split_ifs at h₁ with hlt
    · exact growTo_shape hn h₁
    · cases h₁
      exact hn

theorem truncate_shape {ret : Except Errno Nat} (hn : Quadruple n.data.capacity)
    (h : n.truncate length = some (n',ret)) : Quadruple n'.data.capacity := by
  unfold Node.truncate at h
  split_ifs at h with hdir
  · cases h
    exact hn
  · simp only [Option.bind_eq_bind,Option.bind_eq_some_iff,Option.pure_def] at h
    obtain ⟨n₁,h₁,h⟩ := h
    cases h
    unfold Node.extend at h₁
    split_ifs at h₁ with hlt
    · simp only [Option.bind_eq_bind,Option.bind_eq_some_iff,Option.pure_def] at h₁
      obtain ⟨n₂,h₂,h₁⟩ := h₁
      cases h₁
      show Quadruple n₂.data.capacity
      exact growTo_shape hn h₂
    · cases h₁
      exact hn

theorem runs_shape (hn : Quadruple n.data.capacity) (hrun : Runs Step n ops n') :
    Quadruple n'.data.capacity := by
  induction ops generalizing n with
  | nil =>
    cases hrun
    exact hn
  | cons op ops ih =>
    obtain ⟨u,hstep,hrun⟩ := hrun
    refine ih ?_ hrun
    cases hstep with
    | write h => exact write_shape hn h
    | truncate h => exact truncate_shape hn h
    | others => exact hn

theorem grows_iff {size capacity : Nat} (hc : Quadruple capacity) :
    Grows size capacity ↔ size ≤ 2 ^ 62 := by
  constructor
  · rintro ⟨fuel,c,h,-,-⟩
    obtain ⟨hle,hq⟩ := growCapacity_spec h hc
    exact hle.trans hq.le
  · intro hsize
    obtain ⟨c,h⟩ := Option.isSome_iff_exists.mp ((growCapacity_isSome hc).mpr hsize)
    obtain ⟨hle,hq⟩ := growCapacity_spec h hc
    exact ⟨33,c,h,hle,hq.le.trans_lt (by decide)⟩

theorem growth_ends_iff (hrun : Runs Step (fresh heap) ops n) (size : Nat) :
    Grows size n.data.capacity ↔ size ≤ 2 ^ 62 := by
  have hfresh : Quadruple (fresh heap).data.capacity := .inl rfl
  exact grows_iff (runs_shape hfresh hrun)

theorem growth_ends_regrown : Runs Step (fresh zeroHeap) rewritten regrown.1 ∧
    Grows (2 ^ 62) regrown.1.data.capacity :=
  ⟨regrown_runs,(growth_ends_iff regrown_runs (2 ^ 62)).mpr le_rfl⟩

-- What `ftruncate` lets through goes up to 2^63 - 1.
theorem growth_hangs : Runs Step (fresh zeroHeap) [] (fresh zeroHeap) ∧ 2 ^ 62 + 1 ≤ 2 ^ 63 - 1 ∧
    ¬Grows (2 ^ 62 + 1) (fresh zeroHeap).data.capacity := by
  refine ⟨rfl,by decide,fun h => ?_⟩
  have hle := (grows_iff (.inl rfl)).mp h
  omega

end Growth

end SabaOS.Fs.Tmpfs
