import SabaOS.Userland.ElfActions

namespace SabaOS.Elf

open SabaOS.Klib SabaOS.Lib SabaOS.Sched

def userEnd : Nat := 2 ^ 47

def Action.maps (v : Nat) : Action → Prop
  | .map base length => base.toNat ≤ v ∧ v < base.toNat + length.toNat
  | _ => False

def Action.writes (v : Nat) : Action → Prop
  | .fill dst => dst.toNat ≤ v ∧ v < dst.toNat + 4096
  | .copy dst bytes => dst.toNat ≤ v ∧ v < dst.toNat + bytes.length
  | .path size bytes => size = 0 ∧ v < bytes.length
  | _ => False

structure Contained (actions : List Action) : Prop where
  asserts : .check false ∉ actions
  inside : ∀ a ∈ actions, ∀ v, a.writes v → ∃ mapping ∈ actions, mapping.maps v
  canonical : ∀ a ∈ actions, ∀ v, a.writes v → ¬ (userEnd ≤ v ∧ v < Mem.kernelBase)
  kernel : ∀ a ∈ actions, ∀ v, a.maps v ∨ a.writes v → v < Mem.kernelBase

inductive Demand where
  | range (base length : UInt64)
  | page (addr : UInt64)
  | block (size : UInt64)

def Action.demands : Action → List Demand
  | .map base length => [.range base length]
  | .fill dst => [.page dst]
  | .path size _ => if size = 0 then [] else [.block size]
  | _ => []

-- How much memory the kernel has: the demands, in order, that it can meet. A block larger than
-- the heap is none of them, also where the allocator's pointer wraps and its assertion passes.
structure Memory where
  serves : List Demand → Prop
  idle : serves []
  heap : ∀ demands, serves demands → ∀ size, .block size ∈ demands → size.toNat < Mem.heapSize

structure Robust (memory : Memory) (trace : List (List Action)) : Prop where
  contained : ∀ actions ∈ trace, Contained actions
  served : memory.serves (trace.flatten.flatMap Action.demands)

section Conditions

variable (file : File) (loadBase : UInt64) (withLdPath : Bool) (ph : ProgramHeader)

structure SegmentFits : Prop where
  sized : ph.fileSize = 0 ∨ 0 < ph.filePages ∧ ph.filePages ≤ ph.memPages
  user : ph.memPages = 0 ∨ (alignDown64 (segmentBase loadBase ph) 4096).toNat +
    ph.memPages.toNat * 4096 ≤ userEnd
  wrapped : 2 ^ 64 ≤ ph.fileSize.toNat + ph.misalign.toNat + 4095 →
    ph.misalign.toNat + (file.read ph.fileSize ph.offset).length ≤ ph.memPages.toNat * 4096

structure HeaderFits : Prop where
  segment : ph.type = ptLoad → SegmentFits file loadBase ph
  path : ph.type = ptInterp → withLdPath → ph.fileSize + 1 = 0 → file.read ph.fileSize ph.offset = []

def headerDemands : List Demand :=
  if ph.type = ptLoad then
    let first := alignDown64 (segmentBase loadBase ph) 4096
    .range first (ph.memPages * 4096) ::
      (List.range ph.memPages.toNat).map fun i => .page (first + i.toUInt64 * 4096)
  else if ph.type = ptInterp ∧ withLdPath ∧ ph.fileSize + 1 ≠ 0 then [.block (ph.fileSize + 1)]
  else []

end Conditions

section Segment

variable {file : File} {loadBase : UInt64} {ph : ProgramHeader} {i : Nat}

theorem range_toNat (ph : ProgramHeader) : (ph.memPages * 4096).toNat = ph.memPages.toNat * 4096 := by
  have h := pages_toNat ph.memPages_lt
  rwa [Nat.toUInt64_eq,UInt64.ofNat_toNat] at h

theorem first_mod (base : UInt64) : (alignDown64 base 4096).toNat % 4096 = 0 := by
  rw [alignDown64_toNat]
  exact Nat.mul_mod_left ..

theorem filePages_toNat (ph : ProgramHeader) : ph.filePages.toNat =
    (ph.fileSize.toNat + ph.misalign.toNat + 4095) % 2 ^ 64 / 4096 := pageCount_toNat _ _

theorem wrapped_pages (hf : 0 < ph.filePages)
    (hw : 2 ^ 64 ≤ ph.fileSize.toNat + ph.misalign.toNat + 4095) : ph.filePages = 1 := by
  have hp := filePages_toNat ph
  have hm := ph.misalign_lt
  have hs := ph.fileSize.toNat_lt
  have h0 := UInt64.lt_iff_toNat_lt.mp hf
  rw [← UInt64.toNat_inj]
  change ph.filePages.toNat = 1
  change 0 < ph.filePages.toNat at h0
  omega

variable (file) in
theorem copyOf_first (h : ph.filePages = 1) (base : UInt64) : copyOf file ph base (0 : Nat).toUInt64 =
    .copy (alignDown64 base 4096 + ph.misalign) (file.read ph.fileSize ph.offset) := by
  have h1 : ph.filled 1 = ph.fileSize := by
    apply ProgramHeader.filled_of_not_lt
    · decide
    · rw [h]
      decide
    · rw [h]
      decide
  simp [copyOf,h1]

variable (file loadBase ph) in
theorem map_mem : .map (alignDown64 (segmentBase loadBase ph) 4096) (ph.memPages * 4096) ∈
    segmentActions file ph loadBase := mem_segmentActions.mpr .map

variable (file loadBase) in
theorem fill_mem (hi : i < ph.memPages.toNat) :
    .fill (alignDown64 (segmentBase loadBase ph) 4096 + i.toUInt64 * 4096) ∈
      segmentActions file ph loadBase := mem_segmentActions.mpr (.fill hi)

variable (file loadBase) in
theorem copy_mem (hi : i < ph.memPages.toNat) (hf : i.toUInt64 < ph.filePages) :
    copyOf file ph (segmentBase loadBase ph) i.toUInt64 ∈ segmentActions file ph loadBase :=
  mem_segmentActions.mpr (.copy hi hf)

theorem mapped_of_contained (h : Contained (segmentActions file ph loadBase)) {v : Nat} {a : Action}
    (ha : a ∈ segmentActions file ph loadBase) (hv : a.writes v) :
    v < (alignDown64 (segmentBase loadBase ph) 4096).toNat + ph.memPages.toNat * 4096 := by
  obtain ⟨mapping,hmem,hmap⟩ := h.inside a ha v hv
  rw [mem_segmentActions] at hmem
  cases hmem with
  | map =>
    rw [← range_toNat]
    exact hmap.2
  | _ => exact hmap.elim

theorem fits_of_contained (h : Contained (segmentActions file ph loadBase)) :
    SegmentFits file loadBase ph := by
  have hsized := ph.filled_all_iff.mp (segment_asserts_iff.mp h.asserts)
  have hmod := first_mod (segmentBase loadBase ph)
  have hlt := (alignDown64 (segmentBase loadBase ph) 4096).toNat_lt
  have hm := ph.misalign_lt
  refine ⟨hsized,?_,?_⟩
  · rw [or_iff_not_imp_left]
    intro hne
    have hpos : 0 < ph.memPages.toNat := Nat.pos_of_ne_zero fun h => hne (UInt64.toNat_inj.mp h)
    have hend := h.kernel _ (map_mem file loadBase ph)
      ((alignDown64 (segmentBase loadBase ph) 4096).toNat + (ph.memPages.toNat * 4096 - 1))
      (.inl ⟨by omega,by rw [range_toNat]; omega⟩)
    have hfill := fill_mem file loadBase (Nat.sub_lt hpos Nat.one_pos)
    have hdst : (alignDown64 (segmentBase loadBase ph) 4096 +
        (ph.memPages.toNat - 1).toUInt64 * 4096).toNat =
        (alignDown64 (segmentBase loadBase ph) 4096).toNat + (ph.memPages.toNat - 1) * 4096 := by
      rw [UInt64.toNat_add,pages_toNat (by have := ph.memPages_lt; omega)]
      simp only [Mem.kernelBase] at hend
      omega
    have hlast := h.canonical _ hfill _ ⟨le_rfl,Nat.lt_add_of_pos_right (by decide)⟩
    rw [hdst] at hlast
    simp only [Mem.kernelBase,userEnd] at hend hlast ⊢
    omega
  · intro hw
    have hne : ph.fileSize ≠ 0 := by
      intro hz
      rw [hz] at hw
      change 2 ^ 64 ≤ 0 + ph.misalign.toNat + 4095 at hw
      omega
    obtain ⟨hf,hle⟩ := hsized.resolve_left hne
    have hone := wrapped_pages hf hw
    rw [hone] at hf hle
    have hpos : 0 < ph.memPages.toNat := UInt64.le_iff_toNat_le.mp hle
    have hstart : (alignDown64 (segmentBase loadBase ph) 4096 + ph.misalign).toNat =
        (alignDown64 (segmentBase loadBase ph) 4096).toNat + ph.misalign.toNat := by
      rw [UInt64.toNat_add]
      omega
    rcases Nat.eq_zero_or_pos (file.read ph.fileSize ph.offset).length with hz | hread
    · omega
    have hcopy := copy_mem file loadBase hpos (by rw [hone]; decide)
    rw [copyOf_first file hone] at hcopy
    have hlast := mapped_of_contained h
      (v := (alignDown64 (segmentBase loadBase ph) 4096).toNat + ph.misalign.toNat +
        ((file.read ph.fileSize ph.offset).length - 1)) hcopy
      ⟨by omega,by omega⟩
    omega

theorem copy_end (h : SegmentFits file loadBase ph) (hi : i < ph.memPages.toNat)
    (hf : i.toUInt64 < ph.filePages) :
    ph.misalign.toNat + (ph.filled i.toUInt64).toNat +
      (file.read (ph.filled (i.toUInt64 + 1) - ph.filled i.toUInt64)
        (ph.offset + ph.filled i.toUInt64)).length ≤ ph.memPages.toNat * 4096 := by
  have hlt := ph.memPages_lt
  have hm := ph.misalign_lt
  rcases Nat.lt_or_ge (ph.fileSize.toNat + ph.misalign.toNat + 4095) (2 ^ 64) with hfew | hw
  · have hF := ProgramHeader.filled_min hfew (hi.trans hlt)
    have hF' := ProgramHeader.filled_min hfew (show i + 1 < 2 ^ 52 from lt_of_le_of_lt hi hlt)
    have hread := file.read_length (ph.filled (i + 1).toUInt64 - ph.filled i.toUInt64)
      (ph.offset + ph.filled i.toUInt64)
    rw [UInt64.toNat_sub] at hread
    rw [← toUInt64_succ]
    omega
  · have hpos : 0 < ph.filePages := by
      rw [UInt64.lt_iff_toNat_lt] at hf ⊢
      exact lt_of_le_of_lt (Nat.zero_le _) hf
    have hone := wrapped_pages hpos hw
    have hz : i = 0 := by
      rw [hone,UInt64.lt_iff_toNat_lt,toUInt64_toNat (by omega)] at hf
      exact Nat.lt_one_iff.mp hf
    have hcopy := copyOf_first file hone (segmentBase loadBase ph)
    simp only [copyOf,Action.copy.injEq] at hcopy
    have hzero : (ph.filled (0 : Nat).toUInt64).toNat = 0 := by
      rw [show (0 : Nat).toUInt64 = 0 from rfl,ph.filled_zero]
      rfl
    rw [hz,hcopy.2,hzero]
    exact h.wrapped hw

theorem written_of_fits (h : SegmentFits file loadBase ph) {v : Nat} {a : Action}
    (ha : a ∈ segmentActions file ph loadBase) (hv : a.writes v) :
    (alignDown64 (segmentBase loadBase ph) 4096).toNat ≤ v ∧
      v < (alignDown64 (segmentBase loadBase ph) 4096).toNat + ph.memPages.toNat * 4096 := by
  have hlt := ph.memPages_lt
  have huser : 0 < ph.memPages.toNat → (alignDown64 (segmentBase loadBase ph) 4096).toNat +
      ph.memPages.toNat * 4096 ≤ userEnd := by
    intro hpos
    refine h.user.resolve_left fun hz => ?_
    rw [hz] at hpos
    cases hpos
  rw [userEnd] at huser
  rw [mem_segmentActions] at ha
  cases ha with
  | @fill i hi =>
    obtain ⟨h1,h2⟩ := hv
    rw [UInt64.toNat_add,pages_toNat (hi.trans hlt)] at h1 h2
    omega
  | @copy i hi hf =>
    have hend := copy_end h hi hf
    obtain ⟨h1,h2⟩ := hv
    rw [UInt64.toNat_add,UInt64.toNat_add] at h1 h2
    omega
  | _ => exact hv.elim

theorem segment_contained_iff :
    Contained (segmentActions file ph loadBase) ↔ SegmentFits file loadBase ph := by
  refine ⟨fits_of_contained,fun h => ?_⟩
  have hmap : ∀ v, Action.maps v
      (.map (alignDown64 (segmentBase loadBase ph) 4096) (ph.memPages * 4096)) → v < userEnd := by
    rintro v ⟨h1,h2⟩
    rw [range_toNat] at h2
    rcases h.user with hz | hu
    · rw [hz] at h2
      change v < _ + 0 * 4096 at h2
      omega
    · omega
  have hwrite : ∀ a ∈ segmentActions file ph loadBase, ∀ v, a.writes v → Action.maps v
      (.map (alignDown64 (segmentBase loadBase ph) 4096) (ph.memPages * 4096)) := by
    intro a ha v hv
    obtain ⟨h1,h2⟩ := written_of_fits h ha hv
    exact ⟨h1,by rwa [range_toNat]⟩
  have hbelow : userEnd < Mem.kernelBase := by decide
  refine ⟨segment_asserts_iff.mpr (ph.filled_all_iff.mpr h.sized),?_,?_,?_⟩
  · intro a ha v hv
    exact ⟨_,map_mem file loadBase ph,hwrite a ha v hv⟩
  · intro a ha v hv hin
    have hlt := hmap v (hwrite a ha v hv)
    omega
  · intro a ha v hv
    refine lt_trans (hmap v ?_) hbelow
    rcases hv with hv | hv
    · rw [mem_segmentActions] at ha
      cases ha with
      | map => exact hv
      | _ => exact hv.elim
    · exact hwrite a ha v hv

end Segment

section Run

variable {file : File} {loadBase : UInt64} {withLdPath : Bool} {ph : ProgramHeader}

theorem path_contained_iff {size : UInt64} {bytes : List UInt8} :
    Contained [.path size bytes] ↔ (size = 0 → bytes = []) := by
  constructor
  · intro h hz
    by_contra hne
    have hpos : 0 < bytes.length := List.length_pos_iff.mpr hne
    obtain ⟨mapping,hmem,hmap⟩ := h.inside _ (List.mem_singleton.mpr rfl) 0 ⟨hz,hpos⟩
    rw [List.mem_singleton.mp hmem] at hmap
    exact hmap
  · intro h
    have hno : ∀ a ∈ [Action.path size bytes], ∀ v, ¬ a.writes v := by
      rintro a ha v hv
      rw [List.mem_singleton.mp ha] at hv
      obtain ⟨hz,hlt⟩ := hv
      rw [h hz] at hlt
      exact absurd hlt (Nat.not_lt_zero v)
    refine ⟨by simp,?_,?_,?_⟩
    · exact fun a ha v hv => absurd hv (hno a ha v)
    · exact fun a ha v hv => absurd hv (hno a ha v)
    · rintro a ha v (hv | hv)
      · rw [List.mem_singleton.mp ha] at hv
        exact hv.elim
      · exact absurd hv (hno a ha v)

theorem header_contained_iff : Contained (headerActions file loadBase withLdPath ph) ↔
    HeaderFits file loadBase withLdPath ph := by
  rw [headerActions]
  split_ifs with ht hp
  · rw [segment_contained_iff]
    exact ⟨fun h => ⟨fun _ => h,fun hi => absurd (ht.symm.trans hi) (by decide)⟩,
      fun h => h.segment ht⟩
  · rw [path_contained_iff]
    exact ⟨fun h => ⟨fun hl => absurd hl ht,fun _ _ => h⟩,fun h => h.path hp.1 hp.2⟩
  · refine iff_of_true ?_ ⟨fun hl => absurd hl ht,fun hi hw => absurd ⟨hi,hw⟩ hp⟩
    exact ⟨by simp,by simp,by simp,by simp⟩

variable (file loadBase withLdPath) in
theorem headers_contained_iff (phs : List ProgramHeader) :
    (∀ actions ∈ headersActions file loadBase withLdPath phs, Contained actions) ↔
      ∀ ph ∈ phs, HeaderFits file loadBase withLdPath ph := by
  induction phs with
  | nil => simp [headersActions]
  | cons ph phs ih =>
    rw [List.forall_mem_cons,← header_contained_iff,headersActions]
    split_ifs with hfail
    · refine iff_of_false ?_ fun h => h.1.asserts hfail
      intro h
      exact (h _ (List.mem_singleton.mpr rfl)).asserts hfail
    · rw [List.forall_mem_cons,ih]

theorem headersActions_all {phs : List ProgramHeader}
    (h : ∀ ph ∈ phs, HeaderFits file loadBase withLdPath ph) :
    headersActions file loadBase withLdPath phs =
      phs.map (headerActions file loadBase withLdPath) := by
  induction phs with
  | nil => rfl
  | cons ph phs ih =>
    obtain ⟨hph,hphs⟩ := List.forall_mem_cons.mp h
    rw [headersActions,if_neg (header_contained_iff.mpr hph).asserts,ih hphs,List.map_cons]

theorem page_demands (file : File) (ph : ProgramHeader) (base i : UInt64) :
    (pageSteps file ph base i).flatMap Action.demands =
      [.page (alignDown64 base 4096 + i * 4096)] := by
  rw [pageSteps]
  split_ifs <;> rfl

theorem header_demands (ph : ProgramHeader) :
    (headerActions file loadBase withLdPath ph).flatMap Action.demands =
      headerDemands loadBase withLdPath ph := by
  rw [headerActions,headerDemands]
  split_ifs with ht hp hn hn
  · rw [segmentActions_eq]
    simp only [List.flatMap_append,List.flatMap_assoc,page_demands,← List.map_eq_flatMap]
    exact List.append_nil _
  · simp [Action.demands,hn.2.2]
  · have hz : ph.fileSize + 1 = 0 := by
      by_contra hne
      exact hn ⟨hp.1,hp.2,hne⟩
    simp [Action.demands,hz]
  · exact absurd ⟨hn.1,hn.2.1⟩ hp
  · rfl

theorem load_robust_iff (file : File) (loadBase : UInt64) (withLdPath : Bool) (memory : Memory) :
    Robust memory (loadActions file loadBase withLdPath) ↔
      ((readHeader file).accepted →
        (∀ ph ∈ file.programHeaders, HeaderFits file (file.loadBase loadBase) withLdPath ph) ∧
        memory.serves (file.programHeaders.flatMap
          (headerDemands (file.loadBase loadBase) withLdPath))) := by
  rw [loadActions]
  split_ifs with ha
  · have hiff := headers_contained_iff file (file.loadBase loadBase) withLdPath file.programHeaders
    have hdemands (h : ∀ ph ∈ file.programHeaders,
        HeaderFits file (file.loadBase loadBase) withLdPath ph) :
        (headersActions file (file.loadBase loadBase) withLdPath
          file.programHeaders).flatten.flatMap Action.demands =
          file.programHeaders.flatMap (headerDemands (file.loadBase loadBase) withLdPath) := by
      rw [headersActions_all h,← List.flatMap_def,List.flatMap_assoc]
      exact congrArg (fun f => file.programHeaders.flatMap f) (funext header_demands)
    constructor
    · rintro ⟨hcontained,hserved⟩ _
      have hfits := hiff.mp hcontained
      exact ⟨hfits,hdemands hfits ▸ hserved⟩
    · intro h
      obtain ⟨hfits,hserved⟩ := h ha
      exact ⟨hiff.mpr hfits,(hdemands hfits).symm ▸ hserved⟩
  · exact iff_of_true ⟨by simp,memory.idle⟩ fun h => absurd h ha

end Run

def plenty : Memory where
  serves demands := ∀ size, .block size ∈ demands → size.toNat < Mem.heapSize
  idle := by simp
  heap _ h := h

def oversizedBytes : List UInt8 := elfHeader 1 ++ loadHeaderBytes 0 0x1000 1 0

def kernelBytes : List UInt8 := elfHeader 1 ++ loadHeaderBytes 0 0xFFFF800000000000 1 1

theorem hostile_files :
    ¬ Robust plenty (loadActions (contentFile oversizedBytes) 0x560000000000 true) ∧
    ¬ Robust plenty (loadActions (contentFile kernelBytes) 0x560000000000 true) := by
  have hassert : .check false ∈
      (loadActions (contentFile oversizedBytes) 0x560000000000 true).flatten := by decide +kernel
  have hkernel : .fill 0xFFFF800000000000 ∈
      (loadActions (contentFile kernelBytes) 0x560000000000 true).flatten := by decide +kernel
  constructor
  · intro h
    obtain ⟨actions,hmem,hfail⟩ := List.mem_flatten.mp hassert
    exact (h.contained actions hmem).asserts hfail
  · intro h
    obtain ⟨actions,hmem,hfill⟩ := List.mem_flatten.mp hkernel
    have hlt := (h.contained actions hmem).kernel _ hfill 0xFFFF800000000000
      (.inr ⟨by decide,by decide⟩)
    exact absurd hlt (by decide)

end SabaOS.Elf
