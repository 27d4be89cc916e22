import SabaOS.Fs.Tmpfs
import SabaOS.Userland.ElfImage

namespace SabaOS.Elf

open SabaOS.Klib SabaOS.Lib SabaOS.Sched

def File.programHeaders (file : File) : List ProgramHeader :=
  let header := readHeader file
  (List.range header.phCount.toNat).map fun n =>
    readProgramHeader file (header.phTableOffset + n.toUInt64 * header.phEntrySize.toUInt64)

def File.segments (file : File) : List ProgramHeader :=
  file.programHeaders.filter fun ph => ph.type = ptLoad

def File.loadBase (file : File) (loadBase : UInt64) : UInt64 :=
  if (readHeader file).type = etExec then 0 else loadBase

section Headers

variable {file : File} {heap : Nat → List UInt8} {loadBase : UInt64} {withLdPath : Bool}
  {ph : ProgramHeader} {l : Loading}

theorem loadHeaders_foldlM (header : Header) (n : Nat) :
    loadHeaders file heap header loadBase withLdPath l n =
      ((List.range n).map fun i => readProgramHeader file
        (header.phTableOffset + i.toUInt64 * header.phEntrySize.toUInt64)).foldlM
          (fun l ph => loadHeader file heap ph loadBase withLdPath l) l := by
  induction n with
  | zero => rfl
  | succ n ih =>
    rw [loadHeaders,ih,List.range_succ,List.map_append,List.foldlM_append]
    simp

theorem loadHeader_load (h : ph.type = ptLoad) :
    loadHeader file heap ph loadBase withLdPath l = loadSegment file ph loadBase l := if_pos h

variable (file heap loadBase withLdPath l) in
theorem loadHeader_other (h : ph.type ≠ ptLoad) : ∃ l',
    loadHeader file heap ph loadBase withLdPath l = some l' ∧ l'.image = l.image ∧
      l'.firstFreeVirt = l.firstFreeVirt := by
  rw [loadHeader,if_neg h]
  split_ifs
  · exact ⟨_,rfl,rfl,rfl⟩
  · exact ⟨_,rfl,rfl,rfl⟩
  · exact ⟨_,rfl,rfl,rfl⟩

end Headers

theorem page_aligned {i : UInt64} : i % 4096 = 0 ↔ i.toNat % 4096 = 0 := by
  have h4096 : (4096 : UInt64).toNat = 4096 := rfl
  rw [← UInt64.toNat_inj,UInt64.toNat_mod,h4096]
  rfl

theorem alignUp64_page {i : UInt64} (h : i.toNat ≤ 2 ^ 64 - 4096) :
    (alignUp64 i 4096).toNat = (i.toNat + 4095) / 4096 * 4096 := by
  have h4096 : (4096 : UInt64).toNat = 4096 := rfl
  have h1 : (1 : UInt64).toNat = 1 := rfl
  rw [alignUp64]
  split_ifs with hm
  · rw [ne_eq,page_aligned] at hm
    rw [UInt64.toNat_mul,UInt64.toNat_add,UInt64.toNat_div,h4096,h1]
    omega
  · rw [ne_eq,not_not,page_aligned] at hm
    omega

noncomputable def layerOf (content : List UInt8) (loadBase : UInt64) (ph : ProgramHeader) : Layer Nat UInt8 0 :=
  segmentLayer content (segmentBase loadBase ph) ph

section Run

variable {file : File} {content : List UInt8} {heap : Nat → List UInt8} {loadBase : UInt64}
  {withLdPath : Bool} {ph : ProgramHeader} {phs : List ProgramHeader} {l l' l'' : Loading}

structure Carried (content : List UInt8) (loadBase : UInt64) (phs : List ProgramHeader)
    (l l' : Loading) : Prop where
  bytes : l'.image.bytes = Layer.stack l.image.bytes
    (phs.map (layerOf content loadBase))
  grows : l.firstFreeVirt.toNat ≤ l'.firstFreeVirt.toNat
  bounded : l.firstFreeVirt.toNat ≤ 2 ^ 64 - 4096 → l'.firstFreeVirt.toNat ≤ 2 ^ 64 - 4096
  past : ∀ ph ∈ phs, 0 < ph.memPages.toNat → (segmentBase loadBase ph).toNat +
    (ph.memPages.toNat - 1) * 4096 < l'.firstFreeVirt.toNat

theorem Carried.nil (himage : l'.image = l.image) (hfree : l'.firstFreeVirt = l.firstFreeVirt) :
    Carried content loadBase [] l l' where
  bytes := by rw [himage]; rfl
  grows := by rw [hfree]
  bounded := by simp [hfree]
  past := by simp

theorem Carried.cons (h : Carried content loadBase [ph] l l') (h' : Carried content loadBase phs l' l'') :
    Carried content loadBase (ph :: phs) l l'' where
  bytes := by
    rw [h'.bytes,h.bytes]
    rfl
  grows := h.grows.trans h'.grows
  bounded hb := h'.bounded (h.bounded hb)
  past p hp hpos := by
    rcases List.mem_cons.mp hp with rfl | hp
    · exact lt_of_lt_of_le (h.past p (List.mem_singleton.mpr rfl) hpos) h'.grows
    · exact h'.past p hp hpos

theorem loadSegment_carried (h : Placed content (segmentBase loadBase ph) ph)
    (hst : file.Stores content) :
    ∃ l', loadSegment file ph loadBase l = some l' ∧ Carried content loadBase [ph] l l' := by
  obtain ⟨h1,h2,h3⟩ := h.raisedPages_bounds l.firstFreeVirt le_rfl
  rw [loadSegment_eq]
  dsimp only
  rw [if_pos h.filled_all]
  refine ⟨_,rfl,?_,UInt64.le_iff_toNat_le.mp h1,?_,?_⟩
  · exact h.pagesBytes_put hst
  · intro hb
    have hf := h.fits
    have hm := h.memPages_toNat
    have hml := ph.misalign_lt
    dsimp only
    omega
  · intro p hp hpos
    rw [List.mem_singleton.mp hp] at hpos ⊢
    exact h2 hpos

variable (heap withLdPath) in
theorem segments_carried (l : Loading) (hst : file.Stores content)
    (hphs : ∀ ph ∈ phs.filter fun ph => ph.type = ptLoad,
      Placed content (segmentBase loadBase ph) ph) :
    ∃ l', phs.foldlM (fun l ph => loadHeader file heap ph loadBase withLdPath l) l = some l' ∧
      Carried content loadBase (phs.filter fun ph => ph.type = ptLoad) l l' := by
  induction phs generalizing l with
  | nil => exact ⟨l,rfl,.nil rfl rfl⟩
  | cons ph phs ih =>
    rw [List.foldlM_cons]
    rcases Classical.em (ph.type = ptLoad) with ht | ht
    · rw [List.filter_cons_of_pos (by simpa using ht)] at hphs ⊢
      obtain ⟨hph,hphs⟩ := List.forall_mem_cons.mp hphs
      obtain ⟨l1,h1,c1⟩ := loadSegment_carried (l := l) hph hst
      obtain ⟨l2,h2,c2⟩ := ih l1 hphs
      refine ⟨l2,?_,c1.cons c2⟩
      rw [loadHeader_load ht,h1]
      exact h2
    · rw [List.filter_cons_of_neg (by simpa using ht)] at hphs ⊢
      obtain ⟨l1,h1,himage,hfree⟩ := loadHeader_other file heap loadBase withLdPath l ht
      obtain ⟨l2,h2,c2⟩ := ih l1 hphs
      refine ⟨l2,?_,?_⟩
      · rw [h1]
        exact h2
      · exact ⟨by rw [c2.bytes,himage],hfree ▸ c2.grows,hfree ▸ c2.bounded,c2.past⟩

end Run

section Right

variable (file : File) (content : List UInt8) (heap : Nat → List UInt8) (image : Image)
  (loadBase : UInt64) (withLdPath : Bool) (firstFreeVirt : UInt64)

structure Loadable : Prop where
  accepted : (readHeader file).accepted
  stored : file.Stores content
  sized : ∀ ph ∈ file.segments, ph.fileSize ≤ ph.memSize
  present : ∀ ph ∈ file.segments, ph.offset.toNat + ph.fileSize.toNat ≤ content.length
  fits : ∀ ph ∈ file.segments,
    (segmentBase (file.loadBase loadBase) ph).toNat + ph.memSize.toNat + 3 * 4096 ≤ 2 ^ 64
  apart : file.segments.Pairwise fun ph ph' =>
    ∀ a ∈ bytesOf (segmentBase (file.loadBase loadBase) ph) ph,
      a ∉ bytesOf (segmentBase (file.loadBase loadBase) ph') ph'

structure LoadsRight (loaded : Loaded) : Prop where
  bytes : ∀ ph ∈ file.segments, ∀ k < ph.memSize.toNat,
    loaded.image.bytes ((segmentBase (file.loadBase loadBase) ph).toNat + k) =
      segmentByte content ph k
  aligned : loaded.firstFreeVirt % 4096 = 0
  above : ∀ ph ∈ file.segments, 0 < ph.memSize →
    (segmentBase (file.loadBase loadBase) ph).toNat + ph.memSize.toNat ≤
      loaded.firstFreeVirt.toNat

def PagesUnshared : Prop := file.segments.Pairwise fun ph ph' =>
  ∀ k < ph.fileSize.toNat, content.getD (ph.offset.toNat + k) 0 ≠ 0 →
    (segmentBase (file.loadBase loadBase) ph).toNat + k ∉
      pagesOf (segmentBase (file.loadBase loadBase) ph') ph'

end Right

section Result

variable {file : File} {content : List UInt8} {heap : Nat → List UInt8} {image : Image}
  {loadBase : UInt64} {withLdPath : Bool} {firstFreeVirt : UInt64} {ph : ProgramHeader}

theorem base_mod (file : File) (ph : ProgramHeader) (h : loadBase % 4096 = 0) :
    (segmentBase (file.loadBase loadBase) ph).toNat % 4096 = ph.virtAddr.toNat % 4096 := by
  have h4096 : (4096 : UInt64).toNat = 4096 := rfl
  have h0 : (0 : UInt64).toNat = 0 := rfl
  have hmod : (file.loadBase loadBase).toNat % 4096 = 0 := by
    rw [File.loadBase]
    split_ifs
    · rfl
    · rw [← h4096,← UInt64.toNat_mod,h,h0]
  rw [segmentBase,UInt64.toNat_add]
  omega

theorem Loadable.placed (h : Loadable file content loadBase) (hbase : loadBase % 4096 = 0) :
    ∀ ph ∈ file.segments, Placed content (segmentBase (file.loadBase loadBase) ph) ph :=
  fun ph hph =>
    ⟨base_mod file ph hbase,h.fits ph hph,h.sized ph hph,h.present ph hph⟩

theorem load_eq (h : (readHeader file).accepted) :
    load file heap image loadBase withLdPath firstFreeVirt =
      (file.programHeaders.foldlM
        (fun l ph => loadHeader file heap ph (file.loadBase loadBase) withLdPath l)
          ⟨image,firstFreeVirt,~~~0,none,0⟩).map fun l => .ok
        { image := l.image
          firstFreeVirt := alignUp64 l.firstFreeVirt 4096
          ldPath := l.ldPath
          auxv :=
            { atEntry := file.loadBase loadBase + (readHeader file).entryAddr
              atPhdr := if l.atPhdr = 0 then l.fileVirtBase + (readHeader file).phTableOffset
                else l.atPhdr
              atPhent := (readHeader file).phEntrySize.toUInt64
              atPhnum := (readHeader file).phCount.toUInt64 } } := by
  simp only [load,h,if_true,loadHeaders_foldlM,Option.pure_def,Option.bind_eq_bind]
  exact Option.map_eq_bind.symm

theorem spares_iff {base base' : UInt64} {ph ph' : ProgramHeader} (h : Placed content base ph) :
    Layer.Spares (segmentLayer content base ph) (segmentLayer content base' ph') ↔
      ∀ k < ph.fileSize.toNat, content.getD (ph.offset.toNat + k) 0 ≠ 0 →
        base.toNat + k ∉ pagesOf base' ph' := by
  have hs := UInt64.le_iff_toNat_le.mp h.sized
  have hpart := h.part_eq
  constructor
  · intro hspare k hk hne hmem
    have hin : base.toNat + k ∈ (segmentLayer content base ph).part := by
      rw [hpart]
      exact ⟨by omega,by omega⟩
    have hz := hspare _ hin hmem
    rw [h.paint_eq (by omega),segmentByte,if_pos hk] at hz
    exact hne hz
  · intro hclear a ha hmem
    rw [hpart] at ha
    obtain ⟨k,rfl⟩ := Nat.exists_eq_add_of_le ha.1
    rw [h.paint_eq (Nat.lt_of_add_lt_add_left ha.2),segmentByte]
    split_ifs with hk
    · by_contra hne
      exact hclear k hk hne hmem
    · rfl

theorem shows_iff (h : Placed content (segmentBase (file.loadBase loadBase) ph) ph) (m : Bytes) :
    Layer.Shows m (segmentLayer content (segmentBase (file.loadBase loadBase) ph) ph) ↔
      ∀ k < ph.memSize.toNat, m ((segmentBase (file.loadBase loadBase) ph).toNat + k) =
        segmentByte content ph k := by
  rw [Layer.Shows,h.part_eq]
  constructor
  · intro hshow k hk
    rw [← h.paint_eq hk]
    exact hshow _ ⟨by omega,by omega⟩
  · rintro hbytes a ⟨h1,h2⟩
    obtain ⟨k,rfl⟩ := Nat.exists_eq_add_of_le h1
    have hk : k < ph.memSize.toNat := Nat.lt_of_add_lt_add_left h2
    rw [h.paint_eq hk,hbytes k hk]

theorem bytes_right_iff (hload : Loadable file content loadBase) (hbase : loadBase % 4096 = 0)
    (m : Bytes) :
    (∀ ph ∈ file.segments, ∀ k < ph.memSize.toNat,
      Layer.stack m (file.segments.map (layerOf content (file.loadBase loadBase)))
        ((segmentBase (file.loadBase loadBase) ph).toNat + k) = segmentByte content ph k) ↔
      PagesUnshared file content loadBase := by
  have hplaced := hload.placed hbase
  have hdis : (file.segments.map (layerOf content (file.loadBase loadBase))).Pairwise
      Layer.Apart := by
    rw [List.pairwise_map]
    refine hload.apart.imp_of_mem ?_
    intro ph ph' hph hph' hd
    rwa [Layer.Apart,layerOf,layerOf,(hplaced ph hph).part_eq,(hplaced ph' hph').part_eq]
  have hall := Layer.all_show_iff (m := m) hdis
  rw [List.forall_mem_map,List.pairwise_map] at hall
  constructor
  · intro hbytes
    have hspare := hall.mp fun ph hph => (shows_iff (hplaced ph hph) _).mpr (hbytes ph hph)
    refine hspare.imp_of_mem ?_
    intro ph ph' hph _ h
    exact (spares_iff (hplaced ph hph)).mp h
  · intro hun ph hph
    refine (shows_iff (hplaced ph hph) _).mp (hall.mpr (hun.imp_of_mem ?_) ph hph)
    intro ph ph' hph _ h
    exact (spares_iff (hplaced ph hph)).mpr h

theorem load_right_iff (heap : Nat → List UInt8) (image : Image) (withLdPath : Bool)
    (hload : Loadable file content loadBase) (hbase : loadBase % 4096 = 0)
    (hfree : firstFreeVirt % 4096 = 0) : ∃ loaded,
      load file heap image loadBase withLdPath firstFreeVirt = some (.ok loaded) ∧
        (LoadsRight file content loadBase loaded ↔ PagesUnshared file content loadBase) := by
  have hplaced := hload.placed hbase
  obtain ⟨l,hl,hc⟩ := segments_carried heap withLdPath ⟨image,firstFreeVirt,~~~0,none,0⟩
    hload.stored hplaced
  rw [load_eq hload.accepted,hl]
  refine ⟨_,rfl,?_⟩
  have hbound : l.firstFreeVirt.toNat ≤ 2 ^ 64 - 4096 := by
    apply hc.bounded
    have hlt := firstFreeVirt.toNat_lt
    rw [page_aligned] at hfree
    dsimp only
    omega
  have halign := alignUp64_page hbound
  have hbytes := bytes_right_iff hload hbase image.bytes
  constructor
  · intro hright
    refine hbytes.mp ?_
    intro ph hph k hk
    rw [← hright.bytes ph hph k hk]
    exact (congrFun hc.bytes _).symm
  · intro hun
    refine ⟨?_,?_,?_⟩
    · intro ph hph k hk
      rw [← hbytes.mpr hun ph hph k hk]
      exact congrFun hc.bytes _
    · rw [page_aligned]
      dsimp only
      rw [halign]
      omega
    · intro ph hph hpos
      have h := hplaced ph hph
      have hb := h.base_eq
      have hm := h.memPages_toNat
      have hml := ph.misalign_lt
      have h4096 : (4096 : UInt64).toNat = 4096 := rfl
      have hdown := alignDown64_toNat (segmentBase (file.loadBase loadBase) ph) 4096
      have hpos' : 0 < ph.memSize.toNat := UInt64.lt_iff_toNat_lt.mp hpos
      have hlast := hc.past ph hph (by omega)
      rw [h4096] at hdown
      dsimp only
      rw [halign]
      omega

end Result

section Files

def readContent (content : List UInt8) (count offset : UInt64) : List UInt8 :=
  (content.drop offset.toNat).take count.toNat

theorem readContent_length (content : List UInt8) (count offset : UInt64) :
    (readContent content count offset).length ≤ count.toNat := List.length_take_le _ _

def contentFile (content : List UInt8) : File := ⟨readContent content,readContent_length content⟩

theorem contentFile_stores {content : List UInt8} (h : content.length < 2 ^ 64) :
    (contentFile content).Stores content where
  size := h
  read _ _ _ := rfl

def elfHeader (phCount : Nat) : List UInt8 :=
  elfMagic ++ [elfClass64,elfData2Lsb,1,elfOsabiSysv] ++ leBytes 8 0 ++ leBytes 2 2 ++
    leBytes 2 62 ++ leBytes 4 1 ++ words [0x1000,64,0] ++ leBytes 4 0 ++ leBytes 2 64 ++
    leBytes 2 56 ++ leBytes 2 phCount ++ leBytes 6 0

def loadHeaderBytes (offset virtAddr fileSize memSize : Nat) : List UInt8 :=
  leBytes 4 1 ++ leBytes 4 7 ++ words [offset,virtAddr,0,fileSize,memSize,0x1000]

def sharedSegments : List ProgramHeader := [⟨1,0,0x1000,1,1⟩,⟨1,0,0x1800,0,1⟩]

def sharedBytes : List UInt8 :=
  elfHeader 2 ++ loadHeaderBytes 0 0x1000 1 1 ++ loadHeaderBytes 0 0x1800 0 1

def swappedBytes : List UInt8 :=
  elfHeader 2 ++ loadHeaderBytes 0 0x1800 0 1 ++ loadHeaderBytes 0 0x1000 1 1

theorem shared_apart : sharedSegments.Pairwise fun ph ph' =>
    ∀ a ∈ bytesOf (segmentBase 0 ph) ph, a ∉ bytesOf (segmentBase 0 ph') ph' := by
  rw [sharedSegments,List.pairwise_pair]
  rintro a ⟨_,h1⟩ ⟨h2,_⟩
  change a < 0x1001 at h1
  change 0x1800 ≤ a at h2
  omega

theorem loadable_shared {content : List UInt8} {segments : List ProgramHeader}
    (hperm : segments.Perm sharedSegments) (hseg : (contentFile content).segments = segments)
    (haccepted : (readHeader (contentFile content)).accepted)
    (hbase : (contentFile content).loadBase 0 = 0) (hpos : 0 < content.length)
    (hlen : content.length < 2 ^ 64) : Loadable (contentFile content) content 0 where
  accepted := haccepted
  stored := contentFile_stores hlen
  sized ph hph := by
    rw [hseg,hperm.mem_iff] at hph
    revert ph
    decide
  present ph hph := by
    rw [hseg,hperm.mem_iff] at hph
    have hone : ∀ ph ∈ sharedSegments, ph.offset.toNat + ph.fileSize.toNat ≤ 1 := by decide
    exact (hone ph hph).trans hpos
  fits ph hph := by
    rw [hseg,hperm.mem_iff] at hph
    rw [hbase]
    revert ph
    decide
  apart := by
    rw [hseg,hbase]
    exact (hperm.pairwise_iff fun h a ha hb => h a hb ha).mpr shared_apart

example : ((contentFile sharedBytes).segments.map (·.virtAddr)) = sharedSegments.map (·.virtAddr) := by
  decide +kernel

theorem sharedBytes_segments : (contentFile sharedBytes).segments = sharedSegments := by
  decide +kernel

theorem sharedBytes_base : (contentFile sharedBytes).loadBase 0 = 0 := by decide +kernel

theorem sharedBytes_loadable : Loadable (contentFile sharedBytes) sharedBytes 0 :=
  loadable_shared (.refl _) sharedBytes_segments (by decide +kernel) sharedBytes_base
    (by decide +kernel) (by decide +kernel)

theorem shared_page_cleared : Loadable (contentFile sharedBytes) sharedBytes 0 ∧
    ∃ loaded, load (contentFile sharedBytes) (fun _ => []) {} 0 true 0 = some (.ok loaded) ∧
      ¬ LoadsRight (contentFile sharedBytes) sharedBytes 0 loaded := by
  have hload : ((load (contentFile sharedBytes) (fun _ => []) {} 0 true 0).map fun r =>
      r.toOption.map fun loaded => loaded.image.bytes 0x1000) = some (some 0) := by decide +kernel
  refine ⟨sharedBytes_loadable,?_⟩
  obtain ⟨r,hr,hr0⟩ := Option.map_eq_some_iff.mp hload
  obtain ⟨loaded,hok,h0⟩ := Option.map_eq_some_iff.mp hr0
  cases r with
  | error e => cases hok
  | ok loaded =>
    cases hok
    refine ⟨loaded,hr,fun hright => ?_⟩
    have h := hright.bytes ⟨1,0,0x1000,1,1⟩ (by rw [sharedBytes_segments]; decide) 0 (by decide)
    rw [sharedBytes_base] at h
    exact absurd (h0.symm.trans h) (by decide +kernel)

example : (contentFile swappedBytes).segments.length = sharedSegments.length := by decide +kernel

theorem swappedBytes_segments : (contentFile swappedBytes).segments = sharedSegments.reverse := by
  decide +kernel

theorem swappedBytes_base : (contentFile swappedBytes).loadBase 0 = 0 := by decide +kernel

theorem swapped_loads_right : ∃ loaded,
    load (contentFile swappedBytes) (fun _ => []) {} 0 true 0 = some (.ok loaded) ∧
      LoadsRight (contentFile swappedBytes) swappedBytes 0 loaded := by
  have hload : Loadable (contentFile swappedBytes) swappedBytes 0 :=
    loadable_shared (.swap ..) swappedBytes_segments (by decide +kernel) swappedBytes_base
      (by decide +kernel) (by decide +kernel)
  have hun : PagesUnshared (contentFile swappedBytes) swappedBytes 0 := by
    rw [PagesUnshared,swappedBytes_segments]
    refine List.pairwise_pair.mpr fun k hk => ?_
    cases hk
  obtain ⟨loaded,hl,hiff⟩ := load_right_iff (fun _ => []) {} true hload rfl (rfl : (0 : UInt64) % 4096 = 0)
  exact ⟨loaded,hl,hiff.mpr hun⟩

end Files

end SabaOS.Elf
