import SabaOS.Mem.Vm
import SabaOS.Userland.ElfLoad

namespace SabaOS.Elf

open SabaOS.Klib SabaOS.Lib SabaOS.Sched

-- What the loader does to memory, in program order; `copy` and `path` hold the bytes that `read`
-- stores.
inductive Action where
  | check (ok : Bool)
  | map (base length : UInt64)
  | fill (dst : UInt64)
  | copy (dst : UInt64) (bytes : List UInt8)
  | path (size : UInt64) (bytes : List UInt8)
deriving DecidableEq, Repr

def pageActions (file : File) (ph : ProgramHeader) (base i total : UInt64) : List Action × UInt64 :=
  let misalign := ph.virtAddr &&& 0xfff
  let filePageCount := pageCount ph.fileSize misalign
  let dst := alignDown64 base 4096 + i * 4096
  if i < filePageCount then
    let offset := ph.offset + i * 4096
    let (start,size,offset) :=
      if i = 0 then (dst + misalign,4096 - misalign,offset) else (dst,4096,offset - misalign)
    let size := if i = filePageCount - 1 then ph.fileSize - total else size
    ([.fill dst,.copy start (file.read size offset)],total + size)
  else ([.fill dst],total)

def pagesActions (file : File) (ph : ProgramHeader) (base : UInt64) : Nat → List Action × UInt64
  | 0 => ([],0)
  | n + 1 =>
    let (done,total) := pagesActions file ph base n
    let (actions,total) := pageActions file ph base n.toUInt64 total
    (done ++ actions,total)

def mapAnonymousActions (base length flags : UInt64) : List Action :=
  [.check (flags &&& Mem.pagePresent ≠ 0),.map base length]

def segmentActions (file : File) (ph : ProgramHeader) (loadBase : UInt64) : List Action :=
  let memPageCount := pageCount ph.memSize (ph.virtAddr &&& 0xfff)
  let base := loadBase + ph.virtAddr
  let (pages,total) := pagesActions file ph base memPageCount.toNat
  mapAnonymousActions (alignDown64 base 4096) (memPageCount * 4096) pageFlags ++ pages ++
    [.check (total = ph.fileSize)]

def headerActions (file : File) (loadBase : UInt64) (withLdPath : Bool) (ph : ProgramHeader) :
    List Action :=
  if ph.type = ptLoad then segmentActions file ph loadBase
  else if ph.type = ptInterp ∧ withLdPath then
    [.path (ph.fileSize + 1) (file.read ph.fileSize ph.offset)]
  else []

def headersActions (file : File) (loadBase : UInt64) (withLdPath : Bool) :
    List ProgramHeader → List (List Action)
  | [] => []
  | ph :: phs =>
    let actions := headerActions file loadBase withLdPath ph
    if .check false ∈ actions then [actions]
    else actions :: headersActions file loadBase withLdPath phs

def loadActions (file : File) (loadBase : UInt64) (withLdPath : Bool) : List (List Action) :=
  if (readHeader file).accepted then
    headersActions file (file.loadBase loadBase) withLdPath file.programHeaders
  else []

def Action.replay (image : Image) : Action → Image
  | .map base length => image.mapAnonymous base length pageFlags
  | .fill dst => { image with bytes := memset image.bytes dst.toNat 0 4096 }
  | .copy dst bytes => { image with bytes := copyIn image.bytes dst.toNat bytes }
  | .check _ => image
  | .path _ _ => image

def replay (image : Image) (actions : List Action) : Image := actions.foldl Action.replay image

section Pages

variable {file : File} {ph : ProgramHeader} {base loadBase : UInt64} {image : Image} {n : Nat}

def copyOf (file : File) (ph : ProgramHeader) (base i : UInt64) : Action :=
  .copy (alignDown64 base 4096 + ph.misalign + ph.filled i)
    (file.read (ph.filled (i + 1) - ph.filled i) (ph.offset + ph.filled i))

def pageSteps (file : File) (ph : ProgramHeader) (base i : UInt64) : List Action :=
  .fill (alignDown64 base 4096 + i * 4096) ::
    if i < ph.filePages then [copyOf file ph base i] else []

theorem pageActions_eq (i : UInt64) (hi : i.toNat < 2 ^ 52) :
    pageActions file ph base i (ph.filled i) =
      (pageSteps file ph base i,ph.filled (i + 1)) := by
  have hm : ph.virtAddr &&& 0xfff = ph.misalign := rfl
  have hf : pageCount ph.fileSize ph.misalign = ph.filePages := rfl
  simp only [pageActions,pageSteps,hm,hf]
  rcases Classical.em (i < ph.filePages) with h | h
  · have ht : ph.filled i + (ph.filled (i + 1) - ph.filled i) = ph.filled (i + 1) := by grind
    rw [if_pos h,if_pos h,ph.filled_place _ h]
    dsimp only
    rw [ph.filled_size hi h,ht]
    rfl
  · rw [if_neg h,if_neg h,ph.filled_idle hi h]

theorem pagesActions_eq (hn : n ≤ 2 ^ 52) : pagesActions file ph base n =
    ((List.range n).flatMap fun i => pageSteps file ph base i.toUInt64,
      ph.filled n.toUInt64) := by
  induction n with
  | zero =>
    rw [show (0 : Nat).toUInt64 = 0 from rfl,ph.filled_zero]
    rfl
  | succ n ih =>
    have hlt : n.toUInt64.toNat < 2 ^ 52 := by
      rw [toUInt64_toNat (by omega)]
      omega
    rw [pagesActions,ih (by omega)]
    dsimp only
    rw [pageActions_eq _ hlt,toUInt64_succ,List.range_succ,List.flatMap_append]
    simp

theorem segmentActions_eq : segmentActions file ph loadBase =
    let base := segmentBase loadBase ph
    [.check true,.map (alignDown64 base 4096) (ph.memPages * 4096)] ++
      ((List.range ph.memPages.toNat).flatMap fun i => pageSteps file ph base i.toUInt64) ++
      [.check (ph.filled ph.memPages = ph.fileSize)] := by
  have hm : pageCount ph.memSize (ph.virtAddr &&& 0xfff) = ph.memPages := rfl
  have hle : ph.memPages.toNat ≤ 2 ^ 52 := ph.memPages_lt.le
  simp only [segmentActions,hm,pagesActions_eq hle,Nat.toUInt64_eq,UInt64.ofNat_toNat]
  rfl

theorem replay_append (image : Image) (first second : List Action) :
    replay image (first ++ second) = replay (replay image first) second := List.foldl_append

theorem replay_page (i : UInt64) : replay image (pageSteps file ph base i) =
    { image with bytes := pageBytes file ph base i image.bytes } := by
  rw [pageSteps,pageBytes]
  split_ifs <;> rfl

theorem replay_pages (n : Nat) :
    replay image ((List.range n).flatMap fun i => pageSteps file ph base i.toUInt64) =
      { image with bytes := pagesBytes file ph base image.bytes n } := by
  induction n with
  | zero => rfl
  | succ n ih =>
    rw [List.range_succ,List.flatMap_append,replay_append,ih,List.flatMap_cons,List.flatMap_nil,
      List.append_nil,replay_page]
    rfl

inductive SegmentStep (file : File) (ph : ProgramHeader) (base : UInt64) : Action → Prop
  | mapped : SegmentStep file ph base (.check true)
  | map : SegmentStep file ph base (.map (alignDown64 base 4096) (ph.memPages * 4096))
  | fill {i : Nat} : i < ph.memPages.toNat →
      SegmentStep file ph base (.fill (alignDown64 base 4096 + i.toUInt64 * 4096))
  | copy {i : Nat} : i < ph.memPages.toNat → i.toUInt64 < ph.filePages →
      SegmentStep file ph base (copyOf file ph base i.toUInt64)
  | total : SegmentStep file ph base (.check (ph.filled ph.memPages = ph.fileSize))

theorem mem_segmentActions {a : Action} :
    a ∈ segmentActions file ph loadBase ↔ SegmentStep file ph (segmentBase loadBase ph) a := by
  rw [segmentActions_eq]
  simp only [List.mem_append,List.mem_cons,List.not_mem_nil,or_false,List.mem_flatMap,
    List.mem_range,pageSteps,List.mem_ite_nil_right]
  constructor
  · rintro (((rfl | rfl) | ⟨i,hi,rfl | ⟨hf,rfl⟩⟩) | rfl)
    · exact .mapped
    · exact .map
    · exact .fill hi
    · exact .copy hi hf
    · exact .total
  · rintro (_ | _ | hi | ⟨hi,hf⟩ | _)
    · exact .inl (.inl (.inl rfl))
    · exact .inl (.inl (.inr rfl))
    · exact .inl (.inr ⟨_,hi,.inl rfl⟩)
    · exact .inl (.inr ⟨_,hi,.inr ⟨hf,rfl⟩⟩)
    · exact .inr rfl

theorem segment_asserts_iff : .check false ∉ segmentActions file ph loadBase ↔
    ph.filled ph.memPages = ph.fileSize := by
  rw [mem_segmentActions]
  constructor
  · intro h
    by_contra hne
    refine h ?_
    rw [← decide_eq_false hne]
    exact .total
  · intro h hstep
    generalize ha : Action.check false = a at hstep
    cases hstep with
    | total => simp [h] at ha
    | _ => cases ha

structure Replays (image : Image) (actions : List Action) (result : Option Loading) : Prop where
  fails : result = none ↔ .check false ∈ actions
  image_eq : ∀ l, result = some l → l.image = replay image actions

theorem segment_replays (l : Loading) :
    Replays l.image (segmentActions file ph loadBase) (loadSegment file ph loadBase l) := by
  rw [loadSegment_eq]
  dsimp only
  split_ifs with h
  · refine ⟨iff_of_false (by simp) (segment_asserts_iff.mpr h),?_⟩
    rintro l' hl
    cases hl
    rw [segmentActions_eq,replay_append,replay_append]
    rw [show replay l.image _ = Image.mapAnonymous l.image _ _ pageFlags from rfl,replay_pages]
    rfl
  · refine ⟨iff_of_true rfl (not_not.mp (mt segment_asserts_iff.mp h)),?_⟩
    rintro l' hl
    cases hl

end Pages

section Headers

variable (file : File) (loadBase : UInt64) (withLdPath : Bool) (heap : Nat → List UInt8)

theorem header_replays (ph : ProgramHeader) (l : Loading) :
    Replays l.image (headerActions file loadBase withLdPath ph)
      (loadHeader file heap ph loadBase withLdPath l) := by
  rcases eq_or_ne ph.type ptLoad with ht | ht
  · rw [loadHeader_load ht,headerActions,if_pos ht]
    exact segment_replays l
  · obtain ⟨l1,h1,himage,_⟩ := loadHeader_other file heap loadBase withLdPath l ht
    rw [h1,headerActions,if_neg ht]
    refine ⟨iff_of_false (by simp) ?_,?_⟩
    · split_ifs <;> simp
    · rintro l' hl
      cases hl
      rw [himage]
      split_ifs <;> rfl

theorem headers_replay (phs : List ProgramHeader) (l : Loading) :
    Replays l.image (headersActions file loadBase withLdPath phs).flatten
      (phs.foldlM (fun l ph => loadHeader file heap ph loadBase withLdPath l) l) := by
  induction phs generalizing l with
  | nil =>
    refine ⟨iff_of_false (by simp) (by simp [headersActions]),?_⟩
    rintro l' hl
    cases hl
    rfl
  | cons ph phs ih =>
    obtain ⟨hfails,himage⟩ := header_replays file loadBase withLdPath heap ph l
    rw [List.foldlM_cons,headersActions]
    cases hl1 : loadHeader file heap ph loadBase withLdPath l with
    | none =>
      have hfail := hfails.mp hl1
      rw [if_pos hfail]
      refine ⟨iff_of_true rfl (by simpa using hfail),?_⟩
      rintro l' hl
      cases hl
    | some l1 =>
      have hok : .check false ∉ headerActions file loadBase withLdPath ph := by
        rw [← hfails,hl1]
        simp
      obtain ⟨hfails1,himage1⟩ := ih l1
      rw [if_neg hok,List.flatten_cons]
      refine ⟨?_,?_⟩
      · rw [List.mem_append,or_iff_right hok]
        exact hfails1
      · intro l' hl
        rw [replay_append,← himage l1 hl1]
        exact himage1 l' hl

theorem load_replays (image : Image) (firstFreeVirt : UInt64) :
    (load file heap image loadBase withLdPath firstFreeVirt = none ↔
      .check false ∈ (loadActions file loadBase withLdPath).flatten) ∧
    ∀ loaded, load file heap image loadBase withLdPath firstFreeVirt = some (.ok loaded) →
      loaded.image = replay image (loadActions file loadBase withLdPath).flatten := by
  cases ha : (readHeader file).accepted with
  | false =>
    have hload : load file heap image loadBase withLdPath firstFreeVirt =
        some (.error (-enoexec)) := by simp [load,ha]
    rw [hload,loadActions,if_neg (by simp [ha])]
    exact ⟨iff_of_false (by simp) (by simp),fun _ h => by cases h⟩
  | true =>
    obtain ⟨hfails,himage⟩ := headers_replay file (file.loadBase loadBase) withLdPath heap
      file.programHeaders ⟨image,firstFreeVirt,~~~0,none,0⟩
    rw [load_eq ha,loadActions,if_pos ha,Option.map_eq_none_iff]
    refine ⟨hfails,?_⟩
    intro loaded hloaded
    obtain ⟨l,hl,he⟩ := Option.map_eq_some_iff.mp hloaded
    cases he
    exact himage l hl

end Headers

end SabaOS.Elf
