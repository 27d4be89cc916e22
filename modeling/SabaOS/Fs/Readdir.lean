import SabaOS.Klib.Word
import SabaOS.Lib.Paging
import SabaOS.Fs.Entry

namespace SabaOS.Vfs

open SabaOS.Fs SabaOS.Klib SabaOS.Lib

-- `d_off` is the entry's own place in the list.
structure Dirent where
  ino : Nat
  off : Nat
  reclen : UInt16
  type : UInt8
  name : Name
deriving DecidableEq, Repr

def dTypeFromNodeType : NodeType → UInt8
  | .regular => 8
  | .directory => 4
  | .blockDevice => 6
  | .charDevice => 2
  | .symlink => 10
  | _ => 0

-- The size of the structure is 24; its name begins at byte 19.
def entryLen (name : Name) : Nat := alignUp (24 + name.length + 1) 8

def nameEnd (name : Name) : Nat := 19 + name.length + 1

structure Listing where
  records : List (Nat × Dirent)
  count : Nat
  cursor : Nat
deriving DecidableEq, Repr

structure OpenDir where
  vnode : Nat
  entry : Nat
  cursor : Nat
deriving DecidableEq, Repr

namespace State

variable (s : State) (inodeNum : Nat → Nat)

def dirent (i child v : Nat) : Dirent where
  ino := inodeNum v
  off := i
  reclen := UInt16.ofNat (entryLen (s.entry child).name)
  type := dTypeFromNodeType (s.vnode v).nodeType
  name := (s.entry child).name

-- Every record is smaller than the child it is about, so the count stays below the kernel heap's size.
def readdirFrom (maxSize cursor : Nat) : List Nat → Nat → Nat → Listing
  | [],i,count => ⟨[],count,i⟩
  | child :: children,i,count =>
    match (s.entry child).vnode with
    | none => readdirFrom maxSize cursor children (i + 1) count
    | some v =>
      if i < cursor then readdirFrom maxSize cursor children (i + 1) count
      else if maxSize < count + entryLen (s.entry child).name then ⟨[],count,i⟩
      else
        let rest := readdirFrom maxSize cursor children (i + 1)
          (count + entryLen (s.entry child).name)
        { rest with records := (count,s.dirent inodeNum i child v) :: rest.records }

def readdir (e maxSize cursor : Nat) : Listing :=
  s.readdirFrom inodeNum maxSize cursor (s.entry e).children 0 0

def getdents64 (d : Option OpenDir) (maxSize : Nat) : Except Errno (Listing × OpenDir) :=
  match d with
  | none => .error .ebadf
  | some d =>
    if (s.vnode d.vnode).nodeType ≠ .directory then .error .enotdir
    else
      let listing := s.readdir inodeNum (s.reduce d.entry) maxSize d.cursor
      .ok (listing,{ d with cursor := listing.cursor })

def getdentsAll (d : OpenDir) : List Nat → Except Errno (List Dirent × OpenDir)
  | [] => .ok ([],d)
  | maxSize :: sizes => do
    let (listing,d) ← s.getdents64 inodeNum (some d) maxSize
    let (records,d) ← getdentsAll d sizes
    return (listing.records.map Prod.snd ++ records,d)

def listed (d : OpenDir) : List Nat := (s.entry (s.reduce d.entry)).children

def liveRecords (d : OpenDir) : List Dirent :=
  (s.listed d).zipIdx.filterMap fun x =>
    (s.entry x.1).vnode.map fun v => s.dirent inodeNum x.2 x.1 v

end State

def Readable : Nat → List (Nat × Dirent) → Nat → Prop
  | start,[],stop => start = stop
  | start,(pos,r) :: records,stop => pos = start ∧ 8 ∣ r.reclen.toNat ∧
      nameEnd r.name ≤ r.reclen.toNat ∧ Readable (start + r.reclen.toNat) records stop

def State.Roomy (s : State) (d : OpenDir) (maxSize : Nat) : Prop :=
  ∀ child ∈ s.listed d, (s.entry child).vnode ≠ none → entryLen (s.entry child).name ≤ maxSize

structure State.Complete (s : State) (inodeNum : Nat → Nat) (d : OpenDir) (sizes : List Nat)
    (maxSize : Nat) (records : List Dirent) (listing : Listing) : Prop where
  pre : records <+: s.liveRecords inodeNum d
  enough : (s.liveRecords inodeNum d).length ≤ sizes.length → records = s.liveRecords inodeNum d
  within : listing.count ≤ maxSize
  readable : Readable 0 listing.records listing.count
  empty : listing.count = 0 ↔ records = s.liveRecords inodeNum d

section Lengths

variable {name : Name}

theorem entryLen_short (h : name.length ≤ 65503) :
    entryLen name < 2 ^ 16 ∧ 8 ∣ entryLen name ∧ nameEnd name ≤ entryLen name := by
  rw [entryLen,alignUp,nameEnd]
  split_ifs
  · omega
  · omega

theorem short_of_reclen (hdvd : 8 ∣ (UInt16.ofNat (entryLen name)).toNat)
    (hend : nameEnd name ≤ (UInt16.ofNat (entryLen name)).toNat) : name.length ≤ 65503 := by
  rw [UInt16.toNat_ofNat',entryLen,alignUp] at hdvd hend
  rw [nameEnd] at hend
  split_ifs at hdvd hend
  · omega
  · omega

theorem entryLen_pos : 0 < entryLen name ∨ 65503 < name.length := by
  rcases Nat.lt_or_ge 65503 name.length with hlong | hshort
  · exact .inr hlong
  · have hend := (entryLen_short hshort).2.2
    rw [nameEnd] at hend
    omega

end Lengths

section Pages

variable {s : State} {inodeNum : Nat → Nat} {maxSize cursor i count : Nat} {children : List Nat}

namespace State

def present (s : State) (child : Nat) : Bool := (s.entry child).vnode.isSome

def recordLen (s : State) (child : Nat) : Nat := entryLen (s.entry child).name

def record (s : State) (inodeNum : Nat → Nat) (x : Nat × Nat) : Dirent :=
  s.dirent inodeNum x.1 x.2 ((s.entry x.2).vnode.getD 0)

end State

def Listing.ofPage (s : State) (inodeNum : Nat → Nat) (p : Page Nat) : Listing where
  records := p.placed.map fun x => (x.1,s.record inodeNum x.2)
  count := p.count
  cursor := p.cursor

theorem Listing.ofPage_records {p : Page Nat} : (Listing.ofPage s inodeNum p).records.map Prod.snd =
    p.items.map (s.record inodeNum) := by
  rw [ofPage,Page.items,List.map_map,List.map_map]
  rfl

theorem readdirFrom_eq : s.readdirFrom inodeNum maxSize cursor children i count =
    .ofPage s inodeNum (page s.present s.recordLen maxSize cursor children i count) := by
  induction children generalizing i count with
  | nil => rfl
  | cons child children ih =>
    rw [State.readdirFrom]
    cases hv : (s.entry child).vnode with
    | none =>
      rw [page_passed (.inr (by rw [State.present,hv]; rfl))]
      exact ih
    | some v =>
      dsimp only
      have hpresent : ¬s.present child = false := by simp [State.present,hv]
      split_ifs with hpass hfull
      · rw [page_passed (.inl hpass)]
        exact ih
      · rw [page_full (not_or.mpr ⟨hpass,hpresent⟩) hfull]
        rfl
      · rw [page_placed (not_or.mpr ⟨hpass,hpresent⟩) hfull,ih]
        simp [Listing.ofPage,Page.place,State.record,hv,State.recordLen]

theorem liveRecords_eq {d : OpenDir} :
    s.liveRecords inodeNum d = (ahead s.present 0 (s.listed d) 0).map (s.record inodeNum) := by
  suffices ∀ k, ((s.listed d).zipIdx k).filterMap (fun x =>
      (s.entry x.1).vnode.map fun v => s.dirent inodeNum x.2 x.1 v) =
        (ahead s.present 0 (s.listed d) k).map (s.record inodeNum) from this 0
  induction s.listed d with
  | nil => exact fun _ => rfl
  | cons child children ih =>
    intro k
    rw [List.zipIdx_cons]
    cases hv : (s.entry child).vnode with
    | none =>
      rw [ahead_passed (.inr (by rw [State.present,hv]; rfl)),List.filterMap_cons_none (by rw [hv]; rfl)]
      exact ih (k + 1)
    | some v =>
      have hpresent : ¬(k < 0 ∨ s.present child = false) := by simp [State.present,hv]
      rw [ahead_live hpresent,List.filterMap_cons_some (by rw [hv]; rfl),ih (k + 1),List.map_cons]
      simp only [State.record,hv,Option.getD_some]

variable {d : OpenDir} {sizes : List Nat}

theorem getdents64_eq (hd : (s.vnode d.vnode).nodeType = .directory) :
    s.getdents64 inodeNum (some d) maxSize =
      .ok (s.readdir inodeNum (s.reduce d.entry) maxSize d.cursor,
        { d with cursor := (page s.present s.recordLen maxSize d.cursor (s.listed d) 0 0).cursor }) := by
  rw [State.getdents64]
  dsimp only
  rw [if_neg (not_not.mpr hd),State.readdir,readdirFrom_eq]
  rfl

theorem getdentsAll_eq (hd : (s.vnode d.vnode).nodeType = .directory) :
    s.getdentsAll inodeNum d sizes =
      .ok ((delivered s.present s.recordLen (s.listed d) sizes d.cursor).map (s.record inodeNum),
        { d with cursor := cursorAfter s.present s.recordLen (s.listed d) sizes d.cursor }) := by
  induction sizes generalizing d with
  | nil => rfl
  | cons maxSize sizes ih =>
    have hrest := ih (d := { d with cursor :=
      (page s.present s.recordLen maxSize d.cursor (s.listed d) 0 0).cursor }) hd
    rw [State.getdentsAll,getdents64_eq hd,delivered,List.map_append,← Listing.ofPage_records,
      State.readdir,readdirFrom_eq]
    exact congrArg (Except.map fun x : List Dirent × OpenDir => (_ ++ x.1,x.2)) hrest

theorem readable_of_tiled {placed : List (Nat × Nat × Nat)} {start stop : Nat}
    (h : Tiled s.recordLen start placed stop)
    (hnames : ∀ x ∈ placed, (s.entry x.2.2).name.length ≤ 65503) :
    Readable start (placed.map fun x => (x.1,s.record inodeNum x.2)) stop := by
  induction placed generalizing start with
  | nil => exact h
  | cons x placed ih =>
    obtain ⟨hlt,hdvd,hend⟩ := entryLen_short (hnames x List.mem_cons_self)
    have hlen : (s.record inodeNum x.2).reclen.toNat = s.recordLen x.2.2 :=
      UInt16.toNat_ofNat_of_lt' hlt
    refine ⟨h.1,hlen ▸ hdvd,hlen ▸ hend,?_⟩
    rw [hlen]
    exact ih h.2 fun y hy => hnames y (List.mem_cons_of_mem x hy)

theorem Readable.name_le {records : List (Nat × Dirent)} {start stop : Nat} {x : Nat × Dirent}
    (h : Readable start records stop) (hx : x ∈ records) :
    8 ∣ x.2.reclen.toNat ∧ nameEnd x.2.name ≤ x.2.reclen.toNat := by
  induction records generalizing start with
  | nil => cases hx
  | cons y records ih =>
    obtain ⟨-,hdvd,hend,hrest⟩ := h
    rcases List.mem_cons.mp hx with rfl | hx
    · exact ⟨hdvd,hend⟩
    · exact ih hrest hx

theorem getdents64_after (hd : (s.vnode d.vnode).nodeType = .directory) :
    s.getdents64 inodeNum (some { d with cursor := cursor }) maxSize = .ok (.ofPage s inodeNum
      (page s.present s.recordLen maxSize cursor (s.listed d) 0 0),
      { d with cursor := (page s.present s.recordLen maxSize cursor (s.listed d) 0 0).cursor }) := by
  rw [getdents64_eq (d := { d with cursor := cursor }) hd,State.readdir,readdirFrom_eq]
  rfl

theorem complete_of_short (hshort : ∀ child ∈ s.listed d, (s.entry child).vnode ≠ none →
    (s.entry child).name.length ≤ 65503) (hroom : ∀ m ∈ sizes, s.Roomy d m)
    (hmax : s.Roomy d maxSize) : s.Complete inodeNum d sizes maxSize
      ((delivered s.present s.recordLen (s.listed d) sizes 0).map (s.record inodeNum))
      (.ofPage s inodeNum (page s.present s.recordLen maxSize
        (cursorAfter s.present s.recordLen (s.listed d) sizes 0) (s.listed d) 0 0)) := by
  have hpresent : ∀ child, s.present child = true → (s.entry child).vnode ≠ none := by
    intro child h hnone
    rw [State.present,hnone] at h
    cases h
  have hfits : ∀ m, s.Roomy d m → ∀ child ∈ s.listed d, s.present child = true →
      0 < s.recordLen child ∧ s.recordLen child ≤ m := by
    intro m hm child hmem h
    have hname := hshort child hmem (hpresent child h)
    exact ⟨entryLen_pos.resolve_right (Nat.not_lt.mpr hname),hm child hmem (hpresent child h)⟩
  have hahead : delivered s.present s.recordLen (s.listed d) sizes 0 ++
      ahead s.present (cursorAfter s.present s.recordLen (s.listed d) sizes 0) (s.listed d) 0 =
        ahead s.present 0 (s.listed d) 0 := delivered_ahead
  refine ⟨?_,?_,page_count.2 (Nat.zero_le _),readable_of_tiled page_tiled ?_,?_⟩
  · rw [liveRecords_eq,← hahead,List.map_append]
    exact List.prefix_append _ _
  · intro h
    rw [liveRecords_eq,List.length_map] at h
    rw [liveRecords_eq,delivered_enough (fun m hm => hfits m (hroom m hm)) h]
  · intro x hx
    obtain ⟨hmem,h⟩ := mem_page (List.mem_map_of_mem hx)
    exact hshort x.2.2 hmem (hpresent x.2.2 h)
  · refine (page_empty (hfits maxSize hmax)).trans ?_
    rw [liveRecords_eq,← hahead,List.map_append]
    constructor
    · intro h
      rw [h,List.map_nil,List.append_nil]
    · intro h
      exact List.map_eq_nil_iff.mp (List.append_right_eq_self.mp h.symm)

theorem State.roomy_max : s.Roomy d (((s.listed d).map s.recordLen).max?.getD 0) :=
  fun _ hchild _ => List.le_max?_getD_of_mem (List.mem_map_of_mem hchild)

def Lists (s : State) (inodeNum : Nat → Nat) (d : OpenDir) : Prop :=
  ∀ sizes, (∀ m ∈ sizes, s.Roomy d m) → ∀ maxSize, s.Roomy d maxSize →
    ∃ records d' listing d'', s.getdentsAll inodeNum d sizes = .ok (records,d') ∧
      s.getdents64 inodeNum (some d') maxSize = .ok (listing,d'') ∧
      s.Complete inodeNum d sizes maxSize records listing

variable (hd : (s.vnode d.vnode).nodeType = .directory) (hzero : d.cursor = 0)

include hd hzero

theorem lists_at (h : Lists s inodeNum d) (hroom : ∀ m ∈ sizes, s.Roomy d m)
    (hmax : s.Roomy d maxSize) : s.Complete inodeNum d sizes maxSize
      ((delivered s.present s.recordLen (s.listed d) sizes 0).map (s.record inodeNum))
      (.ofPage s inodeNum (page s.present s.recordLen maxSize
        (cursorAfter s.present s.recordLen (s.listed d) sizes 0) (s.listed d) 0 0)) := by
  obtain ⟨records,d',listing,d'',hcalls,hnext,hcomplete⟩ := h sizes hroom maxSize hmax
  rw [getdentsAll_eq hd,hzero] at hcalls
  cases hcalls
  rw [getdents64_after hd] at hnext
  cases hnext
  exact hcomplete

theorem short_of_lists (h : Lists s inodeNum d) : ∀ child ∈ s.listed d,
    (s.entry child).vnode ≠ none → (s.entry child).name.length ≤ 65503 := by
  intro child hchild hvnode
  have hroom := s.roomy_max (d := d)
  generalize ((s.listed d).map s.recordLen).max?.getD 0 = most at hroom
  have hmost : ∀ m ∈ List.replicate (s.liveRecords inodeNum d).length most, s.Roomy d m :=
    fun m hm => List.eq_of_mem_replicate hm ▸ hroom
  have hall := (lists_at hd hzero h hmost hroom).enough (by rw [List.length_replicate])
  generalize List.replicate (s.liveRecords inodeNum d).length most = sizes at hmost hall
  have hahead : delivered s.present s.recordLen (s.listed d) sizes 0 ++
      ahead s.present (cursorAfter s.present s.recordLen (s.listed d) sizes 0) (s.listed d) 0 =
        ahead s.present 0 (s.listed d) 0 := delivered_ahead
  rw [liveRecords_eq,← hahead,List.map_append] at hall
  rw [List.map_eq_nil_iff.mp (List.append_right_eq_self.mp hall.symm),List.append_nil] at hahead
  have hpresent : s.present child = true := Option.isSome_iff_ne_none.mpr hvnode
  obtain ⟨k,hk⟩ : ∃ k, (k,child) ∈ ahead s.present 0 (s.listed d) 0 := ahead_mem hchild hpresent
  obtain ⟨pre,max,post,rfl,hmem⟩ := mem_delivered (hahead ▸ hk)
  have hpage := lists_at hd hzero h (fun m hm => hmost m (List.mem_append_left _ hm))
    (hmost max (List.mem_append_right _ List.mem_cons_self))
  obtain ⟨x,hx,hxk⟩ := List.mem_map.mp hmem
  obtain ⟨hdvd,hend⟩ := hpage.readable.name_le (List.mem_map_of_mem hx)
  rw [hxk] at hdvd hend
  exact short_of_reclen hdvd hend

theorem lists_iff : Lists s inodeNum d ↔ ∀ child ∈ s.listed d, (s.entry child).vnode ≠ none →
    (s.entry child).name.length ≤ 65503 := by
  refine ⟨short_of_lists hd hzero,fun hshort sizes hroom maxSize hmax => ?_⟩
  have hcomplete := @complete_of_short s inodeNum _ _ _ hshort hroom hmax
  refine ⟨_,_,_,_,getdentsAll_eq hd,getdents64_after hd,?_⟩
  rw [hzero]
  exact hcomplete

end Pages

-- `d_reclen` has 16 bits and nothing bounds the length of a name.
theorem getdents_iff (s : State) (inodeNum : Nat → Nat) (d : OpenDir)
    (hd : (s.vnode d.vnode).nodeType = .directory) (hzero : d.cursor = 0) :
    Lists s inodeNum d ↔ ∀ child ∈ s.listed d, (s.entry child).vnode ≠ none →
      (s.entry child).name.length ≤ 65503 :=
  lists_iff hd hzero

def named (names : List Name) : State where
  entry := fun e => if e = 0
    then { Entry.construct (some 0) none [] none with children := names.zipIdx.map fun x => x.2 + 1 }
    else .construct (some e) (some 0) (names.getD (e - 1) []) none
  vnode := fun v => .fresh (if v = 0 then .directory else .regular)
  numEntries := names.length + 1
  numVNodes := names.length + 1

def threeNamed : State := named [[97],[98,99],[100]]

theorem getdents_split : Lists threeNamed id ⟨0,0,0⟩ ∧
    (threeNamed.getdentsAll id ⟨0,0,0⟩ [64]).map (fun x => (x.1.map Dirent.name,x.2.cursor)) =
      .ok ([[97],[98,99]],2) ∧
    (threeNamed.getdents64 id (some ⟨0,0,2⟩) 64).map (fun x => x.1.records.map (·.2.name)) =
      .ok [[100]] :=
  ⟨(getdents_iff threeNamed id ⟨0,0,0⟩ rfl rfl).mpr (by decide),by decide,by decide⟩

theorem reclen_overflows : ¬Lists (named [.replicate 65504 97]) id ⟨0,0,0⟩ := by
  intro h
  generalize hname : List.replicate 65504 (97 : UInt8) = name at h
  have hlisted : (named [name]).listed ⟨0,0,0⟩ = [1] := rfl
  have hshort := short_of_lists (d := ⟨0,0,0⟩) rfl rfl h 1 (hlisted ▸ List.mem_singleton_self 1)
    (Option.some_ne_none 1)
  have hlong : name.length = 65504 := by rw [← hname,List.length_replicate]
  change name.length ≤ 65503 at hshort
  omega

end SabaOS.Vfs
