import Mathlib.Data.Nat.Log
import Mathlib.Data.List.FinRange
import SabaOS.Klib.Word
import SabaOS.Klib.HashTable
import SabaOS.Lib.Ring

namespace SabaOS.Mem.Vmem

open SabaOS.Klib SabaOS.Lib

inductive TagType where
  | free | allocated | span
deriving DecidableEq, Repr

structure BoundaryTag where
  base : Nat
  size : Nat
  type : TagType
deriving DecidableEq, Repr

def numStaticTags : Nat := 128

def numFreelists : Nat := 64

def numHashBuckets : Nat := 16

abbrev Tag := Fin numStaticTags

inductive Head where
  | tags | freeTags | spans
  | freelist (i : Fin numFreelists)
  | bucket (i : Fin numHashBuckets)
deriving DecidableEq, Repr

-- Every `ListHead` there is: those of the arena and the two of each tag.
inductive Cell where
  | head (h : Head)
  | tagList (t : Tag)
  | list (t : Tag)
deriving DecidableEq, Repr

structure Arena where
  quantum : Nat
  tag : Tag → BoundaryTag
  links : Links Cell

def Cell.tagListEntry : Cell → Option Tag
  | .tagList t => some t
  | _ => none

def Cell.listEntry : Cell → Option Tag
  | .list t => some t
  | _ => none

def clzl (x : Nat) : Nat := 63 - x.log2

def freelistIndexForSize (size : Nat) : Fin numFreelists :=
  ⟨numFreelists - 1 - clzl size,by simp only [numFreelists]; omega⟩

def hashBucketForAddr (addr : Nat) : Fin numHashBuckets :=
  ⟨(Klib.hash (UInt64.ofNat addr)).toNat % numHashBuckets,Nat.mod_lt _ (by decide)⟩

namespace Arena

def setTag (s : Arena) (t : Tag) (b : BoundaryTag) : Arena :=
  { s with tag := Function.update s.tag t b }

def setType (s : Arena) (t : Tag) (type : TagType) : Arena :=
  s.setTag t { s.tag t with type := type }

def allocateTag (s : Arena) : Option (Tag × Arena) :=
  if s.links.isEmpty (.head .freeTags) then none
  else do
    let next ← (s.links (.head .freeTags)).next
    let tag ← next.tagListEntry
    let links ← s.links.remove (.tagList tag)
    return (tag,{ s with links := links })

def freelistInsert (s : Arena) (segment : Tag) : Option Arena := do
  let index := freelistIndexForSize (s.tag segment).size
  let links ← s.links.addBefore (.head (.freelist index)) (.list segment)
  return { s with links := links }

def hashTableInsert (s : Arena) (segment : Tag) : Option Arena := do
  let bucket := hashBucketForAddr (s.tag segment).base
  let links ← s.links.add (.head (.bucket bucket)) (.list segment)
  return { s with links := links }

def searchIndex (size : Nat) : Nat :=
  let index := (freelistIndexForSize size).val
  if size &&& (size - 1) ≠ 0 then index + 1 else index

def splitSegment (s : Arena) (segment : Tag) (size : Nat) : Option (Arena × Nat) := do
  let (newSegment,s) ← s.allocateTag
  let old := s.tag segment
  let s := s.setTag newSegment ⟨old.base,size,.allocated⟩
  let s := s.setTag segment { old with base := uadd old.base size, size := usub old.size size }
  let links ← s.links.addBefore (.tagList segment) (.tagList newSegment)
  let s := { s with links := links }
  let s ← s.freelistInsert segment
  let s ← s.hashTableInsert newSegment
  return (s,(s.tag newSegment).base)

def takeWhole (s : Arena) (segment : Tag) : Option (Arena × Nat) := do
  let s ← (s.setType segment .allocated).hashTableInsert segment
  return (s,(s.tag segment).base)

def takeSegment (s : Arena) (i : Fin numFreelists) (size : Nat) : Option (Arena × Nat) := do
  let next ← (s.links (.head (.freelist i))).next
  let segment ← next.listEntry
  let links ← s.links.remove (.list segment)
  let s := { s with links := links }
  if (s.tag segment).size = size then s.takeWhole segment
  else s.splitSegment segment size

def xalloc (s : Arena) (size : Nat) : Option (Arena × Nat) :=
  if size = 0 ∨ size % s.quantum ≠ 0 then none
  else
    match (List.finRange numFreelists).find? fun i =>
        searchIndex size ≤ i.val && !s.links.isEmpty (.head (.freelist i)) with
    | none => some (s,0)
    | some i => s.takeSegment i size

end Arena

def Head.byTag : Head → Bool
  | .tags => true
  | .freeTags => true
  | _ => false

def Head.cell (h : Head) (t : Tag) : Cell := if h.byTag then .tagList t else .list t

def Linked (l : Links Cell) (A : Head → List Tag) : Prop :=
  Links.Rings l Cell.head fun h => (A h).map h.cell

def home (b : BoundaryTag) : Head :=
  match b.type with
  | .free => .freelist (freelistIndexForSize b.size)
  | .allocated => .bucket (hashBucketForAddr b.base)
  | .span => .spans

def Homed (tag : Tag → BoundaryTag) (A : Head → List Tag) (off : List Tag) : Prop :=
  ∀ h, h.byTag = false → ∀ t, t ∈ A h ↔ t ∈ A .tags ∧ t ∉ off ∧ home (tag t) = h

def Tiled : Nat → Nat → List BoundaryTag → Prop
  | lo,hi,[] => lo = hi
  | lo,hi,b :: bs =>
    if b.type = .span then lo = hi ∧ Tiled b.base (b.base + b.size) bs
    else b.base = lo ∧ 0 < b.size ∧ Tiled (lo + b.size) hi bs

def Apart (a b : BoundaryTag) : Prop := a.base + a.size ≤ b.base ∨ b.base + b.size ≤ a.base

def Arena.listed (s : Arena) (A : Head → List Tag) : List BoundaryTag := (A .tags).map s.tag

structure Rep (s : Arena) (A : Head → List Tag) (off : List Tag) : Prop where
  linked : Linked s.links A
  homed : Homed s.tag A off
  tiled : Tiled 0 0 (s.listed A)
  spans : A .spans = (A .tags).filter fun t => (s.tag t).type = .span
  apart : (A .spans).Pairwise fun t u => Apart (s.tag t) (s.tag u)
  inside : ∀ t ∈ A .spans, (s.tag t).base + (s.tag t).size ≤ 2 ^ 64 ∧ (s.tag t).size < 2 ^ 64

namespace Linked

variable {l : Links Cell} {A : Head → List Tag} {h : Head} {t e : Tag} {ts ys zs : List Tag}

theorem cell_eq {h j : Head} (heq : h.cell t = j.cell e) : j.byTag = h.byTag ∧ t = e := by
  unfold Head.cell at heq
  split_ifs at heq with h1 h2 h2
  · exact ⟨h2.trans h1.symm,Cell.tagList.inj heq⟩
  · simp only [Bool.not_eq_true] at h1 h2
    exact ⟨h2.trans h1.symm,Cell.list.inj heq⟩

theorem out (hout : ∀ j, j.byTag = h.byTag → e ∉ A j) (j : Head) :
    h.cell e ∉ Cell.head j :: (A j).map j.cell := by
  intro hm
  rcases List.mem_cons.mp hm with heq | hm
  · unfold Head.cell at heq
    split_ifs at heq
  · obtain ⟨t,ht,heq⟩ := List.mem_map.mp hm
    obtain ⟨hby,rfl⟩ := cell_eq heq
    exact hout j hby.symm ht

theorem map_update (A : Head → List Tag) (h : Head) (ts : List Tag) :
    (Function.update (fun j => (A j).map j.cell) h (ts.map h.cell)) =
      fun j => (Function.update A h ts j).map j.cell := by
  funext j
  by_cases hj : j = h
  · subst hj
    simp
  · simp [Function.update_of_ne hj]

theorem once (hl : Linked l A) {h j : Head} (hby : h.byTag = j.byTag) (hh : t ∈ A h)
    (hj : t ∈ A j) : h = j := by
  apply Links.Rings.once hl h j (h.cell t) (List.mem_map_of_mem hh)
  have heq : h.cell t = j.cell t := by rw [Head.cell,Head.cell,hby]
  rw [heq]
  exact List.mem_map_of_mem hj

theorem nodup (hl : Linked l A) (h : Head) : (A h).Nodup :=
  (List.nodup_cons.mp (hl.ring h).nodup).2.of_map _

theorem next_head (hl : Linked l A) (h : Head) :
    (l (.head h)).next = ((A h).map h.cell ++ [Cell.head h]).head? := (hl.ring h).path.next_eq

theorem isEmpty_iff (hl : Linked l A) (h : Head) : l.isEmpty (.head h) = true ↔ A h = [] := by
  rw [Links.isEmpty,hl.next_head h,decide_eq_true_iff]
  cases hA : A h with
  | nil => simp
  | cons t ts =>
    have hne : h.cell t ≠ .head h := by
      unfold Head.cell
      split_ifs <;> simp
    simp [hne]

theorem remove (hl : Linked l A) (hx : A h = ys ++ t :: zs) :
    ∃ l', l.remove (h.cell t) = some l' ∧ Linked l' (Function.update A h (ys ++ zs)) := by
  have hx' : (A h).map h.cell = ys.map h.cell ++ h.cell t :: zs.map h.cell := by
    rw [hx,List.map_append,List.map_cons]
  obtain ⟨l',hl',hr⟩ := Links.Rings.remove hl hx'
  rw [← List.map_append,map_update] at hr
  exact ⟨l',hl',hr⟩

theorem addBefore (hl : Linked l A) (h : Head) (hout : ∀ j, j.byTag = h.byTag → e ∉ A j) :
    ∃ l', l.addBefore (.head h) (h.cell e) = some l' ∧
      Linked l' (Function.update A h (A h ++ [e])) := by
  obtain ⟨l',hl',hr⟩ := Links.Rings.addBefore hl h (out hout)
  rw [← List.map_singleton,← List.map_append,map_update] at hr
  exact ⟨l',hl',hr⟩

theorem add (hl : Linked l A) (h : Head) (hout : ∀ j, j.byTag = h.byTag → e ∉ A j) :
    ∃ l', l.add (.head h) (h.cell e) = some l' ∧
      Linked l' (Function.update A h (e :: A h)) := by
  obtain ⟨l',hl',hr⟩ := Links.Rings.add hl h (out hout)
  rw [← List.map_cons,map_update] at hr
  exact ⟨l',hl',hr⟩

theorem addBefore_at (hl : Linked l A) (hx : A h = ys ++ t :: zs)
    (hout : ∀ j, j.byTag = h.byTag → e ∉ A j) : ∃ l', l.addBefore (h.cell t) (h.cell e) = some l' ∧
      Linked l' (Function.update A h (ys ++ e :: t :: zs)) := by
  have hx' : (A h).map h.cell = ys.map h.cell ++ h.cell t :: zs.map h.cell := by
    rw [hx,List.map_append,List.map_cons]
  obtain ⟨l',hl',hr⟩ := Links.Rings.addBefore_at hl hx' (out hout)
  rw [← List.map_cons,← List.map_cons,← List.map_append,map_update] at hr
  exact ⟨l',hl',hr⟩

theorem add_at (hl : Linked l A) (hx : A h = ys ++ t :: zs)
    (hout : ∀ j, j.byTag = h.byTag → e ∉ A j) : ∃ l', l.add (h.cell t) (h.cell e) = some l' ∧
      Linked l' (Function.update A h (ys ++ t :: e :: zs)) := by
  have hx' : (A h).map h.cell = ys.map h.cell ++ h.cell t :: zs.map h.cell := by
    rw [hx,List.map_append,List.map_cons]
  obtain ⟨l',hl',hr⟩ := Links.Rings.add_at hl hx' (out hout)
  rw [← List.map_cons,← List.map_cons,← List.map_append,map_update] at hr
  exact ⟨l',hl',hr⟩

end Linked

theorem map_update_of_notMem {α β : Type} [DecidableEq α] {f : α → β} {a : α} {b : β}
    {xs : List α} (h : a ∉ xs) : xs.map (Function.update f a b) = xs.map f :=
  List.map_congr_left fun _ hx => Function.update_of_ne (ne_of_mem_of_not_mem hx h) _ _

section Lists

variable {A : Head → List Tag} {h j : Head} {e u : Tag} {ys zs : List Tag}

theorem mem_insert (hA : A h = ys ++ zs) :
    u ∈ Function.update A h (ys ++ e :: zs) j ↔ u ∈ A j ∨ j = h ∧ u = e := by
  by_cases hj : j = h
  · subst hj
    rw [Function.update_self,hA]
    simp only [List.mem_append,List.mem_cons,true_and]
    tauto
  · rw [Function.update_of_ne hj]
    simp [hj]

theorem mem_erase (hA : A h = ys ++ e :: zs) (hnd : (A h).Nodup) :
    u ∈ Function.update A h (ys ++ zs) j ↔ u ∈ A j ∧ ¬(j = h ∧ u = e) := by
  by_cases hj : j = h
  · subst hj
    rw [hA] at hnd
    have hout := (List.nodup_middle.mp hnd).notMem
    rw [Function.update_self,hA]
    simp only [List.mem_append,List.mem_cons,true_and] at hout ⊢
    constructor
    · intro hu
      refine ⟨by tauto,?_⟩
      rintro rfl
      exact hout hu
    · tauto
  · rw [Function.update_of_ne hj]
    simp [hj]

end Lists

namespace Tiled

variable {lo hi : Nat} {b : BoundaryTag} {bs pre post : List BoundaryTag}

theorem le (h : Tiled lo hi bs) : lo ≤ hi := by
  induction bs generalizing lo with
  | nil => exact Nat.le_of_eq h
  | cons b bs ih =>
    rw [Tiled] at h
    split_ifs at h
    · exact Nat.le_of_eq h.1
    · have := ih h.2.2
      omega

theorem within (h : Tiled lo hi bs) (hb : b ∈ bs) (hs : b.type ≠ .span) : 0 < b.size ∧
    (lo ≤ b.base ∧ b.base + b.size ≤ hi ∨
      ∃ p ∈ bs, p.type = .span ∧ p.base ≤ b.base ∧ b.base + b.size ≤ p.base + p.size) := by
  induction bs generalizing lo hi with
  | nil => simp at hb
  | cons c bs ih =>
    rw [Tiled] at h
    split_ifs at h with hc
    · obtain hb : b ∈ bs := (List.mem_cons.mp hb).resolve_left fun heq => hs (heq ▸ hc)
      obtain ⟨hpos,hin | ⟨p,hp,hin⟩⟩ := ih h.2 hb
      · exact ⟨hpos,.inr ⟨c,List.mem_cons_self,hc,hin⟩⟩
      · exact ⟨hpos,.inr ⟨p,List.mem_cons_of_mem _ hp,hin⟩⟩
    · obtain ⟨hbase,hpos,htail⟩ := h
      rcases List.mem_cons.mp hb with rfl | hb
      · have := htail.le
        exact ⟨hpos,.inl ⟨by omega,by omega⟩⟩
      · obtain ⟨hpos',hin | ⟨p,hp,hin⟩⟩ := ih htail hb
        · exact ⟨hpos',.inl ⟨by omega,hin.2⟩⟩
        · exact ⟨hpos',.inr ⟨p,List.mem_cons_of_mem _ hp,hin⟩⟩

theorem replace (mid mid' : List BoundaryTag)
    (hmid : ∀ lo hi, Tiled lo hi (mid ++ post) → Tiled lo hi (mid' ++ post))
    (h : Tiled lo hi (pre ++ (mid ++ post))) : Tiled lo hi (pre ++ (mid' ++ post)) := by
  induction pre generalizing lo hi with
  | nil => exact hmid lo hi h
  | cons c pre ih =>
    rw [List.cons_append,Tiled] at h ⊢
    split_ifs at h ⊢
    · exact ⟨h.1,ih h.2⟩
    · exact ⟨h.1,h.2.1,ih h.2.2⟩

end Tiled

def remainder (b : BoundaryTag) (size : Nat) : List BoundaryTag :=
  if b.size = size then [] else [⟨b.base + size,b.size - size,.free⟩]

theorem Tiled.carve {lo hi size : Nat} {b : BoundaryTag} {pre post : List BoundaryTag}
    (h : Tiled lo hi (pre ++ b :: post)) (hb : b.type = .free) (h0 : 0 < size)
    (hle : size ≤ b.size) :
    Tiled lo hi (pre ++ (⟨b.base,size,.allocated⟩ :: remainder b size) ++ post) := by
  rw [List.append_assoc]
  refine Tiled.replace [b] _ ?_ h
  intro lo hi h
  unfold remainder
  rw [List.singleton_append,Tiled,if_neg (by simp [hb])] at h
  obtain ⟨rfl,hpos,htail⟩ := h
  split_ifs with heq
  · subst heq
    exact ⟨rfl,hpos,htail⟩
  · refine ⟨rfl,h0,rfl,by dsimp only; omega,?_⟩
    dsimp only
    rwa [Nat.add_assoc,Nat.add_sub_cancel' hle]

namespace Rep

variable {s s' : Arena} {A A' : Head → List Tag} {off fs ys zs : List Tag} {t e : Tag} {h : Head}

theorem segment (hr : Rep s A off) (ht : t ∈ A .tags) (hs : (s.tag t).type ≠ .span) :
    0 < (s.tag t).size ∧ ∃ u ∈ A .spans, (s.tag u).base ≤ (s.tag t).base ∧
      (s.tag t).base + (s.tag t).size ≤ (s.tag u).base + (s.tag u).size := by
  obtain ⟨hpos,hin | ⟨p,hp,hspan,hin⟩⟩ := hr.tiled.within (List.mem_map_of_mem ht) hs
  · omega
  · obtain ⟨u,hu,rfl⟩ := List.mem_map.mp hp
    refine ⟨hpos,u,?_,hin⟩
    rw [hr.spans]
    simpa using ⟨hu,hspan⟩

theorem segment_end (hr : Rep s A off) (ht : t ∈ A .tags) (hs : (s.tag t).type ≠ .span) :
    (s.tag t).base + (s.tag t).size ≤ 2 ^ 64 ∧ (s.tag t).size < 2 ^ 64 := by
  obtain ⟨-,u,hu,hbase,hle⟩ := hr.segment ht hs
  have hin := hr.inside u hu
  omega

theorem not_mem_free (hr : Rep s A off) (ht : t ∈ A .freeTags) (h : Head) (hne : h ≠ .freeTags) :
    t ∉ A h := by
  have hby : Head.tags.byTag = Head.freeTags.byTag := rfl
  have hout : t ∉ A .tags := fun hm => Head.noConfusion (hr.linked.once hby hm ht)
  intro hm
  cases hby' : h.byTag with
  | false => exact hout ((hr.homed h hby' t).mp hm).1
  | true => exact hne (hr.linked.once hby' hm ht)

theorem span_of_mem (hr : Rep s A off) (ht : t ∈ A .spans) : (s.tag t).type = .span := by
  rw [hr.spans] at ht
  simpa using (List.mem_filter.mp ht).2

theorem on_freelist (hr : Rep s A off) {i : Fin numFreelists} (ht : t ∈ A (.freelist i)) :
    t ∈ A .tags ∧ (s.tag t).type = .free ∧ freelistIndexForSize (s.tag t).size = i := by
  obtain ⟨hm,-,hhome⟩ := (hr.homed (.freelist i) rfl t).mp ht
  refine ⟨hm,?_⟩
  unfold home at hhome
  split at hhome
  · rename_i htype
    exact ⟨htype,Head.freelist.inj hhome⟩
  · cases hhome
  · cases hhome

theorem change (hr : Rep s A off) {off' : List Tag} (hl : Linked s'.links A')
    (hh : Homed s'.tag A' off') (ht : Tiled 0 0 (s'.listed A')) (hs : A' .spans = A .spans)
    (hf : (A' .tags).filter (fun u => (s'.tag u).type = .span) =
      (A .tags).filter fun u => (s.tag u).type = .span)
    (hkeep : ∀ u ∈ A .spans, s'.tag u = s.tag u) : Rep s' A' off' where
  linked := hl
  homed := hh
  tiled := ht
  spans := by rw [hs,hf,hr.spans]
  apart := by
    rw [hs]
    refine hr.apart.imp_of_mem ?_
    intro u v hu hv h
    rwa [hkeep u hu,hkeep v hv]
  inside u hu := by
    rw [hs] at hu
    rw [hkeep u hu]
    exact hr.inside u hu

theorem unhook (hr : Rep s A off) (hA : A h = ys ++ t :: zs) (hby : h.byTag = false)
    (hs : h ≠ .spans) : ∃ l', s.links.remove (.list t) = some l' ∧
      Rep { s with links := l' } (Function.update A h (ys ++ zs)) (t :: off) := by
  obtain ⟨l',hrem,hl'⟩ := hr.linked.remove hA
  have hcell : h.cell t = .list t := by simp [Head.cell,hby]
  have hht : h ≠ .tags := by
    rintro rfl
    cases hby
  have htags : Function.update A h (ys ++ zs) .tags = A .tags := Function.update_of_ne hht.symm _ _
  have hat : home (s.tag t) = h := ((hr.homed h hby t).mp (by simp [hA])).2.2
  refine ⟨l',hcell ▸ hrem,hr.change hl' ?_ ?_ (Function.update_of_ne hs.symm _ _) (by rw [htags])
    fun _ _ => rfl⟩
  · intro j hj u
    rw [htags,mem_erase hA (hr.linked.nodup h),hr.homed j hj,List.mem_cons,not_or]
    constructor
    · rintro ⟨⟨hm,hoff,hu⟩,hne⟩
      refine ⟨hm,⟨?_,hoff⟩,hu⟩
      rintro rfl
      exact hne ⟨hu.symm.trans hat,rfl⟩
    · rintro ⟨hm,⟨hne,hoff⟩,hu⟩
      exact ⟨⟨hm,hoff,hu⟩,fun hc => hne hc.2⟩
  · simpa only [Arena.listed,htags] using hr.tiled

theorem out_of_off (hr : Rep s A off) (ht : t ∈ off) : ∀ j, j.byTag = false → t ∉ A j :=
  fun j hj hm => ((hr.homed j hj t).mp hm).2.1 ht

theorem hook (hr : Rep s A (t :: off)) (ht : t ∈ A .tags) (hoff : t ∉ off)
    (hs : (s.tag t).type ≠ .span) (hA : A (home (s.tag t)) = ys ++ zs) {l' : Links Cell}
    (hl : Linked l' (Function.update A (home (s.tag t)) (ys ++ t :: zs))) :
    Rep { s with links := l' } (Function.update A (home (s.tag t)) (ys ++ t :: zs)) off := by
  have hhome : home (s.tag t) ≠ .tags ∧ home (s.tag t) ≠ .spans := by
    unfold home
    split
    · exact ⟨Head.noConfusion,Head.noConfusion⟩
    · exact ⟨Head.noConfusion,Head.noConfusion⟩
    · rename_i h
      exact absurd h hs
  have htags := Function.update_of_ne hhome.1.symm (ys ++ t :: zs) A
  refine hr.change hl ?_ ?_ (Function.update_of_ne hhome.2.symm _ _) (by rw [htags]) fun _ _ => rfl
  · intro j hj u
    rw [htags,mem_insert hA,hr.homed j hj,List.mem_cons,not_or]
    constructor
    · rintro (⟨hm,⟨-,hno⟩,hu⟩ | ⟨rfl,rfl⟩)
      · exact ⟨hm,hno,hu⟩
      · exact ⟨ht,hoff,rfl⟩
    · rintro ⟨hm,hno,hu⟩
      by_cases hut : u = t
      · subst hut
        exact .inr ⟨hu.symm,rfl⟩
      · exact .inl ⟨hm,⟨hut,hno⟩,hu⟩
  · simpa only [Arena.listed,htags] using hr.tiled

end Rep

section Search

variable {size : Nat}

theorem freelistIndexForSize_eq (h : size < 2 ^ 64) :
    (freelistIndexForSize size).val = size.log2 := by
  have hlog : size.log2 < 64 := by
    by_cases h0 : size = 0
    · subst h0
      decide
    · exact (Nat.log2_lt h0).mpr h
  simp only [freelistIndexForSize,clzl,numFreelists]
  omega

theorem searchIndex_eq (h0 : size ≠ 0) (h : size < 2 ^ 64) :
    Arena.searchIndex size = Nat.clog 2 size := by
  have hle := Nat.log2_self_le h0
  have hlt := Nat.lt_log2_self (n := size)
  simp only [Arena.searchIndex,freelistIndexForSize_eq h]
  apply Nat.le_antisymm
  · split_ifs with hpow
    · apply Nat.succ_le_of_lt
      rw [Nat.lt_clog_iff_pow_lt (by decide)]
      refine Nat.lt_of_le_of_ne hle fun heq => hpow ?_
      exact (Nat.and_sub_one_eq_zero_iff_isPowerOfTwo h0).mpr ⟨_,heq.symm⟩
    · have hceil : size ≤ 2 ^ Nat.clog 2 size := Nat.le_pow_clog (by decide) size
      exact (Nat.pow_le_pow_iff_right (by decide)).mp (hle.trans hceil)
  · rw [Nat.clog_le_iff_le_pow (by decide)]
    split_ifs with hpow
    · exact hlt.le
    · obtain ⟨k,hk⟩ := (Nat.and_sub_one_eq_zero_iff_isPowerOfTwo h0).mp (not_not.mp hpow)
      rw [hk,Nat.log2_two_pow]

end Search

namespace Arena

variable {s : Arena} {A : Head → List Tag} {t e : Tag} {ts ys zs : List Tag} {size : Nat}
variable {i : Fin numFreelists}

theorem allocateTag_spec (hl : Linked s.links A) (hf : A .freeTags = e :: ts) :
    ∃ l', s.allocateTag = some (e,{ s with links := l' }) ∧
      Linked l' (Function.update A .freeTags ts) := by
  have hne : ¬s.links.isEmpty (.head .freeTags) = true := by
    rw [hl.isEmpty_iff,hf]
    exact List.cons_ne_nil _ _
  obtain ⟨l',hrem,hl'⟩ := hl.remove (show A .freeTags = [] ++ e :: ts from hf)
  have hnext := hl.next_head .freeTags
  rw [hf] at hnext
  refine ⟨l',?_,hl'⟩
  have hcell : Head.freeTags.cell e = .tagList e := rfl
  rw [hcell] at hrem
  simp [allocateTag,hne,hnext,Head.cell,Head.byTag,Cell.tagListEntry,hrem]

theorem allocateTag_none (hl : Linked s.links A) (hf : A .freeTags = []) :
    s.allocateTag = none := if_pos ((hl.isEmpty_iff .freeTags).mpr hf)

theorem freelistInsert_spec (hl : Linked s.links A)
    (hout : ∀ j, j.byTag = false → t ∉ A j) :
    ∃ l', s.freelistInsert t = some { s with links := l' } ∧
      Linked l' (Function.update A (.freelist (freelistIndexForSize (s.tag t).size))
        (A (.freelist (freelistIndexForSize (s.tag t).size)) ++ [t])) := by
  obtain ⟨l',hadd,hl'⟩ := hl.addBefore (.freelist (freelistIndexForSize (s.tag t).size)) hout
  have hcell : (Head.freelist (freelistIndexForSize (s.tag t).size)).cell t = .list t := rfl
  rw [hcell] at hadd
  exact ⟨l',by simp [freelistInsert,hadd],hl'⟩

theorem hashTableInsert_spec (hl : Linked s.links A)
    (hout : ∀ j, j.byTag = false → t ∉ A j) :
    ∃ l', s.hashTableInsert t = some { s with links := l' } ∧
      Linked l' (Function.update A (.bucket (hashBucketForAddr (s.tag t).base))
        (t :: A (.bucket (hashBucketForAddr (s.tag t).base)))) := by
  obtain ⟨l',hadd,hl'⟩ := hl.add (.bucket (hashBucketForAddr (s.tag t).base)) hout
  have hcell : (Head.bucket (hashBucketForAddr (s.tag t).base)).cell t = .list t := rfl
  rw [hcell] at hadd
  exact ⟨l',by simp [hashTableInsert,hadd],hl'⟩

end Arena

theorem Tiled.retype {lo hi : Nat} {b b' : BoundaryTag} {pre post : List BoundaryTag}
    (h : Tiled lo hi (pre ++ b :: post)) (hb : b.type ≠ .span) (hb' : b'.type ≠ .span)
    (hbase : b'.base = b.base) (hsize : b'.size = b.size) :
    Tiled lo hi (pre ++ b' :: post) := by
  refine Tiled.replace [b] [b'] ?_ h
  intro lo hi h
  rw [List.singleton_append,Tiled,if_neg hb] at h
  rw [List.singleton_append,Tiled,if_neg hb',hbase,hsize]
  exact h

namespace Rep

variable {s : Arena} {A : Head → List Tag} {off fs ys zs : List Tag} {t e : Tag}

theorem split_tags (hr : Rep s A off) (ht : t ∈ A .tags) :
    ∃ ys zs, A .tags = ys ++ t :: zs ∧ t ∉ ys ++ zs := by
  obtain ⟨ys,zs,hA⟩ := List.append_of_mem ht
  have hnd := hr.linked.nodup .tags
  rw [hA] at hnd
  exact ⟨ys,zs,hA,(List.nodup_middle.mp hnd).notMem⟩

theorem setType (hr : Rep s A (t :: off)) (ht : t ∈ A .tags) (hs : (s.tag t).type ≠ .span)
    (type : TagType) (htype : type ≠ .span) : Rep (s.setType t type) A (t :: off) := by
  obtain ⟨ys,zs,hA,hout⟩ := hr.split_tags ht
  have hsame : ∀ u, u ≠ t → (s.setType t type).tag u = s.tag u := fun u hu =>
    Function.update_of_ne hu _ _
  have hnew : (s.setType t type).tag t = { s.tag t with type := type } := Function.update_self _ _ _
  refine hr.change hr.linked ?_ ?_ rfl ?_ ?_
  · intro j hj u
    rw [hr.homed j hj]
    by_cases hut : u = t
    · simp [hut]
    · rw [hsame u hut]
  · have htiled := hr.tiled
    rw [List.mem_append,not_or] at hout
    rw [Arena.listed,hA,List.map_append,List.map_cons] at htiled ⊢
    rw [hnew,Arena.setType,Arena.setTag,map_update_of_notMem hout.1,map_update_of_notMem hout.2]
    exact htiled.retype hs htype rfl rfl
  · apply List.filter_congr
    intro u _
    by_cases hut : u = t
    · rw [hut,hnew]
      simp [hs,htype]
    · rw [hsame u hut]
  · intro u hu
    apply hsame
    rintro rfl
    exact hs (hr.span_of_mem hu)

theorem freelistInsert (hr : Rep s A (t :: off)) (ht : t ∈ A .tags) (hoff : t ∉ off)
    (htype : (s.tag t).type = .free) :
    ∃ l' A', s.freelistInsert t = some { s with links := l' } ∧ Rep { s with links := l' } A' off ∧
      A' .tags = A .tags ∧ A' .freeTags = A .freeTags := by
  have hhome : home (s.tag t) = .freelist (freelistIndexForSize (s.tag t).size) := by
    rw [home,htype]
  obtain ⟨l',hins,hl'⟩ := Arena.freelistInsert_spec hr.linked (hr.out_of_off List.mem_cons_self)
  rw [← hhome] at hl'
  have hr' := hr.hook ht hoff (by simp [htype]) (List.append_nil _).symm hl'
  exact ⟨l',_,hins,hr',by simp [hhome],by simp [hhome]⟩

theorem hashTableInsert (hr : Rep s A (t :: off)) (ht : t ∈ A .tags) (hoff : t ∉ off)
    (htype : (s.tag t).type = .allocated) :
    ∃ l' A', s.hashTableInsert t = some { s with links := l' } ∧
      Rep { s with links := l' } A' off ∧ A' .tags = A .tags ∧ A' .freeTags = A .freeTags := by
  have hhome : home (s.tag t) = .bucket (hashBucketForAddr (s.tag t).base) := by rw [home,htype]
  obtain ⟨l',hins,hl'⟩ := Arena.hashTableInsert_spec hr.linked (hr.out_of_off List.mem_cons_self)
  rw [← hhome] at hl'
  have hr' := hr.hook ht hoff (by simp [htype]) (List.nil_append _).symm hl'
  exact ⟨l',_,hins,hr',by simp [hhome],by simp [hhome]⟩

theorem takeWhole (hr : Rep s A [t]) (ht : t ∈ A .tags) (htype : (s.tag t).type = .free) :
    ∃ s' A', s.takeWhole t = some (s',(s.tag t).base) ∧ Rep s' A' [] ∧
      s'.tag = Function.update s.tag t { s.tag t with type := .allocated } ∧
      A' .tags = A .tags ∧ A' .freeTags = A .freeTags ∧ s'.quantum = s.quantum := by
  have hr₁ := hr.setType ht (by simp [htype]) .allocated (by decide)
  have hnew : (s.setType t .allocated).tag t = { s.tag t with type := .allocated } :=
    Function.update_self _ _ _
  obtain ⟨l',A',hins,hr',htags,hfree⟩ := hr₁.hashTableInsert ht List.not_mem_nil (by rw [hnew])
  refine ⟨_,A',?_,hr',rfl,htags,hfree,rfl⟩
  simp only [Arena.takeWhole,hins,Option.bind_eq_bind,Option.bind_some,Option.pure_def,hnew]

theorem carved (hr : Rep s A [t]) (hA : A .tags = ys ++ t :: zs) (htype : (s.tag t).type = .free)
    (hf : A .freeTags = e :: fs) {size : Nat} (h0 : 0 < size) (hlt : size < (s.tag t).size)
    {l' : Links Cell} (hl : Linked l'
      (Function.update (Function.update A .freeTags fs) .tags (ys ++ e :: t :: zs))) :
    Rep { s with
        tag := Function.update
          (Function.update s.tag e ⟨(s.tag t).base,size,.allocated⟩) t
          ⟨(s.tag t).base + size,(s.tag t).size - size,.free⟩
        links := l' }
      (Function.update (Function.update A .freeTags fs) .tags (ys ++ e :: t :: zs)) [t,e] := by
  set A' := Function.update (Function.update A .freeTags fs) .tags (ys ++ e :: t :: zs) with hA'
  set tag' := Function.update
    (Function.update s.tag e ⟨(s.tag t).base,size,.allocated⟩) t
    ⟨(s.tag t).base + size,(s.tag t).size - size,.free⟩ with htag'
  have he : ∀ j, j ≠ .freeTags → e ∉ A j := hr.not_mem_free (by simp [hf])
  have het : e ≠ t := by
    rintro rfl
    exact he .tags Head.noConfusion (by simp [hA])
  have hsame : ∀ u, u ≠ t → u ≠ e → tag' u = s.tag u := fun u hut hue => by
    rw [htag',Function.update_of_ne hut,Function.update_of_ne hue]
  have htag_t : tag' t = ⟨(s.tag t).base + size,(s.tag t).size - size,.free⟩ :=
    Function.update_self _ _ _
  have htag_e : tag' e = ⟨(s.tag t).base,size,.allocated⟩ := by
    rw [htag',Function.update_of_ne het,Function.update_self]
  have htags : A' .tags = ys ++ e :: t :: zs := Function.update_self _ _ _
  have hout : t ∉ ys ++ zs ∧ e ∉ ys ++ zs := by
    have hnd := hr.linked.nodup .tags
    have hte := he .tags Head.noConfusion
    rw [hA] at hnd hte
    refine ⟨(List.nodup_middle.mp hnd).notMem,fun hm => hte ?_⟩
    simp only [List.mem_append,List.mem_cons] at hm ⊢
    tauto
  refine hr.change hl ?_ ?_ (by simp [hA']) ?_ ?_
  · intro j hj u
    have hjA : A' j = A j := by
      have hjt : j ≠ .tags ∧ j ≠ .freeTags := by
        constructor <;> (rintro rfl; cases hj)
      rw [hA',Function.update_of_ne hjt.1,Function.update_of_ne hjt.2]
    rw [hjA,hr.homed j hj,htags,hA]
    by_cases hut : u = t
    · simp [hut]
    by_cases hue : u = e
    · have hno := he .tags Head.noConfusion
      rw [hA] at hno
      simp [hue,hno]
    · simp [hsame u hut hue,hut,hue]
  · have htiled := hr.tiled
    rw [Arena.listed,hA,List.map_append,List.map_cons] at htiled
    have hcut := htiled.carve htype h0 hlt.le
    rw [remainder,if_neg (by omega),List.append_assoc] at hcut
    rw [Arena.listed,htags,List.map_append,List.map_cons,List.map_cons]
    simp only [List.mem_append,not_or] at hout
    have hmap : ∀ xs : List Tag, t ∉ xs → e ∉ xs → xs.map tag' = xs.map s.tag := fun xs ht he => by
      rw [htag',map_update_of_notMem ht,map_update_of_notMem he]
    rw [hmap ys hout.1.1 hout.2.1,hmap zs hout.1.2 hout.2.2]
    show Tiled 0 0 (ys.map s.tag ++ tag' e :: tag' t :: zs.map s.tag)
    rw [htag_e,htag_t]
    exact hcut
  · have hfilter : ∀ xs : List Tag, (∀ u ∈ xs, u ∈ ys ++ zs) → xs.filter (fun u => (tag' u).type = .span) =
        xs.filter fun u => (s.tag u).type = .span := fun xs hxs => List.filter_congr fun u hu => by
      rw [hsame u (fun hc => hout.1 (hc ▸ hxs u hu)) fun hc => hout.2 (hc ▸ hxs u hu)]
    rw [htags,hA,List.filter_append,List.filter_append,List.filter_cons,List.filter_cons,
      List.filter_cons,hfilter ys fun u hu => List.mem_append_left _ hu,
      hfilter zs fun u hu => List.mem_append_right _ hu]
    simp [htag_e,htag_t,htype]
  · intro u hu
    apply hsame
    · rintro rfl
      have := hr.span_of_mem hu
      simp [htype] at this
    · rintro rfl
      exact he .spans Head.noConfusion hu

theorem splitSegment (hr : Rep s A [t]) (hA : A .tags = ys ++ t :: zs)
    (htype : (s.tag t).type = .free) (hf : A .freeTags = e :: fs) {size : Nat} (h0 : 0 < size)
    (hlt : size < (s.tag t).size) :
    ∃ s' A', s.splitSegment t size = some (s',(s.tag t).base) ∧ Rep s' A' [] ∧
      s'.tag = Function.update
        (Function.update s.tag e ⟨(s.tag t).base,size,.allocated⟩) t
        ⟨(s.tag t).base + size,(s.tag t).size - size,.free⟩ ∧
      A' .tags = ys ++ e :: t :: zs ∧ A' .freeTags = fs ∧ s'.quantum = s.quantum := by
  have he : ∀ j, j ≠ .freeTags → e ∉ A j := hr.not_mem_free (by simp [hf])
  have het : t ≠ e := by
    rintro rfl
    exact he .tags Head.noConfusion (by simp [hA])
  have hend := hr.segment_end (t := t) (by simp [hA]) (by simp [htype])
  obtain ⟨l₁,halloc,hl₁⟩ := Arena.allocateTag_spec hr.linked hf
  have hA₁ : Function.update A .freeTags fs .tags = ys ++ t :: zs := by simp [hA]
  have hout : ∀ j, j.byTag = Head.tags.byTag → e ∉ Function.update A .freeTags fs j := by
    intro j hj
    by_cases hjf : j = .freeTags
    · subst hjf
      have hnd := hr.linked.nodup .freeTags
      rw [hf] at hnd
      rw [Function.update_self]
      exact (List.nodup_cons.mp hnd).1
    · rw [Function.update_of_ne hjf]
      exact he j hjf
  obtain ⟨l₂,hadd,hl₂⟩ := hl₁.addBefore_at hA₁ hout
  have hr₂ := hr.carved hA htype hf h0 hlt hl₂
  obtain ⟨l₃,A₃,hins₃,hr₃,htags₃,hfree₃⟩ := hr₂.freelistInsert (by simp) (by simpa using het)
    (by simp)
  obtain ⟨l₄,A₄,hins₄,hr₄,htags₄,hfree₄⟩ := hr₃.hashTableInsert (by simp [htags₃])
    List.not_mem_nil (by simp [het.symm])
  refine ⟨_,A₄,?_,hr₄,rfl,?_,?_,rfl⟩
  · have hcut : BoundaryTag.mk (uadd (s.tag t).base size) (usub (s.tag t).size size)
        (s.tag t).type = ⟨(s.tag t).base + size,(s.tag t).size - size,.free⟩ := by
      rw [uadd_of_lt (by omega),usub_of_le hend.2 hlt.le,htype]
    have hcells : Head.tags.cell t = .tagList t ∧ Head.tags.cell e = .tagList e := ⟨rfl,rfl⟩
    rw [hcells.1,hcells.2] at hadd
    simp only [Arena.splitSegment,halloc,Arena.setTag,hcut,hadd,hins₃,hins₄,
      Option.bind_eq_bind,Option.bind_some,Option.pure_def]
    rw [Function.update_of_ne het.symm,Function.update_self]
  · simp [htags₄,htags₃]
  · simp [hfree₄,hfree₃]

theorem freelist_size (hr : Rep s A off) {i : Fin numFreelists} (ht : t ∈ A (.freelist i)) :
    (s.tag t).size.log2 = i.val ∧ 2 ^ i.val ≤ (s.tag t).size := by
  obtain ⟨hm,htype,hi⟩ := hr.on_freelist ht
  have hpos := (hr.segment hm (by simp [htype])).1
  have hlog : (s.tag t).size.log2 = i.val := by
    rw [← hi]
    exact (freelistIndexForSize_eq (hr.segment_end hm (by simp [htype])).2).symm
  rw [← hlog]
  exact ⟨rfl,Nat.log2_self_le (by omega)⟩

end Rep

def Carved (bs bs' : List BoundaryTag) (addr size : Nat) : Prop :=
  ∃ pre b post, bs = pre ++ b :: post ∧ b.type = .free ∧ size ≤ b.size ∧ addr = b.base ∧
    bs' = pre ++ (⟨addr,size,.allocated⟩ :: remainder b size) ++ post

section Alloc

variable {s : Arena} {A : Head → List Tag} {size : Nat} {i : Fin numFreelists}

theorem takeSegment_spec (hr : Rep s A []) (hA : A (.freelist i) ≠ []) (h0 : 0 < size)
    (hfit : size ≤ 2 ^ i.val) (hfree : A .freeTags ≠ [] ∨ (s.takeSegment i size).isSome) :
    ∃ s' A' addr, s.takeSegment i size = some (s',addr) ∧ Rep s' A' [] ∧
      Carved (s.listed A) (s'.listed A') addr size ∧ s'.quantum = s.quantum ∧
      (A' .tags).length + (A' .freeTags).length = (A .tags).length + (A .freeTags).length := by
  obtain ⟨t,ts,hA⟩ := List.exists_cons_of_ne_nil hA
  obtain ⟨ht,htype,-⟩ := hr.on_freelist (i := i) (t := t) (by simp [hA])
  have hsize := (hr.freelist_size (i := i) (t := t) (by simp [hA])).2
  obtain ⟨ys,zs,htags,hout⟩ := hr.split_tags ht
  rw [List.mem_append,not_or] at hout
  have hA' : A (.freelist i) = [] ++ t :: ts := hA
  obtain ⟨l₁,hrem,hr₁⟩ := hr.unhook hA' rfl Head.noConfusion
  set A₁ := Function.update A (.freelist i) ([] ++ ts) with hA₁
  have htags₁ : A₁ .tags = ys ++ t :: zs := by simp [hA₁,htags]
  have hf₁ : A₁ .freeTags = A .freeTags := by simp [hA₁]
  have hnext := hr.linked.next_head (.freelist i)
  have hcell : (Head.freelist i).cell t = .list t := rfl
  rw [hA,List.map_cons,List.cons_append,List.head?_cons,hcell] at hnext
  have htake : s.takeSegment i size =
      if (s.tag t).size = size then Arena.takeWhole { s with links := l₁ } t
      else Arena.splitSegment { s with links := l₁ } t size := by
    simp only [Arena.takeSegment,hnext,Cell.listEntry,hrem,Option.bind_eq_bind,Option.bind_some]
  have hlisted : s.listed A = ys.map s.tag ++ s.tag t :: zs.map s.tag := by
    rw [Arena.listed,htags,List.map_append,List.map_cons]
  by_cases hexact : (s.tag t).size = size
  · obtain ⟨s',A',hwhole,hr',htag',htags',hfree',hq⟩ := hr₁.takeWhole (by simp [htags₁]) htype
    refine ⟨s',A',_,?_,hr',⟨_,_,_,hlisted,htype,hexact.ge,rfl,?_⟩,hq,?_⟩
    · rw [htake,if_pos hexact,hwhole]
    · rw [Arena.listed,htags',htags₁,List.map_append,List.map_cons,htag',
        map_update_of_notMem hout.1,map_update_of_notMem hout.2,Function.update_self,remainder,
        if_pos hexact,← hexact,List.append_assoc]
      rfl
    · rw [htags',hfree',htags,htags₁,hf₁]
  · have hlt : size < (s.tag t).size := by omega
    have hfree : A .freeTags ≠ [] := by
      refine hfree.elim id fun hsome hnil => ?_
      have halloc := Arena.allocateTag_none hr₁.linked (hf₁.trans hnil)
      rw [htake,if_neg hexact,Arena.splitSegment,halloc] at hsome
      cases hsome
    obtain ⟨e,fs,hf⟩ := List.exists_cons_of_ne_nil hfree
    obtain ⟨s',A',hsplit,hr',htag',htags',hfree',hq⟩ :=
      hr₁.splitSegment htags₁ htype (hf₁.trans hf) h0 hlt
    refine ⟨s',A',_,?_,hr',⟨_,_,_,hlisted,htype,hlt.le,rfl,?_⟩,hq,?_⟩
    · rw [htake,if_neg hexact,hsplit]
    · have he : e ∉ ys ++ t :: zs := htags ▸ hr.not_mem_free (by simp [hf]) .tags Head.noConfusion
      simp only [List.mem_append,List.mem_cons,not_or] at he
      rw [Arena.listed,htags',List.map_append,List.map_cons,List.map_cons,htag',
        map_update_of_notMem hout.1,map_update_of_notMem hout.2,map_update_of_notMem he.1,
        map_update_of_notMem he.2.2,Function.update_self,Function.update_of_ne he.2.1,
        Function.update_self,remainder,if_neg hexact,List.append_assoc]
      rfl
    · rw [htags',hfree',htags,hf]
      simp only [List.length_append,List.length_cons]
      omega

theorem find_none_iff (hr : Rep s A []) (h0 : size ≠ 0) (h64 : size < 2 ^ 64) :
    ((List.finRange numFreelists).find? fun i =>
        Arena.searchIndex size ≤ i.val && !s.links.isEmpty (.head (.freelist i))) = none ↔
      ∀ t ∈ A .tags, (s.tag t).type = .free → (s.tag t).size < 2 ^ Nat.clog 2 size := by
  rw [searchIndex_eq h0 h64,List.find?_eq_none]
  constructor
  · intro h t ht htype
    have hpos := (hr.segment ht (by simp [htype])).1
    have hend := (hr.segment_end ht (by simp [htype])).2
    have hi : t ∈ A (.freelist (freelistIndexForSize (s.tag t).size)) :=
      (hr.homed _ rfl t).mpr ⟨ht,List.not_mem_nil,by rw [home,htype]⟩
    have hlog := (hr.freelist_size hi).1
    have hno := h (freelistIndexForSize (s.tag t).size) (List.mem_finRange _)
    simp only [Bool.and_eq_true,decide_eq_true_iff,Bool.not_eq_true',not_and] at hno
    by_contra hge
    have hle : Nat.clog 2 size ≤ (s.tag t).size.log2 :=
      (Nat.le_log2 (by omega)).mpr (Nat.le_of_not_lt hge)
    refine hno (hlog ▸ hle) ?_
    rw [Bool.eq_false_iff,ne_eq,hr.linked.isEmpty_iff]
    exact List.ne_nil_of_mem hi
  · intro h i _ hi
    simp only [Bool.and_eq_true,decide_eq_true_iff,Bool.not_eq_true'] at hi
    obtain ⟨hle,hne⟩ := hi
    rw [Bool.eq_false_iff,ne_eq,hr.linked.isEmpty_iff] at hne
    obtain ⟨t,ht⟩ := List.exists_mem_of_ne_nil _ hne
    obtain ⟨hm,htype,-⟩ := hr.on_freelist ht
    have hlt := h t hm htype
    have hge := (hr.freelist_size ht).2
    have hpow : 2 ^ Nat.clog 2 size ≤ 2 ^ i.val := Nat.pow_le_pow_right (by decide) hle
    omega

theorem xalloc_spec (hr : Rep s A []) (hfree : A .freeTags ≠ [] ∨ (s.xalloc size).isSome) (h0 : size ≠ 0)
    (hq : size % s.quantum = 0) (h64 : size < 2 ^ 64) :
    (∀ t ∈ A .tags, (s.tag t).type = .free → (s.tag t).size < 2 ^ Nat.clog 2 size) ∧
        s.xalloc size = some (s,0) ∨
      (∃ t ∈ A .tags, (s.tag t).type = .free ∧ 2 ^ Nat.clog 2 size ≤ (s.tag t).size) ∧
        ∃ s' A' addr, s.xalloc size = some (s',addr) ∧ Rep s' A' [] ∧
          Carved (s.listed A) (s'.listed A') addr size ∧ s'.quantum = s.quantum ∧
          (A' .tags).length + (A' .freeTags).length =
            (A .tags).length + (A .freeTags).length := by
  have hnone := find_none_iff hr h0 h64
  have hassert : ¬(size = 0 ∨ size % s.quantum ≠ 0) := by simp [h0,hq]
  cases hfind : (List.finRange numFreelists).find? fun i =>
      Arena.searchIndex size ≤ i.val && !s.links.isEmpty (.head (.freelist i)) with
  | none => exact .inl ⟨hnone.mp hfind,by rw [Arena.xalloc,if_neg hassert,hfind]⟩
  | some i =>
    have htake : s.xalloc size = s.takeSegment i size := by
      rw [Arena.xalloc,if_neg hassert,hfind]
    rw [htake] at hfree ⊢
    have hsome : ¬∀ t ∈ A .tags, (s.tag t).type = .free →
        (s.tag t).size < 2 ^ Nat.clog 2 size := by
      intro h
      rw [hnone.mpr h] at hfind
      cases hfind
    have hfound := List.find?_some hfind
    simp only [searchIndex_eq h0 h64,Bool.and_eq_true,decide_eq_true_iff,
      Bool.not_eq_true'] at hfound
    obtain ⟨hle,hne⟩ := hfound
    rw [Bool.eq_false_iff,ne_eq,hr.linked.isEmpty_iff] at hne
    have hfit : size ≤ 2 ^ i.val := (Nat.clog_le_iff_le_pow (by decide)).mp hle
    push Not at hsome
    exact .inr ⟨hsome,takeSegment_spec hr hne (Nat.pos_of_ne_zero h0) hfit hfree⟩

end Alloc

end SabaOS.Mem.Vmem
