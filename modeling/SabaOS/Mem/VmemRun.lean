import SabaOS.Mem.Vmem
import SabaOS.Lib.Tracking

namespace SabaOS.Mem.Vmem

open SabaOS.Klib SabaOS.Lib

def blank : Arena := ⟨0,fun _ => ⟨0,0,.free⟩,fun _ => .null⟩

def arenaHeads : List Head :=
  .tags :: .spans :: ((List.finRange numFreelists).map .freelist ++
    (List.finRange numHashBuckets).map .bucket)

def follower (next : Cell) : Option Cell :=
  if next = .head .spans then some (.head .tags) else next.listEntry.map .tagList

inductive Freeing where
  | done (s : Arena)
  | corrupted

def Freeing.isDone : Freeing → Bool
  | .done _ => true
  | .corrupted => false

namespace Arena

def earlyInit (s : Arena) : Option Arena := do
  let links ← (List.finRange numStaticTags).foldlM
    (fun l t => l.addBefore (.head .freeTags) (.tagList t)) (s.links.init (.head .freeTags))
  return { s with links := links }

def init (s : Arena) (quantum : Nat) : Arena where
  quantum := quantum
  tag := s.tag
  links := arenaHeads.foldl (fun l h => l.init (.head h)) s.links

def add (s : Arena) (base size : Nat) : Option Arena := do
  -- `previous_span` is the first span from `base` on, or made from the head of the list: never null
  let previous ← s.links.find (.head .spans)
    (fun c => c.listEntry.any fun span => base ≤ (s.tag span).base) (numStaticTags + 1)
  let (newSpan,s) ← s.allocateTag
  let s := s.setTag newSpan ⟨base,size,.span⟩
  let (newSegment,s) ← s.allocateTag
  let s := s.setTag newSegment ⟨base,size,.free⟩
  let next ← (s.links previous).next
  let links ← s.links.add previous (.list newSpan)
  let links ← links.addBefore (← follower next) (.tagList newSpan)
  let links ← links.add (.tagList newSpan) (.tagList newSegment)
  Arena.freelistInsert { s with links := links } newSegment

-- Here `LIST_ENTRY` is given the member `list` for a node of `tag_list`: the tag lies 16 bytes
-- too low, and what is read as its type is the low half of the base.
def misreadFree (s : Arena) (t : Tag) : Bool := (s.tag t).base % 2 ^ 32 = 0

def xfree (s : Arena) (addr size : Nat) : Option Freeing := do
  let found ← s.links.find (.head (.bucket (hashBucketForAddr addr)))
    (fun c => c.listEntry.any fun t => (s.tag t).base = addr) (numStaticTags + 1)
  let segment ← found.listEntry
  if size ≠ 0 ∧ size ≠ (s.tag segment).size then none
  else
    let links ← s.links.remove (.list segment)
    let s := { s with links := links }
    let left ← (← (s.links (.tagList segment)).prev).tagListEntry
    let next ← (s.links (.tagList segment)).next
    -- `expand_free_segment` writes the base and the size of the misplaced tag.
    if s.misreadFree left ∨ next.tagListEntry.any s.misreadFree then return .corrupted
    else return .done (← (s.setType segment .free).freelistInsert segment)

end Arena

inductive Op where
  | add (base size : Nat)
  | xalloc (size : Nat)
  | xfree (addr size : Nat)
deriving DecidableEq, Repr

def Op.spans : Op → List BoundaryTag
  | .add base size => [⟨base,size,.span⟩]
  | _ => []

def Op.Legal : Op → Prop
  | .add base size => 0 < size ∧ base + size ≤ 2 ^ 64 ∧ size < 2 ^ 64
  | .xalloc size => size < 2 ^ 64
  | .xfree _ _ => True

-- After a corruption the arena can be anything.
inductive Step : Arena → Op → Arena → Prop
  | add {s s' : Arena} {base size : Nat} : s.add base size = some s' → Step s (.add base size) s'
  | xalloc {s s' : Arena} {size addr : Nat} :
      s.xalloc size = some (s',addr) → Step s (.xalloc size) s'
  | xfree {s s' : Arena} {addr size : Nat} :
      s.xfree addr size = some (.done s') → Step s (.xfree addr size) s'
  | corrupted {s s' : Arena} {addr size : Nat} :
      s.xfree addr size = some .corrupted → Step s (.xfree addr size) s'

def Arena.Spared (s : Arena) : Op → Prop
  | .xfree addr size => s.xfree addr size ≠ some .corrupted
  | _ => True

def SparedRun (s : Arena) (ops : List Op) : Prop := Along Step (fun s op _ => s.Spared op) s ops

def bootLists : Head → List Tag := Function.update (fun _ => []) .freeTags (List.finRange numStaticTags)

theorem init_other (l : Links Cell) (hs : List Head) (c : Cell) :
    hs.foldl (fun l h => l.init (.head h)) l c =
      if ∃ h ∈ hs, c = .head h then ⟨some c,some c⟩ else l c := by
  induction hs generalizing l with
  | nil => simp
  | cons h hs ih =>
    rw [List.foldl_cons,ih]
    by_cases hc : c = .head h
    · subst hc
      simp [Links.init]
    · simp [Links.init,hc]

theorem mem_arenaHeads (h : Head) : h ∈ arenaHeads ↔ h ≠ .freeTags := by
  cases h <;> simp [arenaHeads]

theorem earlyInit_spec : ∃ l, blank.earlyInit = some { blank with links := l } ∧
    Links.Ring l (.head .freeTags) ((List.finRange numStaticTags).map .tagList) := by
  have hnil := Links.Ring.nil_init blank.links (.head .freeTags)
  have hnd : (Cell.head .freeTags ::
      ([] ++ (List.finRange numStaticTags).map Cell.tagList)).Nodup := by
    rw [List.nil_append,List.nodup_cons]
    refine ⟨by simp,?_⟩
    exact (List.nodup_finRange _).map fun _ _ h => Cell.tagList.inj h
  obtain ⟨l,hl,hr⟩ := hnil.addBefore_all hnd
  rw [List.foldlM_map] at hl
  exact ⟨l,by rw [Arena.earlyInit]; simp [hl],hr⟩

def Booted (s : Arena) (quantum : Nat) : Prop :=
  ∃ s₀, blank.earlyInit = some s₀ ∧ s = s₀.init quantum

theorem Booted.rep {s : Arena} {quantum : Nat} (h : Booted s quantum) :
    Rep s bootLists [] ∧ s.quantum = quantum := by
  obtain ⟨s₀,hs₀,rfl⟩ := h
  obtain ⟨l,hl,hr⟩ := earlyInit_spec
  cases hs₀.symm.trans hl
  refine ⟨⟨?_,?_,by simp [Arena.listed,bootLists,Tiled],by simp [bootLists],by simp [bootLists],
    by simp [bootLists]⟩,rfl⟩
  · refine ⟨?_,fun _ _ => Cell.head.inj,?_,?_⟩
    · intro h
      have hlinks := init_other l arenaHeads
      by_cases hf : h = .freeTags
      · subst hf
        refine hr.congr fun c hc => (hlinks c).trans (if_neg ?_)
        rintro ⟨h,hm,rfl⟩
        have hne := (mem_arenaHeads h).mp hm
        simp [hne] at hc
      · have hnil : (bootLists h).map h.cell = [] := by simp [bootLists,hf]
        have hself := (hlinks (.head h)).trans (if_pos ⟨h,(mem_arenaHeads h).mpr hf,rfl⟩)
        rw [hnil]
        refine ⟨?_,by simp⟩
        show Links.Joined _ _ _
        exact ⟨congrArg ListHead.next hself,congrArg ListHead.prev hself⟩
    · intro i j hm
      obtain ⟨t,-,ht⟩ := List.mem_map.mp hm
      unfold Head.cell at ht
      split_ifs at ht
    · intro i j c hi hj
      have hfree : ∀ h, c ∈ (bootLists h).map h.cell → h = .freeTags := by
        intro h hm
        by_contra hne
        simp [bootLists,hne] at hm
      rw [hfree i hi,hfree j hj]
  · intro h hby t
    have hne : h ≠ .freeTags := by
      rintro rfl
      cases hby
    simp [bootLists,hne]

section Neighbours

variable {l : Links Cell} {A : Head → List Tag} {h : Head} {e : Tag} {ps qs : List Tag}

def before (h : Head) (ps : List Tag) : Cell := (ps.map h.cell).getLast?.getD (.head h)

def after (h : Head) (qs : List Tag) : Cell := (qs.map h.cell).head?.getD (.head h)

theorem before_entry (ps : List Tag) : (before .tags ps).tagListEntry = ps.getLast? := by
  rw [before,List.getLast?_map]
  cases ps.getLast? <;> rfl

theorem after_entry (qs : List Tag) : (after .tags qs).tagListEntry = qs.head? := by
  rw [after,List.head?_map]
  cases qs.head? <;> rfl

theorem Linked.next_before (hl : Linked l A) (hA : A h = ps ++ qs) :
    (l (before h ps)).next = some (after h qs) := by
  have hpath := (hl.ring h).path
  have hfirst : ∀ qs : List Tag, (qs.map h.cell ++ [Cell.head h]).head? = some (after h qs) := by
    intro qs
    cases qs <;> rfl
  rw [hA] at hpath
  rcases List.eq_nil_or_concat ps with rfl | ⟨xs,u,rfl⟩
  · rw [List.nil_append] at hpath
    exact hpath.next_eq.trans (hfirst qs)
  · rw [List.concat_eq_append,List.append_assoc,List.singleton_append,List.map_append,
      List.map_cons] at hpath
    have hu : before h (xs.concat u) = h.cell u := by simp [before]
    rw [hu]
    exact (Links.Path.append_iff.mp hpath).2.next_eq.trans (hfirst qs)

theorem Linked.prev_after {t : Tag} (hl : Linked l A) (hA : A h = ps ++ t :: qs) :
    (l (h.cell t)).prev = some (before h ps) := by
  have hpath := (hl.ring h).path
  rw [hA,List.map_append,List.map_cons] at hpath
  have hleft := (Links.Path.append_iff.mp hpath).1
  rcases List.eq_nil_or_concat ps with rfl | ⟨xs,u,rfl⟩
  · exact hleft.2
  · rw [List.concat_eq_append,List.map_append,List.map_singleton] at hleft
    have hu : before h (xs.concat u) = h.cell u := by simp [before]
    rw [hu]
    exact (Links.Path.append_iff.mp hleft).2.2

theorem Linked.add_after (hl : Linked l A) (hA : A h = ps ++ qs)
    (hout : ∀ j, j.byTag = h.byTag → e ∉ A j) : ∃ l', l.add (before h ps) (h.cell e) = some l' ∧
      Linked l' (Function.update A h (ps ++ e :: qs)) := by
  rcases List.eq_nil_or_concat ps with rfl | ⟨xs,u,rfl⟩
  · rw [List.nil_append] at hA
    obtain ⟨l',hadd,hl'⟩ := hl.add h hout
    rw [hA] at hl'
    exact ⟨l',hadd,hl'⟩
  · rw [List.concat_eq_append,List.append_assoc,List.singleton_append] at hA
    obtain ⟨l',hadd,hl'⟩ := hl.add_at hA hout
    have hu : before h (xs.concat u) = h.cell u := by simp [before]
    refine ⟨l',hu ▸ hadd,?_⟩
    rwa [List.concat_eq_append,List.append_assoc,List.singleton_append]

theorem Linked.add_before (hl : Linked l A) (hA : A h = ps ++ qs)
    (hout : ∀ j, j.byTag = h.byTag → e ∉ A j) :
    ∃ l', l.addBefore (after h qs) (h.cell e) = some l' ∧
      Linked l' (Function.update A h (ps ++ e :: qs)) := by
  cases qs with
  | nil =>
    obtain ⟨l',hadd,hl'⟩ := hl.addBefore h hout
    rw [hA,List.append_nil] at hl'
    exact ⟨l',hadd,hl'⟩
  | cons q qs => exact hl.addBefore_at hA hout

theorem cut_tags {p : Tag → Bool} {tags : List Tag} (h : tags.filter p = ps ++ qs) :
    ∃ pre post, tags = pre ++ post ∧ pre.filter p = ps ∧ post.filter p = qs ∧
      post.head? = qs.head? := by
  cases qs with
  | nil => exact ⟨tags,[],by simp,by simpa using h,rfl,rfl⟩
  | cons q qs =>
    obtain ⟨k₁,k₂,rfl,hk₁,hk₂⟩ := List.filter_eq_append_iff.mp h
    obtain ⟨m₁,m₂,rfl,hm₁,hq,hm₂⟩ := List.filter_eq_cons_iff.mp hk₂
    refine ⟨k₁ ++ m₁,q :: m₂,by simp,?_,by simp [hq,hm₂],rfl⟩
    rw [List.filter_append,hk₁,List.filter_eq_nil_iff.mpr hm₁,List.append_nil]

end Neighbours

theorem Tiled.insert {lo hi base size : Nat} {pre post : List BoundaryTag}
    (h : Tiled lo hi (pre ++ post)) (h0 : 0 < size) (hpost : ∀ b ∈ post.head?, b.type = .span) :
    Tiled lo hi (pre ++ ⟨base,size,.span⟩ :: ⟨base,size,.free⟩ :: post) := by
  refine Tiled.replace [] [⟨base,size,.span⟩,⟨base,size,.free⟩] ?_ h
  intro lo hi h
  have hspan : lo = hi ∧ Tiled (base + size) (base + size) post := by
    cases post with
    | nil => exact ⟨h,rfl⟩
    | cons b post =>
      rw [List.nil_append,Tiled,if_pos (hpost b rfl)] at h
      rw [Tiled,if_pos (hpost b rfl)]
      exact ⟨h.1,rfl,h.2⟩
  exact ⟨hspan.1,rfl,h0,hspan.2⟩

section Add

variable {s : Arena} {A : Head → List Tag} {off fs ps qs pre post : List Tag} {e₁ e₂ : Tag}
variable {base size : Nat}

theorem Rep.find_spec (hr : Rep s A off) (h : Head) (hby : h.byTag = false) (p : Tag → Bool) :
    s.links.find (.head h) (fun c => c.listEntry.any p) (numStaticTags + 1) =
      some ((((A h).find? p).map .list).getD (.head h)) := by
  have hlen : ((A h).map h.cell).length < numStaticTags + 1 := by
    rw [List.length_map]
    have := (hr.linked.nodup h).length_le_card
    rw [Fintype.card_fin] at this
    omega
  have hcell : h.cell = .list := by
    funext t
    simp [Head.cell,hby]
  rw [(hr.linked.ring h).find_eq _ hlen,List.find?_map,hcell]
  rfl

theorem Rep.previous_spec (hr : Rep s A off) (base : Nat) : ∃ ps qs, A .spans = ps ++ qs ∧
    s.links.find (.head .spans) (fun c => c.listEntry.any fun t => base ≤ (s.tag t).base)
      (numStaticTags + 1) = some (before .spans ps) ∧
    (ps = [] → ∀ t ∈ A .spans, (s.tag t).base < base) ∧
    (ps ≠ [] → ∃ t ∈ A .spans, base ≤ (s.tag t).base) := by
  rw [hr.find_spec .spans rfl]
  cases hfind : (A .spans).find? fun t => base ≤ (s.tag t).base with
  | none =>
    refine ⟨[],A .spans,rfl,rfl,fun _ t ht => ?_,fun h => (h rfl).elim⟩
    have := List.find?_eq_none.mp hfind t ht
    simpa using this
  | some u =>
    obtain ⟨hu,xs,qs,hA,-⟩ := List.find?_eq_some_iff_append.mp hfind
    have hcell : Head.spans.cell u = .list u := rfl
    refine ⟨xs ++ [u],qs,by simp [hA],by simp [before,hcell],by simp,fun _ => ?_⟩
    exact ⟨u,by simp [hA],by simpa using hu⟩

theorem Rep.added (hr : Rep s A []) (hf : A .freeTags = e₁ :: e₂ :: fs) (hpos : 0 < size)
    (hend : base + size ≤ 2 ^ 64 ∧ size < 2 ^ 64)
    (hapart : ∀ u ∈ A .spans, Apart ⟨base,size,.span⟩ (s.tag u)) (hspans : A .spans = ps ++ qs)
    (htags : A .tags = pre ++ post)
    (hpre : pre.filter (fun t => (s.tag t).type = .span) = ps)
    (hpost : post.filter (fun t => (s.tag t).type = .span) = qs) (hhead : post.head? = qs.head?)
    {l' : Links Cell} {A' : Head → List Tag} (hl : Linked l' A')
    (htags' : A' .tags = pre ++ e₁ :: e₂ :: post) (hspans' : A' .spans = ps ++ e₁ :: qs)
    (hother : ∀ j, j.byTag = false → j ≠ .spans → A' j = A j) :
    Rep { s with
        tag := Function.update (Function.update s.tag e₁ ⟨base,size,.span⟩) e₂ ⟨base,size,.free⟩
        links := l' } A' [e₂] := by
  set tag' := Function.update (Function.update s.tag e₁ ⟨base,size,.span⟩) e₂ ⟨base,size,.free⟩
    with htag'
  have hne : e₁ ≠ e₂ := by
    have hnd := hr.linked.nodup .freeTags
    rw [hf] at hnd
    exact fun hc => (List.nodup_cons.mp hnd).1 (by simp [hc])
  have he₁ : ∀ j, j ≠ .freeTags → e₁ ∉ A j := hr.not_mem_free (by simp [hf])
  have he₂ : ∀ j, j ≠ .freeTags → e₂ ∉ A j := hr.not_mem_free (by simp [hf])
  have htag₁ : tag' e₁ = ⟨base,size,.span⟩ := by
    rw [htag',Function.update_of_ne hne,Function.update_self]
  have htag₂ : tag' e₂ = ⟨base,size,.free⟩ := Function.update_self _ _ _
  have hsame : ∀ j, j ≠ .freeTags → ∀ u ∈ A j, tag' u = s.tag u := by
    intro j hj u hu
    have h1 : u ≠ e₁ := ne_of_mem_of_not_mem hu (he₁ j hj)
    have h2 : u ≠ e₂ := ne_of_mem_of_not_mem hu (he₂ j hj)
    rw [htag',Function.update_of_ne h2,Function.update_of_ne h1]
  have hin : ∀ u, u ∈ pre ∨ u ∈ post → u ∈ A .tags := by
    intro u hu
    rw [htags]
    exact List.mem_append.mpr hu
  have hkept : ∀ xs : List Tag, (∀ u ∈ xs, u ∈ A .tags) → xs.map tag' = xs.map s.tag ∧
      xs.filter (fun t => (tag' t).type = .span) = xs.filter fun t => (s.tag t).type = .span :=
    fun xs hxs => ⟨List.map_congr_left fun u hu => hsame .tags Head.noConfusion u (hxs u hu),
      List.filter_congr fun u hu => by rw [hsame .tags Head.noConfusion u (hxs u hu)]⟩
  have hkpre := hkept pre fun u hu => hin u (.inl hu)
  have hkpost := hkept post fun u hu => hin u (.inr hu)
  have hspan_mem : ∀ u, u ∈ A' .spans ↔ u ∈ A .spans ∨ u = e₁ := by
    intro u
    rw [hspans',hspans]
    simp only [List.mem_append,List.mem_cons]
    tauto
  refine ⟨hl,?_,?_,?_,?_,?_⟩
  · intro j hj u
    have htag_mem : u ∈ A' .tags ↔ u ∈ A .tags ∨ u = e₁ ∨ u = e₂ := by
      rw [htags',htags]
      simp only [List.mem_append,List.mem_cons]
      tauto
    have hjf : j ≠ .freeTags := by
      rintro rfl
      cases hj
    have hmem : u ∈ A' j ↔ u ∈ A j ∨ u = e₁ ∧ j = .spans := by
      by_cases hjs : j = .spans
      · subst hjs
        simpa using hspan_mem u
      · rw [hother j hj hjs]
        simp [hjs]
    rw [hmem,htag_mem,List.mem_singleton]
    by_cases h1 : u = e₁
    · subst h1
      have hhome : home (tag' u) = .spans := by rw [htag₁]; rfl
      rw [hhome]
      simp [he₁ j hjf,hne,eq_comm]
    by_cases h2 : u = e₂
    · subst h2
      simp [he₂ j hjf,h1]
    · have hu : tag' u = s.tag u := by
        rw [htag',Function.update_of_ne h2,Function.update_of_ne h1]
      show _ ↔ _ ∧ _ ∧ home (tag' u) = j
      rw [hu,hr.homed j hj]
      simp [h1,h2]
  · have htiled := hr.tiled
    rw [Arena.listed,htags,List.map_append] at htiled
    rw [Arena.listed,htags',List.map_append,List.map_cons,List.map_cons]
    show Tiled 0 0 (pre.map tag' ++ tag' e₁ :: tag' e₂ :: post.map tag')
    rw [hkpre.1,hkpost.1,htag₁,htag₂]
    refine htiled.insert hpos ?_
    intro b hb
    rw [List.head?_map,hhead] at hb
    obtain ⟨q,hq,rfl⟩ := Option.mem_map.mp hb
    exact hr.span_of_mem (hspans ▸ List.mem_append_right _ (List.mem_of_mem_head? hq))
  · rw [htags',hspans',List.filter_append,List.filter_cons,List.filter_cons,hkpre.2,hkpost.2,hpre,
      hpost]
    simp [htag₁,htag₂]
  · have hsymm : ∀ {x y : Tag}, Apart (tag' x) (tag' y) → Apart (tag' y) (tag' x) := fun h => h.symm
    have hold := hr.apart
    rw [hspans',List.pairwise_middle hsymm,List.pairwise_cons,← hspans]
    refine ⟨?_,hold.imp_of_mem ?_⟩
    · intro u hu
      rw [htag₁,hsame .spans Head.noConfusion u hu]
      exact hapart u hu
    · intro u v hu hv h
      rw [hsame .spans Head.noConfusion u hu,hsame .spans Head.noConfusion v hv]
      exact h
  · intro u hu
    show (tag' u).base + (tag' u).size ≤ 2 ^ 64 ∧ (tag' u).size < 2 ^ 64
    rcases (hspan_mem u).mp hu with hu | rfl
    · rw [hsame .spans Head.noConfusion u hu]
      exact hr.inside u hu
    · rw [htag₁]
      exact hend

theorem Linked.hook_span {l : Links Cell} (hl : Linked l A) (hspans : A .spans = ps ++ qs)
    (htags : A .tags = pre ++ post) (hhead : post.head? = qs.head?)
    (h₁ : ∀ j, e₁ ∉ A j) (h₂ : ∀ j, e₂ ∉ A j) (hne : e₁ ≠ e₂) :
    ∃ l₁ l₂ l₃ A', (l (before .spans ps)).next = some (after .spans qs) ∧
      l.add (before .spans ps) (.list e₁) = some l₁ ∧
      follower (after .spans qs) = some (after .tags post) ∧
      l₁.addBefore (after .tags post) (.tagList e₁) = some l₂ ∧
      l₂.add (.tagList e₁) (.tagList e₂) = some l₃ ∧ Linked l₃ A' ∧
      A' .tags = pre ++ e₁ :: e₂ :: post ∧ A' .spans = ps ++ e₁ :: qs ∧
      ∀ j, j ≠ .spans → j ≠ .tags → A' j = A j := by
  obtain ⟨l₁,hadd₁,hl₁⟩ := hl.add_after hspans fun j _ => h₁ j
  have htags₁ : Function.update A .spans (ps ++ e₁ :: qs) .tags = pre ++ post := by simp [htags]
  have hout₁ : ∀ j, j.byTag = Head.tags.byTag → e₁ ∉ Function.update A .spans (ps ++ e₁ :: qs) j := by
    intro j hj
    rw [Function.update_of_ne (by rintro rfl; cases hj)]
    exact h₁ j
  obtain ⟨l₂,hadd₂,hl₂⟩ := hl₁.add_before htags₁ hout₁
  have htags₂ : Function.update (Function.update A .spans (ps ++ e₁ :: qs)) .tags
      (pre ++ e₁ :: post) .tags = pre ++ e₁ :: post := Function.update_self _ _ _
  have hout₂ : ∀ j, j.byTag = Head.tags.byTag →
      e₂ ∉ Function.update (Function.update A .spans (ps ++ e₁ :: qs)) .tags (pre ++ e₁ :: post) j := by
    intro j hj
    by_cases hjt : j = .tags
    · subst hjt
      have h := h₂ .tags
      rw [htags] at h
      rw [Function.update_self]
      simp only [List.mem_append,List.mem_cons,not_or] at h ⊢
      exact ⟨h.1,hne.symm,h.2⟩
    · rw [Function.update_of_ne hjt,Function.update_of_ne (by rintro rfl; cases hj)]
      exact h₂ j
  obtain ⟨l₃,hadd₃,hl₃⟩ := hl₂.add_at htags₂ hout₂
  refine ⟨l₁,l₂,l₃,_,hl.next_before hspans,hadd₁,?_,hadd₂,hadd₃,hl₃,Function.update_self _ _ _,
    by simp,?_⟩
  · cases qs with
    | nil =>
      obtain rfl : post = [] := by simpa using hhead
      rfl
    | cons q qs =>
      obtain ⟨post',rfl⟩ : ∃ post', post = q :: post' := by
        cases post with
        | nil => simp at hhead
        | cons p post' => exact ⟨post',by simpa using hhead⟩
      rfl
  · intro j hjs hjt
    simp [hjs,hjt]

theorem add_spec (hr : Rep s A []) (hf : A .freeTags = e₁ :: e₂ :: fs) (hpos : 0 < size)
    (hend : base + size ≤ 2 ^ 64 ∧ size < 2 ^ 64)
    (hapart : ∀ u ∈ A .spans, Apart ⟨base,size,.span⟩ (s.tag u)) :
    ∃ s' A' ps qs, s.add base size = some s' ∧ Rep s' A' [] ∧ s'.quantum = s.quantum ∧
      A .spans = ps ++ qs ∧ A' .spans = ps ++ e₁ :: qs ∧
      (ps = [] → ∀ t ∈ A .spans, (s.tag t).base < base) ∧
      (ps ≠ [] → ∃ t ∈ A .spans, base ≤ (s.tag t).base) ∧
      s'.tag e₁ = ⟨base,size,.span⟩ ∧ (∀ u ∈ A .spans, s'.tag u = s.tag u) ∧
      (∀ b ∈ s'.listed A', b ∈ s.listed A ∨ b.base = base ∧ b.size = size) ∧
      (A' .tags).length = (A .tags).length + 2 ∧ A' .freeTags = fs := by
  obtain ⟨ps,qs,hspans,hfind,hfirst,hlater⟩ := hr.previous_spec base
  have hnd := hr.linked.nodup .freeTags
  rw [hf,List.nodup_cons,List.nodup_cons] at hnd
  obtain ⟨hnd₁,hnd₂,-⟩ := hnd
  have hne : e₁ ≠ e₂ := fun hc => hnd₁ (by simp [hc])
  have hm₁ : e₁ ∈ A .freeTags := by simp [hf]
  have hm₂ : e₂ ∈ A .freeTags := by simp [hf]
  obtain ⟨pre,post,htags,hpre,hpost,hhead⟩ := cut_tags (hr.spans.symm.trans hspans)
  obtain ⟨l₁,halloc₁,hl₁⟩ := Arena.allocateTag_spec hr.linked hf
  set A₁ := Function.update A .freeTags (e₂ :: fs) with hA₁
  have hf₁ : A₁ .freeTags = e₂ :: fs := Function.update_self _ _ _
  have hl₁' : Linked (Arena.setTag { s with links := l₁ } e₁ ⟨base,size,.span⟩).links A₁ := hl₁
  obtain ⟨l₂,halloc₂,hl₂⟩ := Arena.allocateTag_spec hl₁' hf₁
  set A₂ := Function.update A₁ .freeTags fs with hA₂
  have hA₂_of : ∀ j, j ≠ .freeTags → A₂ j = A j := fun j hj => by simp [hA₂,hA₁,hj]
  have hA₂_free : A₂ .freeTags = fs := Function.update_self _ _ _
  have hout : ∀ e ∈ A .freeTags, e ∉ fs → ∀ j, e ∉ A₂ j := by
    intro e he hno j
    by_cases hj : j = .freeTags
    · rw [hj,hA₂_free]
      exact hno
    · rw [hA₂_of j hj]
      exact hr.not_mem_free he j hj
  have h₁ := hout e₁ hm₁ fun hc => hnd₁ (List.mem_cons_of_mem _ hc)
  have h₂ := hout e₂ hm₂ hnd₂
  obtain ⟨l₃,l₄,l₅,A₅,hnext,hadd₃,hfollow,hadd₄,hadd₅,hl₅,htags₅,hspans₅,hother₅⟩ :=
    hl₂.hook_span ((hA₂_of .spans Head.noConfusion).trans hspans)
      ((hA₂_of .tags Head.noConfusion).trans htags) hhead h₁ h₂ hne
  have hr₅ := hr.added hf hpos hend hapart hspans htags hpre hpost hhead hl₅ htags₅ hspans₅
    fun j hj hjs => (hother₅ j hjs (by rintro rfl; cases hj)).trans
      (hA₂_of j (by rintro rfl; cases hj))
  obtain ⟨l₆,A₆,hins,hr₆,htags₆,hfree₆⟩ := hr₅.freelistInsert (by simp [htags₅]) List.not_mem_nil
    (by simp)
  have hspans₆ : A₆ .spans = ps ++ e₁ :: qs := by
    rw [hr₆.spans,htags₆,← hr₅.spans,hspans₅]
  refine ⟨_,A₆,ps,qs,?_,hr₆,rfl,hspans,hspans₆,hfirst,hlater,?_,?_,?_,?_,?_⟩
  · simp only [Arena.add,hfind,halloc₁,halloc₂,Option.bind_eq_bind,Option.bind_some]
    simp only [Arena.setTag,hnext,hadd₃,hfollow,hadd₄,hadd₅,Option.bind_some]
    exact hins
  · simp [Function.update_of_ne hne]
  · intro u hu
    have hu₁ : u ≠ e₁ := ne_of_mem_of_not_mem hu (hr.not_mem_free hm₁ .spans Head.noConfusion)
    have hu₂ : u ≠ e₂ := ne_of_mem_of_not_mem hu (hr.not_mem_free hm₂ .spans Head.noConfusion)
    simp [Function.update_of_ne hu₁,Function.update_of_ne hu₂]
  · intro b hb
    obtain ⟨u,hu,rfl⟩ := List.mem_map.mp hb
    by_cases hu₁ : u = e₁
    · simp [hu₁,Function.update_of_ne hne]
    by_cases hu₂ : u = e₂
    · simp [hu₂]
    · have hold : u ∈ A .tags := by
        rw [htags₆,htags₅] at hu
        rw [htags]
        simpa [hu₁,hu₂] using hu
      refine .inl (List.mem_map.mpr ⟨u,hold,?_⟩)
      simp [Function.update_of_ne hu₁,Function.update_of_ne hu₂]
  · rw [htags₆,htags₅,htags]
    simp only [List.length_append,List.length_cons]
    omega
  · rw [hfree₆,hother₅ .freeTags Head.noConfusion Head.noConfusion,hA₂_free]

end Add

def Freed (bs bs' : List BoundaryTag) (addr size : Nat) : Prop :=
  ∃ pre b post, bs = pre ++ b :: post ∧ b.type = .allocated ∧ b.base = addr ∧
    (size = 0 ∨ size = b.size) ∧ (∀ c ∈ pre.getLast?, c.base % 2 ^ 32 ≠ 0) ∧
    (∀ c ∈ post.head?, c.base % 2 ^ 32 ≠ 0) ∧ bs' = pre ++ { b with type := .free } :: post

section Free

variable {s s' : Arena} {A : Head → List Tag} {addr size : Nat}

theorem setType_listed {t : Tag} {ys zs : List Tag} (type : TagType) (hA : A .tags = ys ++ t :: zs)
    (hout : t ∉ ys ++ zs) : (s.setType t type).listed A =
      ys.map s.tag ++ { s.tag t with type := type } :: zs.map s.tag := by
  rw [List.mem_append,not_or] at hout
  rw [Arena.listed,hA,List.map_append,List.map_cons,Arena.setType,Arena.setTag,
    map_update_of_notMem hout.1,map_update_of_notMem hout.2]
  simp only [Function.update_self]

theorem xfree_spec (hr : Rep s A []) (h : s.xfree addr size = some (.done s')) :
    ∃ A', Rep s' A' [] ∧ Freed (s.listed A) (s'.listed A') addr size ∧ s'.quantum = s.quantum ∧
      A' .tags = A .tags ∧ A' .freeTags = A .freeTags := by
  have hfind := hr.find_spec (.bucket (hashBucketForAddr addr)) rfl fun t => (s.tag t).base = addr
  simp only [Arena.xfree,hfind,Option.bind_eq_bind,Option.bind_some] at h
  cases hfound : (A (.bucket (hashBucketForAddr addr))).find? fun t => (s.tag t).base = addr with
  | none =>
    rw [hfound] at h
    cases h
  | some t =>
    obtain ⟨hbase,xs,us,hbucket,-⟩ := List.find?_eq_some_iff_append.mp hfound
    rw [decide_eq_true_iff] at hbase
    obtain ⟨ht,-,hhome⟩ := (hr.homed (.bucket (hashBucketForAddr addr)) rfl t).mp (by simp [hbucket])
    have htype : (s.tag t).type = .allocated := by
      unfold home at hhome
      split at hhome
      · cases hhome
      · assumption
      · cases hhome
    obtain ⟨ys,zs,htags,hout⟩ := hr.split_tags ht
    obtain ⟨l₁,hrem,hr₁⟩ := hr.unhook hbucket rfl Head.noConfusion
    set A₁ := Function.update A (.bucket (hashBucketForAddr addr)) (xs ++ us) with hA₁
    have htags₁ : A₁ .tags = ys ++ t :: zs := by simp [hA₁,htags]
    have hprev := hr₁.linked.prev_after htags₁
    have htags₂ : A₁ .tags = (ys ++ [t]) ++ zs := by simp [htags₁]
    have hnext := hr₁.linked.next_before htags₂
    have hcell : Head.tags.cell t = .tagList t := rfl
    have hbefore : before .tags (ys ++ [t]) = .tagList t := by
      rw [before,List.map_append,List.map_singleton,List.getLast?_concat]
      rfl
    rw [hcell] at hprev
    rw [hbefore] at hnext
    dsimp only at hprev hnext
    have hr₂ := hr₁.setType (by simp [htags₁]) (by simp [htype]) .free (by decide)
    obtain ⟨l₂,A₂,hins,hr₃,htags₃,hfree₃⟩ := hr₂.freelistInsert (by simp [htags₁]) List.not_mem_nil
      (by simp [Arena.setType,Arena.setTag])
    rw [hfound] at h
    simp only [Option.map_some,Option.getD_some,Cell.listEntry,Option.bind_some,hrem,hprev,
      hnext] at h
    split at h
    · cases h
    rename_i hsize
    rw [before_entry] at h
    cases hleft : ys.getLast? with
    | none =>
      rw [hleft] at h
      cases h
    | some left =>
      rw [hleft,Option.bind_some,after_entry] at h
      split at h
      · cases h
      rename_i hmis
      rw [not_or] at hmis
      rw [hins] at h
      cases h
      refine ⟨A₂,hr₃,?_,rfl,by rw [htags₃,htags₁,htags],by simp [hfree₃,hA₁]⟩
      refine ⟨ys.map s.tag,s.tag t,zs.map s.tag,?_,htype,hbase,?_,?_,?_,?_⟩
      · rw [Arena.listed,htags,List.map_append,List.map_cons]
      · by_contra hc
        rw [not_or] at hc
        exact hsize hc
      · intro c hc
        rw [List.getLast?_map,hleft,Option.map_some,Option.mem_some_iff] at hc
        subst hc
        simpa [Arena.misreadFree] using hmis.1
      · intro c hc
        rw [List.head?_map] at hc
        obtain ⟨right,hright,rfl⟩ := Option.mem_map.mp hc
        rw [Option.mem_def.mp hright] at hmis
        simpa [Arena.misreadFree] using hmis.2
      · have hset := setType_listed (s := { s with links := l₁ }) .free htags₁ hout
        rw [Arena.listed,htags₁] at hset
        rw [Arena.listed,htags₃,htags₁]
        exact hset

end Free

def isSpan (b : BoundaryTag) : Bool := b.type = .span

theorem Tiled.apart {lo hi : Nat} {bs : List BoundaryTag} (h : Tiled lo hi bs)
    (hspans : (bs.filter isSpan).Pairwise Apart)
    (hout : ∀ p ∈ bs, p.type = .span → p.base + p.size ≤ lo ∨ hi ≤ p.base) :
    (bs.filter fun b => !isSpan b).Pairwise Apart := by
  induction bs generalizing lo hi with
  | nil => exact .nil
  | cons b bs ih =>
    rw [Tiled] at h
    split_ifs at h with hb
    · have hspan : isSpan b = true := decide_eq_true hb
      rw [List.filter_cons_of_pos hspan,List.pairwise_cons] at hspans
      rw [List.filter_cons_of_neg (by simp [hspan])]
      refine ih h.2 hspans.2 fun p hp hps => ?_
      exact (hspans.1 p (List.mem_filter.mpr ⟨hp,decide_eq_true hps⟩)).symm
    · obtain ⟨hbase,hpos,htail⟩ := h
      have hspan : isSpan b = false := decide_eq_false hb
      rw [List.filter_cons_of_neg (by simp [hspan])] at hspans
      rw [List.filter_cons_of_pos (by simp [hspan]),List.pairwise_cons]
      have hle := htail.le
      refine ⟨?_,ih htail hspans fun p hp hps => ?_⟩
      · intro c hc
        obtain ⟨hc,hcs⟩ := List.mem_filter.mp hc
        have hcs : c.type ≠ .span := by simpa [isSpan] using hcs
        obtain ⟨-,hin | ⟨p,hp,hps,hin⟩⟩ := htail.within hc hcs
        · exact .inl (by omega)
        · rcases hout p (List.mem_cons_of_mem _ hp) hps with hlt | hgt
          · exact .inr (by omega)
          · exact .inl (by omega)
      · have := hout p (List.mem_cons_of_mem _ hp) hps
        omega

theorem Tiled.ascending {lo hi : Nat} {bs : List BoundaryTag} (h : Tiled lo hi bs)
    (hno : ∀ b ∈ bs, b.type ≠ .span) :
    (∀ b ∈ bs, lo ≤ b.base) ∧ bs.Pairwise fun b c => b.base ≤ c.base := by
  induction bs generalizing lo with
  | nil => simp
  | cons b bs ih =>
    rw [Tiled,if_neg (hno b List.mem_cons_self)] at h
    obtain ⟨rfl,hpos,htail⟩ := h
    obtain ⟨hlow,hpair⟩ := ih htail fun c hc => hno c (List.mem_cons_of_mem _ hc)
    refine ⟨fun c hc => ?_,List.pairwise_cons.mpr ⟨fun c hc => ?_,hpair⟩⟩
    · rcases List.mem_cons.mp hc with rfl | hc
      · exact le_rfl
      · have := hlow c hc
        omega
    · have := hlow c hc
      omega

theorem Tiled.ascending_of_one {bs : List BoundaryTag} (h : Tiled 0 0 bs)
    (hone : (bs.filter isSpan).length ≤ 1) : bs.Pairwise fun b c => b.base ≤ c.base := by
  cases bs with
  | nil => exact .nil
  | cons b bs =>
    rw [Tiled] at h
    split_ifs at h with hb
    · have hspan : isSpan b = true := decide_eq_true hb
      rw [List.filter_cons_of_pos hspan,List.length_cons] at hone
      have hnil : bs.filter isSpan = [] := List.length_eq_zero_iff.mp (by omega)
      have hno : ∀ c ∈ bs, c.type ≠ .span := fun c hc hs =>
        List.filter_eq_nil_iff.mp hnil c hc (decide_eq_true hs)
      obtain ⟨hlow,hpair⟩ := h.2.ascending hno
      exact List.pairwise_cons.mpr ⟨hlow,hpair⟩
    · have := h.2.2.le
      omega

theorem Rep.listed_spans {s : Arena} {A : Head → List Tag} {off : List Tag} (hr : Rep s A off) :
    (s.listed A).filter isSpan = (A .spans).map s.tag := by
  rw [hr.spans,Arena.listed,List.filter_map]
  rfl

theorem Rep.segments_apart {s : Arena} {A : Head → List Tag} {off : List Tag} (hr : Rep s A off) :
    ((s.listed A).filter fun b => !isSpan b).Pairwise Apart := by
  refine hr.tiled.apart ?_ fun _ _ _ => .inr (Nat.zero_le _)
  rw [hr.listed_spans,List.pairwise_map]
  exact hr.apart

theorem Carved.spans {bs bs' : List BoundaryTag} {addr size : Nat} (h : Carved bs bs' addr size) :
    bs'.filter isSpan = bs.filter isSpan := by
  obtain ⟨pre,b,post,rfl,hb,-,-,rfl⟩ := h
  unfold remainder
  split_ifs <;> simp [isSpan,hb]

theorem Freed.spans {bs bs' : List BoundaryTag} {addr size : Nat} (h : Freed bs bs' addr size) :
    bs'.filter isSpan = bs.filter isSpan := by
  obtain ⟨pre,b,post,rfl,hb,-,-,-,-,rfl⟩ := h
  simp [isSpan,hb]

def Within (b c : BoundaryTag) : Prop := c.base ≤ b.base ∧ b.base + b.size ≤ c.base + c.size

def Finer (bs bs' added : List BoundaryTag) : Prop :=
  ∀ b ∈ bs', b.type ≠ .span → (∃ c ∈ bs, c.type ≠ .span ∧ Within b c) ∨ ∃ c ∈ added, Within b c

theorem Finer.refl (bs : List BoundaryTag) : Finer bs bs [] :=
  fun b hb hs => .inl ⟨b,hb,hs,le_rfl,le_rfl⟩

theorem Finer.trans {bs bs' bs'' added added' : List BoundaryTag} (h : Finer bs bs' added)
    (h' : Finer bs' bs'' added') : Finer bs bs'' (added ++ added') := by
  intro b hb hs
  rcases h' b hb hs with ⟨c,hc,hcs,hin⟩ | ⟨c,hc,hin⟩
  · rcases h c hc hcs with ⟨d,hd,hds,hin'⟩ | ⟨d,hd,hin'⟩
    · exact .inl ⟨d,hd,hds,hin'.1.trans hin.1,hin.2.trans hin'.2⟩
    · exact .inr ⟨d,List.mem_append_left _ hd,hin'.1.trans hin.1,hin.2.trans hin'.2⟩
  · exact .inr ⟨c,List.mem_append_right _ hc,hin⟩

theorem Carved.finer {bs bs' : List BoundaryTag} {addr size : Nat} (h : Carved bs bs' addr size) :
    Finer bs bs' [] := by
  obtain ⟨pre,b,post,rfl,hb,hle,rfl,rfl⟩ := h
  intro c hc hs
  have hcases : c ∈ pre ++ post ∨ Within c b := by
    simp only [List.mem_append,List.mem_cons] at hc ⊢
    rcases hc with (hc | rfl | hc) | hc
    · exact .inl (.inl hc)
    · exact .inr ⟨le_rfl,by dsimp only; omega⟩
    · unfold remainder at hc
      split_ifs at hc with heq
      · cases hc
      · rw [List.mem_singleton.mp hc]
        exact .inr ⟨Nat.le_add_right _ _,by dsimp only; omega⟩
    · exact .inl (.inr hc)
  left
  rcases hcases with hc | hin
  · refine ⟨c,?_,hs,le_rfl,le_rfl⟩
    simp only [List.mem_append,List.mem_cons] at hc ⊢
    tauto
  · exact ⟨b,by simp,by simp [hb],hin⟩

theorem Freed.finer {bs bs' : List BoundaryTag} {addr size : Nat} (h : Freed bs bs' addr size) :
    Finer bs bs' [] := by
  obtain ⟨pre,b,post,rfl,hb,-,-,-,-,rfl⟩ := h
  intro c hc hs
  left
  simp only [List.mem_append,List.mem_cons] at hc
  rcases hc with hc | rfl | hc
  · exact ⟨c,by simp [hc],hs,le_rfl,le_rfl⟩
  · exact ⟨b,by simp,by simp [hb],le_rfl,le_rfl⟩
  · exact ⟨c,by simp [hc],hs,le_rfl,le_rfl⟩

structure Holds (s : Arena) (A : Head → List Tag) (added : List BoundaryTag) : Prop where
  rep : Rep s A []
  spans : ((A .spans).map s.tag).Perm added
  tags : (A .tags).length + (A .freeTags).length = numStaticTags
  first : ∀ b ∈ ((A .spans).map s.tag).head?, ∀ c ∈ added, c.base ≤ b.base

theorem Holds.same {s s' : Arena} {A A' : Head → List Tag} {added : List BoundaryTag}
    (h : Holds s A added) (hr : Rep s' A' [])
    (hspans : (s'.listed A').filter isSpan = (s.listed A).filter isSpan)
    (htags : (A' .tags).length + (A' .freeTags).length = (A .tags).length + (A .freeTags).length) :
    Holds s' A' added := by
  rw [h.rep.listed_spans,hr.listed_spans] at hspans
  exact ⟨hr,hspans ▸ h.spans,htags.trans h.tags,hspans ▸ h.first⟩

section Run

variable {s s' : Arena} {A : Head → List Tag} {added : List BoundaryTag} {ops : List Op} {op : Op}

theorem add_tags {base size : Nat} (hr : Rep s A []) (h : s.add base size = some s') :
    ∃ e₁ e₂ fs, A .freeTags = e₁ :: e₂ :: fs := by
  obtain ⟨ps,qs,-,hfind,-,-⟩ := hr.previous_spec base
  simp only [Arena.add,hfind,Option.bind_eq_bind,Option.bind_some] at h
  cases hf : A .freeTags with
  | nil =>
    rw [Arena.allocateTag_none hr.linked hf] at h
    cases h
  | cons e₁ fs =>
    obtain ⟨l₁,halloc,hl₁⟩ := Arena.allocateTag_spec hr.linked hf
    cases fs with
    | nil =>
      have hl₁' : Linked (Arena.setTag { s with links := l₁ } e₁ ⟨base,size,.span⟩).links
        (Function.update A .freeTags []) := hl₁
      simp only [halloc,Option.bind_some,Arena.allocateTag_none hl₁' (Function.update_self _ _ _)] at h
      cases h
    | cons e₂ fs => exact ⟨e₁,e₂,fs,rfl⟩

theorem Holds.add {base size : Nat} (h : Holds s A added) (hlegal : (Op.add base size).Legal)
    (hapart : ∀ b ∈ added, Apart ⟨base,size,.span⟩ b) (hadd : s.add base size = some s') :
    ∃ A', Holds s' A' (added ++ [⟨base,size,.span⟩]) ∧
      Finer (s.listed A) (s'.listed A') [⟨base,size,.span⟩] := by
  obtain ⟨e₁,e₂,fs,hf⟩ := add_tags h.rep hadd
  have hold : ∀ u ∈ A .spans, s.tag u ∈ added := fun u hu =>
    h.spans.mem_iff.mp (List.mem_map_of_mem hu)
  obtain ⟨t,A',ps,qs,ht,hr',-,hspans,hspans',hfirst,hlater,hnew,hkept,hlisted,hlen,hfree⟩ :=
    add_spec h.rep hf hlegal.1 hlegal.2 fun u hu => hapart _ (hold u hu)
  cases hadd.symm.trans ht
  have hmap : ∀ us : List Tag, (∀ u ∈ us, u ∈ A .spans) → us.map s'.tag = us.map s.tag :=
    fun us hus => List.map_congr_left fun u hu => hkept u (hus u hu)
  have hps := hmap ps fun u hu => hspans ▸ List.mem_append_left _ hu
  have hqs := hmap qs fun u hu => hspans ▸ List.mem_append_right _ hu
  have hlist : (A' .spans).map s'.tag = ps.map s.tag ++ s'.tag e₁ :: qs.map s.tag := by
    rw [hspans',List.map_append,List.map_cons,hps,hqs]
  have hspan := h.spans
  rw [hspans,List.map_append] at hspan
  refine ⟨A',⟨hr',?_,?_,?_⟩,?_⟩
  · rw [hlist,hnew]
    exact List.perm_middle.trans ((hspan.cons _).trans (List.perm_append_singleton _ _).symm)
  · have htags := h.tags
    rw [hf,List.length_cons,List.length_cons] at htags
    rw [hlen,hfree]
    omega
  · rw [hlist]
    intro b hb c hc
    cases ps with
    | nil =>
      rw [List.map_nil,List.nil_append,List.head?_cons,Option.mem_some_iff] at hb
      subst hb
      rw [hnew]
      rcases List.mem_append.mp hc with hc | hc
      · obtain ⟨u,hu,rfl⟩ := List.mem_map.mp (h.spans.mem_iff.mpr hc)
        exact (hfirst rfl u hu).le
      · rw [List.mem_singleton.mp hc]
    | cons p ps =>
      have hhead : b ∈ ((A .spans).map s.tag).head? := by
        rw [hspans]
        exact hb
      rcases List.mem_append.mp hc with hc | hc
      · exact h.first b hhead c hc
      · obtain ⟨u,hu,hle⟩ := hlater (List.cons_ne_nil _ _)
        rw [List.mem_singleton.mp hc]
        exact hle.trans (h.first b hhead _ (hold u hu))
  · intro b hb hs
    rcases hlisted b hb with hb | ⟨rfl,rfl⟩
    · exact .inl ⟨b,hb,hs,le_rfl,le_rfl⟩
    · exact .inr ⟨_,List.mem_singleton_self _,le_rfl,le_rfl⟩

theorem Holds.step (h : Holds s A added) (hlegal : op.Legal) (hspared : s.Spared op)
    (hapart : (added ++ op.spans).Pairwise Apart) (hstep : Step s op s') :
    ∃ A', Holds s' A' (added ++ op.spans) ∧ Finer (s.listed A) (s'.listed A') op.spans := by
  cases hstep with
  | add hadd =>
    refine h.add hlegal (fun b hb => ?_) hadd
    exact ((List.pairwise_append.mp hapart).2.2 b hb _ (List.mem_singleton_self _)).symm
  | @xalloc _ size addr halloc =>
    show ∃ A', Holds s' A' (added ++ []) ∧ Finer (s.listed A) (s'.listed A') []
    rw [List.append_nil]
    have hassert : ¬(size = 0 ∨ size % s.quantum ≠ 0) := by
      intro hc
      rw [Arena.xalloc,if_pos hc] at halloc
      cases halloc
    rw [not_or,not_not] at hassert
    obtain ⟨-,hnone⟩ | ⟨-,t,A',a,ht,hr',hcarved,-,htags⟩ :=
      xalloc_spec h.rep (.inr (Option.isSome_of_mem halloc)) hassert.1 hassert.2 hlegal
    · cases halloc.symm.trans hnone
      exact ⟨A,h,Finer.refl _⟩
    · cases halloc.symm.trans ht
      exact ⟨A',h.same hr' hcarved.spans htags,hcarved.finer⟩
  | @xfree _ addr size hfree =>
    show ∃ A', Holds s' A' (added ++ []) ∧ Finer (s.listed A) (s'.listed A') []
    rw [List.append_nil]
    obtain ⟨A',hr',hfreed,-,htags,hfree'⟩ := xfree_spec h.rep hfree
    exact ⟨A',h.same hr' hfreed.spans (by rw [htags,hfree']),hfreed.finer⟩
  | corrupted hfree => exact absurd hfree hspared

theorem Holds.run (h : Holds s A added) (hlegal : ∀ op ∈ ops, op.Legal) (hspared : SparedRun s ops)
    (hapart : (added ++ ops.flatMap Op.spans).Pairwise Apart) (hrun : Runs Step s ops s') :
    ∃ A', Holds s' A' (added ++ ops.flatMap Op.spans) ∧
      Finer (s.listed A) (s'.listed A') (ops.flatMap Op.spans) := by
  induction ops generalizing s A added with
  | nil =>
    cases hrun
    exact ⟨A,by simpa using h,Finer.refl _⟩
  | cons op ops ih =>
    obtain ⟨u,hstep,hrun⟩ := hrun
    obtain ⟨hop,hrest⟩ := hspared u hstep
    rw [List.flatMap_cons,← List.append_assoc] at hapart ⊢
    obtain ⟨A₁,h₁,hfiner₁⟩ :=
      h.step (hlegal op List.mem_cons_self) hop (List.pairwise_append.mp hapart).1 hstep
    obtain ⟨A',h',hfiner'⟩ :=
      ih h₁ (fun o ho => hlegal o (List.mem_cons_of_mem _ ho)) hrest hapart hrun
    exact ⟨A',h',hfiner₁.trans hfiner'⟩

theorem Booted.holds {quantum : Nat} (h : Booted s quantum) : Holds s bootLists [] where
  rep := h.rep.1
  spans := by simp [bootLists]
  tags := by simp [bootLists]
  first := by simp [bootLists]

theorem booted_exists (quantum : Nat) : ∃ s, Booted s quantum := by
  obtain ⟨l,hl,-⟩ := earlyInit_spec
  exact ⟨_,_,hl,rfl⟩

theorem three_tags {l : List Tag} (h : 3 ≤ l.length) : ∃ e₁ e₂ e₃ fs, l = e₁ :: e₂ :: e₃ :: fs := by
  rcases l with _ | ⟨e₁,_ | ⟨e₂,_ | ⟨e₃,fs⟩⟩⟩
  · simp at h
  · simp at h
  · simp at h
  · exact ⟨e₁,e₂,e₃,fs,rfl⟩

theorem Booted.add {quantum base size : Nat} (h : Booted s quantum) (hpos : 0 < size)
    (hend : base + size ≤ 2 ^ 64 ∧ size < 2 ^ 64) :
    ∃ s' A', s.add base size = some s' ∧ Rep s' A' [] ∧ s'.quantum = quantum ∧
      A' .freeTags ≠ [] ∧ ∀ t ∈ A' .spans, (s'.tag t).base = base := by
  have hlen : 3 ≤ (List.finRange numStaticTags).length := by
    rw [List.length_finRange]
    decide
  obtain ⟨e₁,e₂,e₃,fs,hf⟩ := three_tags hlen
  have hfree : bootLists .freeTags = e₁ :: e₂ :: e₃ :: fs := (Function.update_self _ _ _).trans hf
  obtain ⟨s',A',ps,qs,hadd,hr',hq,hnil,hspans,-,-,hnew,-,-,-,hfree'⟩ :=
    add_spec h.rep.1 hfree hpos hend (by simp [bootLists])
  have hboth := List.append_eq_nil_iff.mp (hnil.symm.trans (show bootLists .spans = [] from rfl))
  refine ⟨s',A',hadd,hr',hq.trans h.rep.2,by rw [hfree']; exact List.cons_ne_nil _ _,?_⟩
  intro t ht
  rw [hspans,hboth.1,hboth.2] at ht
  rw [List.mem_singleton.mp ht,hnew]

theorem arena_run {quantum : Nat} {s₀ : Arena} (hboot : Booted s₀ quantum)
    (hlegal : ∀ op ∈ ops, op.Legal) (hspared : SparedRun s₀ ops) (hapart : (ops.flatMap Op.spans).Pairwise Apart)
    (hrun : Runs Step s₀ ops s) :
    ∃ A, Rep s A [] ∧ ((s.listed A).filter fun b => !isSpan b).Pairwise Apart ∧
      ((s.listed A).filter isSpan).Perm (ops.flatMap Op.spans) ∧
      (A .tags).length + (A .freeTags).length = numStaticTags := by
  obtain ⟨A,h,-⟩ := hboot.holds.run hlegal hspared hapart hrun
  refine ⟨A,h.rep,h.rep.segments_apart,?_,h.tags⟩
  rw [h.rep.listed_spans]
  exact h.spans

def sampleOps : List Op := [.add 0x10000 0x8000,.xalloc 0x1000,.xfree 0x10000 0x1000]

theorem sample_steps : ∃ s₀ s₁ s₂ s₃, Booted s₀ 0x1000 ∧ Step s₀ (.add 0x10000 0x8000) s₁ ∧
    Step s₁ (.xalloc 0x1000) s₂ ∧ Step s₂ (.xfree 0x10000 0x1000) s₃ ∧ SparedRun s₀ sampleOps := by
  obtain ⟨s,hinit,h⟩ := (Option.any_eq_true _ _).mp (show blank.earlyInit.any (fun s =>
    ((s.init 0x1000).add 0x10000 0x8000).any fun s => (s.xalloc 0x1000).any fun r =>
      (r.1.xfree 0x10000 0x1000).any Freeing.isDone) = true by decide +kernel)
  obtain ⟨s₁,hadd,h⟩ := (Option.any_eq_true _ _).mp h
  obtain ⟨⟨s₂,addr⟩,halloc,h⟩ := (Option.any_eq_true _ _).mp h
  obtain ⟨freed,hfree,hdone⟩ := (Option.any_eq_true _ _).mp h
  cases freed with
  | corrupted => cases hdone
  | done s₃ =>
    refine ⟨s.init 0x1000,s₁,s₂,s₃,⟨s,hinit,rfl⟩,.add hadd,.xalloc halloc,.xfree hfree,?_⟩
    intro u hu
    refine ⟨trivial,fun v hv => ⟨trivial,fun w hw => ⟨?_,trivial⟩⟩⟩
    cases hu with
    | add hu =>
      cases hadd.symm.trans hu
      cases hv with
      | xalloc hv =>
        cases halloc.symm.trans hv
        exact fun hc => Freeing.noConfusion (Option.some.inj (hfree.symm.trans hc))

theorem arena_run_one : ∃ s₀ s A, Booted s₀ 0x1000 ∧ Runs Step s₀ sampleOps s ∧ Rep s A [] ∧
    ((s.listed A).filter isSpan).Perm [⟨0x10000,0x8000,.span⟩] := by
  obtain ⟨s₀,s₁,s₂,s₃,hboot,hadd,halloc,hfree,hspared⟩ := sample_steps
  have hrun : Runs Step s₀ sampleOps s₃ := ⟨s₁,hadd,s₂,halloc,s₃,hfree,rfl⟩
  have hlegal : ∀ op ∈ sampleOps, op.Legal := by
    simp [sampleOps,Op.Legal]
  obtain ⟨A,hr,-,hspans,-⟩ := arena_run hboot hlegal hspared (by simp [sampleOps,Op.spans]) hrun
  exact ⟨s₀,s₃,A,hboot,hrun,hr,by simpa [sampleOps,Op.spans] using hspans⟩

theorem arena_xalloc {size : Nat} (hr : Rep s A []) (hzero : ∀ t ∈ A .spans, (s.tag t).base ≠ 0)
    (hfree : A .freeTags ≠ []) (h0 : size ≠ 0) (hq : size % s.quantum = 0) (h64 : size < 2 ^ 64) :
    ∃ s' addr, s.xalloc size = some (s',addr) ∧
      (addr = 0 ↔ ∀ t ∈ A .tags, (s.tag t).type = .free →
        (s.tag t).size < 2 ^ Nat.clog 2 size) ∧
      (addr = 0 → s' = s) ∧
      (addr ≠ 0 → ∃ A', Rep s' A' [] ∧ Carved (s.listed A) (s'.listed A') addr size) := by
  obtain ⟨hall,hnone⟩ | ⟨⟨t,ht,htype,hle⟩,s',A',addr,halloc,hr',hcarved,-,-⟩ :=
    xalloc_spec hr (.inl hfree) h0 hq h64
  · exact ⟨s,0,hnone,⟨fun _ => hall,fun _ => rfl⟩,fun _ => rfl,fun h => (h rfl).elim⟩
  · have haddr : addr ≠ 0 := by
      obtain ⟨pre,b,post,hlist,hb,-,rfl,-⟩ := hcarved
      have hm : b ∈ s.listed A := by simp [hlist]
      obtain ⟨u,hu,rfl⟩ := List.mem_map.mp hm
      obtain ⟨-,v,hv,hbase,-⟩ := hr.segment hu (by simp [hb])
      have := hzero v hv
      omega
    refine ⟨s',addr,halloc,⟨fun h => (haddr h).elim,fun h => ?_⟩,fun h => (haddr h).elim,
      fun _ => ⟨A',hr',hcarved⟩⟩
    have := h t ht htype
    omega

theorem arena_xalloc_one : ∃ s A s' addr, Rep s A [] ∧ s.xalloc 0x3000 = some (s',addr) ∧
    (addr ≠ 0 → ∃ A', Rep s' A' [] ∧ Carved (s.listed A) (s'.listed A') addr 0x3000) := by
  obtain ⟨s₀,hboot⟩ := booted_exists 0x1000
  obtain ⟨s₁,A₁,hadd,hr₁,hq,hfree,hbase⟩ := hboot.add (by decide : 0 < 0x8000)
    (by decide : 0x10000 + 0x8000 ≤ 2 ^ 64 ∧ 0x8000 < 2 ^ 64)
  have hzero : ∀ t ∈ A₁ .spans, (s₁.tag t).base ≠ 0 := by
    intro t ht
    rw [hbase t ht]
    decide
  obtain ⟨s',addr,halloc,-,-,hcarved⟩ :=
    arena_xalloc hr₁ hzero hfree (by decide) (by simp [hq]) (by decide : 0x3000 < 2 ^ 64)
  exact ⟨s₁,A₁,s',addr,hr₁,halloc,hcarved⟩

theorem arena_span_order {quantum : Nat} {s₀ : Arena} (hboot : Booted s₀ quantum)
    (hlegal : ∀ op ∈ ops, op.Legal) (hspared : SparedRun s₀ ops) (hapart : (ops.flatMap Op.spans).Pairwise Apart)
    (hrun : Runs Step s₀ ops s) :
    ∃ A, Rep s A [] ∧
      ((s.listed A).Pairwise (fun b c => b.base ≤ c.base) ↔ (ops.flatMap Op.spans).length ≤ 1) := by
  obtain ⟨A,h,-⟩ := hboot.holds.run hlegal hspared hapart hrun
  have hlen := h.spans.length_eq
  refine ⟨A,h.rep,?_⟩
  rw [← List.nil_append (ops.flatMap Op.spans),← hlen,← h.rep.listed_spans]
  refine ⟨fun hpair => ?_,h.rep.tiled.ascending_of_one⟩
  have hspans := hpair.filter isSpan
  have hdisjoint := List.pairwise_map.mpr h.rep.apart
  have hfirst := h.first
  have hmem : ∀ b ∈ (s.listed A).filter isSpan, b ∈ ops.flatMap Op.spans := fun b hb =>
    h.spans.mem_iff.mp (h.rep.listed_spans ▸ hb)
  rw [← h.rep.listed_spans] at hdisjoint hfirst
  rcases hl : (s.listed A).filter isSpan with _ | ⟨b,_ | ⟨c,bs⟩⟩
  · simp
  · simp
  · rw [hl] at hspans hdisjoint hfirst hmem
    have hle := (List.pairwise_cons.mp hspans).1 c (by simp)
    have hge := hfirst b rfl c (hmem c (by simp))
    have hap := (List.pairwise_cons.mp hdisjoint).1 c (by simp)
    have hpos : ∀ d ∈ ops.flatMap Op.spans, 0 < d.size := by
      intro d hd
      obtain ⟨op,hop,hd⟩ := List.mem_flatMap.mp hd
      cases op with
      | add base size =>
        rw [List.mem_singleton.mp hd]
        exact (hlegal _ hop).1
      | xalloc size => simp [Op.spans] at hd
      | xfree addr size => simp [Op.spans] at hd
    have hb := hpos b (hmem b (by simp))
    have hc := hpos c (hmem c (by simp))
    rcases hap with hap | hap <;> omega

theorem arena_span_order_one : ∃ s₀ s A, Booted s₀ 0x1000 ∧ Runs Step s₀ sampleOps s ∧ Rep s A [] ∧
    (s.listed A).Pairwise fun b c => b.base ≤ c.base := by
  obtain ⟨s₀,s₁,s₂,s₃,hboot,hadd,halloc,hfree,hspared⟩ := sample_steps
  have hrun : Runs Step s₀ sampleOps s₃ := ⟨s₁,hadd,s₂,halloc,s₃,hfree,rfl⟩
  obtain ⟨A,hr,hiff⟩ := arena_span_order hboot (by simp [sampleOps,Op.Legal]) hspared
    (by simp [sampleOps,Op.spans]) hrun
  exact ⟨s₀,s₃,A,hboot,hrun,hr,hiff.mpr (by simp [sampleOps,Op.spans])⟩

theorem arena_cuts_remain {quantum : Nat} {s₀ : Arena} {ops' : List Op} (hboot : Booted s₀ quantum)
    (hlegal : ∀ op ∈ ops ++ ops', op.Legal) (hspared : SparedRun s₀ (ops ++ ops'))
    (hapart : ((ops ++ ops').flatMap Op.spans).Pairwise Apart)
    (hrun : Runs Step s₀ ops s) (hrun' : Runs Step s ops' s') :
    ∃ A A', Rep s A [] ∧ Rep s' A' [] ∧
      Finer (s.listed A) (s'.listed A') (ops'.flatMap Op.spans) := by
  rw [List.flatMap_append] at hapart
  obtain ⟨hspared,hspared'⟩ := hspared.append
  obtain ⟨A,h,-⟩ := hboot.holds.run (fun op hop => hlegal op (List.mem_append_left _ hop)) hspared
    (List.pairwise_append.mp hapart).1 hrun
  obtain ⟨A',h',hfiner⟩ := h.run (fun op hop => hlegal op (List.mem_append_right _ hop))
    (hspared' s hrun) (by rwa [List.nil_append]) hrun'
  exact ⟨A,A',h.rep,h'.rep,hfiner⟩

theorem arena_cuts_remain_one : ∃ s₂ s₃ A A', Step s₂ (.xfree 0x10000 0x1000) s₃ ∧ Rep s₂ A [] ∧
    Rep s₃ A' [] ∧ Finer (s₂.listed A) (s₃.listed A') [] := by
  obtain ⟨s₀,s₁,s₂,s₃,hboot,hadd,halloc,hfree,hspared⟩ := sample_steps
  have hrun : Runs Step s₀ [.add 0x10000 0x8000,.xalloc 0x1000] s₂ := ⟨s₁,hadd,s₂,halloc,rfl⟩
  have hrun' : Runs Step s₂ [.xfree 0x10000 0x1000] s₃ := ⟨s₃,hfree,rfl⟩
  have hspared : SparedRun s₀ ([.add 0x10000 0x8000,.xalloc 0x1000] ++ [.xfree 0x10000 0x1000]) := hspared
  obtain ⟨A,A',hr,hr',hfiner⟩ :=
    arena_cuts_remain hboot (by simp [Op.Legal]) hspared (by simp [Op.spans]) hrun hrun'
  exact ⟨s₂,s₃,A,A',hfree,hr,hr',hfiner⟩

-- What `xalloc` leaves of this span begins at 2^32.
theorem corrupted_reached : ∃ s₀ s₁ s₂, Booted s₀ 0x1000 ∧ Step s₀ (.add 0xffffe000 0x4000) s₁ ∧
    Step s₁ (.xalloc 0x2000) s₂ ∧ s₂.xfree 0xffffe000 0x2000 = some .corrupted := by
  obtain ⟨s,hinit,h⟩ := (Option.any_eq_true _ _).mp (show blank.earlyInit.any (fun s =>
    ((s.init 0x1000).add 0xffffe000 0x4000).any fun s => (s.xalloc 0x2000).any fun r =>
      (r.1.xfree 0xffffe000 0x2000).any fun freed => !freed.isDone) = true by decide +kernel)
  obtain ⟨s₁,hadd,h⟩ := (Option.any_eq_true _ _).mp h
  obtain ⟨⟨s₂,addr⟩,halloc,h⟩ := (Option.any_eq_true _ _).mp h
  obtain ⟨freed,hfree,hdone⟩ := (Option.any_eq_true _ _).mp h
  cases freed with
  | done s₃ => cases hdone
  | corrupted => exact ⟨s.init 0x1000,s₁,s₂,⟨s,hinit,rfl⟩,.add hadd,.xalloc halloc,hfree⟩

end Run

end SabaOS.Mem.Vmem
