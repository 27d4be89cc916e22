import SabaOS.Mem.Pmm

namespace SabaOS.Pmm

open SabaOS.Klib SabaOS.Lib Relation

def State.IsPage (s : State) (p : PageRef) : Prop :=
  ∃ region, s.regions[p.1]? = some region ∧ p.2 < region.numPagesUsable

structure Accounted (s : State) (xs : List PageRef) : Prop where
  ring : Links.Ring s.links none (xs.map some)
  mem : ∀ p, p ∈ xs ↔ s.IsPage p ∧ (s.pages p).free = true
  total : s.totalFreePages = xs.length

structure Placed (s : State) : Prop where
  pfn : ∀ p region, s.regions[p.1]? = some region → p.2 < region.numPagesUsable →
    (s.pages p).pfn = region.pfnStart + region.numPagesReserved + p.2
  fits : ∀ region ∈ s.regions, region.numPagesReserved ≤ region.numPages ∧ region.numPages < 2 ^ 64
  disjoint : s.regions.Pairwise fun a b => a.endPhy ≤ b.basePhy ∨ b.endPhy ≤ a.basePhy

structure Same (s s' : State) : Prop where
  regions : s'.regions = s.regions
  pfn : ∀ p, (s'.pages p).pfn = (s.pages p).pfn

variable {s s' s'' : State} {xs : List PageRef}

theorem Same.refl (s : State) : Same s s := ⟨rfl,fun _ => rfl⟩

theorem Same.trans (h : Same s s') (h' : Same s' s'') : Same s s'' :=
  ⟨h'.regions.trans h.regions,fun p => (h'.pfn p).trans (h.pfn p)⟩

theorem Same.isPage (h : Same s s') (p : PageRef) : s'.IsPage p ↔ s.IsPage p := by
  simp only [State.IsPage,h.regions]

theorem Same.placed (h : Same s s') (hp : Placed s) : Placed s' where
  pfn := fun p region hr hi => (h.pfn p).trans (hp.pfn p region (h.regions ▸ hr) hi)
  fits := h.regions ▸ hp.fits
  disjoint := h.regions ▸ hp.disjoint

theorem Same.findPage (h : Same s s') (phy : Nat) : s'.findPage phy = s.findPage phy := by
  have hfrom : ∀ (regions : List Region) (index : Nat),
      s'.findFrom phy index regions = s.findFrom phy index regions := by
    intro regions
    induction regions with
    | nil => exact fun _ => rfl
    | cons region regions ih =>
      intro index
      simp only [State.findFrom,ih,h.pfn]
  rw [State.findPage,State.findPage,h.regions]
  exact hfrom _ 0

theorem Accounted.nodup (ha : Accounted s xs) : xs.Nodup :=
  List.Nodup.of_map some (List.nodup_cons.mp ha.ring.nodup).2

theorem Accounted.not_mem_map (ha : Accounted s xs) {p : PageRef} (hp : (s.pages p).free = false) :
    some p ∉ none :: xs.map some := by
  intro hm
  obtain ⟨q,hq,he⟩ := List.mem_map.mp ((List.mem_cons.mp hm).resolve_left (by simp))
  cases he
  have := ((ha.mem p).mp hq).2
  rw [hp] at this
  cases this

section Update

variable {p : PageRef}

theorem setPage_same (s : State) {page : Page} (hp : page.pfn = (s.pages p).pfn) (links : Links (Option PageRef))
    (total : Nat) : Same s { (s.setPage p page).setLinks links with totalFreePages := total } := by
  refine ⟨rfl,fun q => ?_⟩
  by_cases hq : q = p
  · subst hq
    simp [State.setPage,State.setLinks,hp]
  · simp [State.setPage,State.setLinks,hq]

theorem Accounted.take {ys zs : List PageRef} (ha : Accounted s (ys ++ p :: zs)) (page : Page)
    (hpfn : page.pfn = (s.pages p).pfn) (hfree : page.free = false) :
    ∃ links, s.links.remove (some p) = some links ∧
      Accounted { (s.setPage p page).setLinks links with
        totalFreePages := s.totalFreePages - 1 } (ys ++ zs) := by
  have hring := ha.ring
  rw [List.map_append,List.map_cons] at hring
  obtain ⟨links,hl,hring',-,-⟩ := hring.remove
  refine ⟨links,hl,⟨?_,?_,?_⟩⟩
  · rw [List.map_append]
    exact hring'
  · intro q
    rw [(setPage_same s hpfn links _).isPage q]
    have hnd := ha.nodup
    have hmem := ha.mem q
    have hpn : p ∉ ys ∧ p ∉ zs := by
      simp only [List.nodup_append,List.nodup_cons,List.mem_cons] at hnd
      grind
    by_cases hq : q = p
    · subst hq
      simp [State.setPage,State.setLinks,hfree,hpn]
    · rw [List.mem_append,List.mem_cons] at hmem
      simp only [State.setPage,State.setLinks,Function.update_of_ne hq,List.mem_append]
      rw [← hmem]
      simp [hq]
  · show s.totalFreePages - 1 = _
    rw [ha.total]
    simp

theorem Accounted.give (ha : Accounted s xs) (hp : s.IsPage p) (hbusy : (s.pages p).free = false)
    (page : Page) (hpfn : page.pfn = (s.pages p).pfn) (hfree : page.free = true) :
    ∃ links, s.links.add none (some p) = some links ∧
      Accounted { (s.setPage p page).setLinks links with
        totalFreePages := s.totalFreePages + 1 } (p :: xs) := by
  obtain ⟨links,hl,hring,-⟩ := ha.ring.add (ha.not_mem_map hbusy)
  refine ⟨links,hl,⟨hring,?_,?_⟩⟩
  · intro q
    rw [(setPage_same s hpfn links _).isPage q]
    by_cases hq : q = p
    · subst hq
      simp [State.setPage,State.setLinks,hfree,hp]
    · simp only [State.setPage,State.setLinks,Function.update_of_ne hq,List.mem_cons,hq,false_or]
      exact ha.mem q
  · show s.totalFreePages + 1 = _
    rw [ha.total]
    rfl

end Update

theorem allocPage_spec (ha : Accounted s xs) {p : PageRef} (h : s.allocPage = some (s',p)) :
    ∃ zs, xs = p :: zs ∧ Accounted s' zs ∧ Same s s' ∧
      ∀ q, (s'.pages q).free = if q = p then false else (s.pages q).free := by
  simp only [State.allocPage,Option.bind_eq_bind] at h
  split_ifs at h with hempty
  simp only [Option.bind_eq_some_iff,Option.pure_def,Option.some.injEq,Prod.mk.injEq] at h
  obtain ⟨next,hnext,q,rfl,-,-,links,hl,rfl,rfl⟩ := h
  cases xs with
  | nil =>
    have hself := ha.ring.path.1
    simp [Links.isEmpty,hself] at hempty
  | cons x zs =>
    have hx : (s.links none).next = some (some x) := ha.ring.path.1.1
    obtain rfl : x = q := by simpa [hx] using hnext
    have ha' : Accounted s ([] ++ x :: zs) := ha
    obtain ⟨links',hl',hacc⟩ := ha'.take { s.pages x with free := false } rfl rfl
    cases hl'.symm.trans hl
    refine ⟨zs,rfl,hacc,setPage_same s (by rfl) _ _,?_⟩
    intro q
    by_cases hq : q = x
    · simp [hq,State.setPage,State.setLinks]
    · simp [hq,State.setPage,State.setLinks]

theorem freePage_spec (ha : Accounted s xs) {p : PageRef} (hp : s.IsPage p)
    (hbusy : (s.pages p).free = false) :
    ∃ s', s.freePage p = some s' ∧ Accounted s' (p :: xs) ∧ Same s s' ∧
      ∀ q, (s'.pages q).free = if q = p then true else (s.pages q).free := by
  obtain ⟨links,hl,hacc⟩ := ha.give hp hbusy { s.pages p with free := true, mappedAddr := 0 } rfl rfl
  refine ⟨_,?_,hacc,setPage_same s (by rfl) _ _,?_⟩
  · have hl' : (s.setPage p { s.pages p with free := true, mappedAddr := 0 }).links.add none (some p) =
      some links := hl
    simp [State.freePage,hbusy,hl']
    rfl
  · intro q
    by_cases hq : q = p
    · simp [hq,State.setPage,State.setLinks]
    · simp [hq,State.setPage,State.setLinks]

def InWindow (index i n : Nat) (q : PageRef) : Prop := q.1 = index ∧ i ≤ q.2 ∧ q.2 < i + n

instance (index i n : Nat) (q : PageRef) : Decidable (InWindow index i n q) :=
  inferInstanceAs (Decidable (_ ∧ _ ∧ _))

theorem takePages_spec (ha : Accounted s xs) {index i n : Nat}
    (hfree : ∀ j < n, s.IsPage (index,i + j) ∧ (s.pages (index,i + j)).free = true) :
    ∃ s' xs', s.takePages index i n = some s' ∧ Accounted s' xs' ∧ Same s s' ∧
      ∀ q, (s'.pages q).free = if InWindow index i n q then false else (s.pages q).free := by
  induction n with
  | zero =>
    refine ⟨s,xs,rfl,ha,Same.refl s,fun q => ?_⟩
    rw [if_neg]
    rintro ⟨-,h1,h2⟩
    omega
  | succ n ih =>
    obtain ⟨s₁,xs₁,ht,ha₁,hsame,hflag⟩ := ih fun j hj => hfree j (by omega)
    obtain ⟨hpage,hf⟩ := hfree n (by omega)
    have hf₁ : (s₁.pages (index,i + n)).free = true := by
      rw [hflag,if_neg]
      · exact hf
      · rintro ⟨-,h1,h2⟩
        dsimp only at h2
        omega
    have hmem : (index,i + n) ∈ xs₁ := (ha₁.mem _).mpr ⟨(hsame.isPage _).mpr hpage,hf₁⟩
    obtain ⟨ys,zs,rfl⟩ := List.append_of_mem hmem
    obtain ⟨links,hl,hacc⟩ :=
      ha₁.take { s₁.pages (index,i + n) with free := false } rfl rfl
    refine ⟨_,ys ++ zs,?_,hacc,hsame.trans (setPage_same s₁ (by rfl) _ _),?_⟩
    · have hl' : (s₁.setPage (index,i + n) { s₁.pages (index,i + n) with free := false }).links.remove
        (some (index,i + n)) = some links := hl
      simp [State.takePages,ht,hl']
      rfl
    · intro q
      by_cases hq : q = (index,i + n)
      · subst hq
        have hin : InWindow index i (n + 1) (index,i + n) := ⟨rfl,by simp,by simp⟩
        simp [State.setPage,State.setLinks,hin]
      · have hiff : InWindow index i (n + 1) q ↔ InWindow index i n q := by
          constructor
          · rintro ⟨h0,h1,h2⟩
            refine ⟨h0,h1,Nat.lt_of_le_of_ne (by omega) fun h3 => hq (Prod.ext h0 h3)⟩
          · rintro ⟨h0,h1,h2⟩
            exact ⟨h0,h1,by omega⟩
        simp only [State.setPage,State.setLinks,Function.update_of_ne hq,hflag,hiff]

theorem scan_spec {index limit n fuel i k : Nat} (h : s.scan index limit n fuel i = some k) :
    k ≤ limit ∧ ∀ j < n, (s.pages (index,k + j)).free = true := by
  induction fuel generalizing i with
  | zero => cases h
  | succ fuel ih =>
    simp only [State.scan] at h
    split_ifs at h with hle
    split at h
    · rename_i hnone
      cases h
      refine ⟨hle,fun j hj => ?_⟩
      have := List.find?_eq_none.mp hnone j (List.mem_range.mpr hj)
      simpa using this
    · exact ih h

theorem usable_eq {region : Region} (h : region.numPagesReserved ≤ region.numPages)
    (hl : region.numPages < 2 ^ 64) :
    region.numPagesUsable = region.numPages - region.numPagesReserved :=
  usub_of_le hl h

theorem allocFrom_spec (ha : Accounted s xs) {n base : Nat} {pre regions : List Region}
    (hr : s.regions = pre ++ regions)
    (hn : ∀ region ∈ regions, n ≤ region.numPagesUsable ∧ region.numPagesUsable < 2 ^ 64)
    (h : s.allocFrom n pre.length regions = some (s',base)) :
    (s' = s ∧ base = 0) ∨
      ∃ index i region xs', s.regions[index]? = some region ∧ i + n ≤ region.numPagesUsable ∧
        (∀ j < n, (s.pages (index,i + j)).free = true) ∧ Accounted s' xs' ∧ Same s s' ∧
        base = (s.pages (index,i)).pfn * pageSize ∧
        ∀ q, (s'.pages q).free = if InWindow index i n q then false else (s.pages q).free := by
  induction regions generalizing pre with
  | nil =>
    cases h
    exact .inl ⟨rfl,rfl⟩
  | cons region regions ih =>
    obtain ⟨hle,hlt⟩ := hn region List.mem_cons_self
    have hat : s.regions[pre.length]? = some region := by simp [hr]
    simp only [State.allocFrom,usub_of_le hlt hle] at h
    split at h
    · rename_i i hscan
      obtain ⟨hi,hfree⟩ := scan_spec hscan
      have hwin : ∀ j < n, s.IsPage (pre.length,i + j) ∧ (s.pages (pre.length,i + j)).free = true :=
        fun j hj => ⟨⟨region,hat,by dsimp only; omega⟩,hfree j hj⟩
      obtain ⟨s₁,xs₁,ht,hacc,hsame,hflag⟩ := takePages_spec ha hwin
      simp only [ht,Option.bind_eq_bind,Option.bind_some,Option.pure_def] at h
      cases h
      refine .inr ⟨pre.length,i,region,xs₁,hat,by omega,hfree,hacc,hsame,?_,hflag⟩
      rw [hsame.pfn]
    · have hr' : s.regions = (pre ++ [region]) ++ regions := by simp [hr]
      refine ih hr' ?_ (by simpa using h)
      exact fun region hm => hn region (List.mem_cons_of_mem _ hm)

theorem findFrom_skip {phy : Nat} {pre regions : List Region} (index : Nat)
    (hpre : ∀ region ∈ pre, phy < region.basePhy ∨ region.endPhy < phy) :
    s.findFrom phy index (pre ++ regions) = s.findFrom phy (index + pre.length) regions := by
  induction pre generalizing index with
  | nil => rfl
  | cons region pre ih =>
    rw [List.cons_append,State.findFrom,if_pos (hpre region List.mem_cons_self),
      ih (index + 1) fun r hr => hpre r (List.mem_cons_of_mem _ hr)]
    congr 1
    simp
    omega

def Region.framePhy (region : Region) (k : Nat) : Nat :=
  (region.pfnStart + region.numPagesReserved + k) * pageSize

theorem findPage_spec (hp : Placed s) {index k : Nat} {region : Region}
    (hr : s.regions[index]? = some region) (hk : k < region.numPagesUsable) :
    s.findPage (region.framePhy k) = some (some (index,k)) := by
  obtain ⟨hlt,hget⟩ := List.getElem?_eq_some_iff.mp hr
  obtain ⟨hfit,hsmall⟩ := hp.fits region (hget ▸ List.getElem_mem hlt)
  have husable := usable_eq hfit hsmall
  have hreserved : 1 ≤ region.numPagesReserved := by
    simp only [Region.numPagesReserved,pageSize]
    omega
  have hsplit : s.regions = s.regions.take index ++ region :: s.regions.drop (index + 1) := by
    rw [← hget,← List.drop_eq_getElem_cons hlt,List.take_append_drop]
  have hlen : (s.regions.take index).length = index := List.length_take_of_le hlt.le
  have hpre : ∀ r ∈ s.regions.take index, region.framePhy k < r.basePhy ∨
      r.endPhy < region.framePhy k := by
    intro r hm
    have hpair := hp.disjoint
    rw [hsplit,List.pairwise_append] at hpair
    have hd := hpair.2.2 r hm region List.mem_cons_self
    simp only [Region.framePhy,Region.endPhy,Region.basePhy,pageSize] at hd ⊢
    omega
  rw [State.findPage,hsplit,findFrom_skip 0 hpre,hlen,State.findFrom]
  have hin : ¬(region.framePhy k < region.basePhy ∨ region.endPhy < region.framePhy k) := by
    simp only [Region.framePhy,Region.endPhy,Region.basePhy,pageSize]
    omega
  have hoff : (region.framePhy k - region.basePhy) / pageSize = region.numPagesReserved + k := by
    simp only [Region.framePhy,Region.basePhy,pageSize]
    omega
  rw [if_neg hin,hoff]
  simp only [Nat.zero_add,Nat.add_sub_cancel_left]
  rw [if_neg (by omega),hp.pfn (index,k) region hr hk]
  exact if_pos rfl

theorem freeContiguousPages_spec (ha : Accounted s xs) (hp : Placed s) {index i n : Nat}
    {region : Region} (hr : s.regions[index]? = some region) (hn : i + n ≤ region.numPagesUsable)
    (hbusy : ∀ j < n, (s.pages (index,i + j)).free = false) :
    ∃ s' xs', s.freeContiguousPages (region.framePhy i) n = some s' ∧ Accounted s' xs' ∧ Same s s' ∧
      ∀ q, (s'.pages q).free = if InWindow index i n q then true else (s.pages q).free := by
  induction n with
  | zero =>
    refine ⟨s,xs,rfl,ha,Same.refl s,fun q => ?_⟩
    rw [if_neg]
    rintro ⟨-,h1,h2⟩
    omega
  | succ n ih =>
    obtain ⟨s₁,xs₁,ht,ha₁,hsame,hflag⟩ := ih (by omega) fun j hj => hbusy j (by omega)
    have hphy : region.framePhy i + n * pageSize = region.framePhy (i + n) := by
      simp only [Region.framePhy,pageSize]
      omega
    have hfind : s₁.findPage (region.framePhy i + n * pageSize) = some (some (index,i + n)) := by
      rw [hphy,hsame.findPage]
      exact findPage_spec hp hr (by omega)
    have hbusy₁ : (s₁.pages (index,i + n)).free = false := by
      rw [hflag,if_neg]
      · exact hbusy n (by omega)
      · rintro ⟨-,-,h2⟩
        dsimp only at h2
        omega
    have hpage : s₁.IsPage (index,i + n) :=
      (hsame.isPage _).mpr ⟨region,hr,by dsimp only; omega⟩
    obtain ⟨s₂,hf,ha₂,hsame₂,hflag₂⟩ := freePage_spec ha₁ hpage hbusy₁
    refine ⟨s₂,_,?_,ha₂,hsame.trans hsame₂,?_⟩
    · simp only [State.freeContiguousPages,ht,hfind,Option.bind_eq_bind,Option.bind_some]
      exact hf
    · intro q
      rw [hflag₂,hflag]
      by_cases hq : q = (index,i + n)
      · subst hq
        have hin : InWindow index i (n + 1) (index,i + n) := ⟨rfl,by simp,by simp⟩
        simp [hin]
      · have hiff : InWindow index i (n + 1) q ↔ InWindow index i n q := by
          constructor
          · rintro ⟨h0,h1,h2⟩
            refine ⟨h0,h1,Nat.lt_of_le_of_ne (by omega) fun h3 => hq (Prod.ext h0 h3)⟩
          · rintro ⟨h0,h1,h2⟩
            exact ⟨h0,h1,by omega⟩
        simp only [hq,if_false,hiff]

-- What the callers hold: the pages of `alloc_page`, and the blocks of `alloc_contiguous_pages` by
-- their physical base and their length.
structure Machine where
  pmm : State
  pages : List PageRef
  blocks : List (Nat × Nat)

def State.blockPages (s : State) (b : Nat × Nat) : List PageRef :=
  (List.range b.2).filterMap fun j => (s.findPage (b.1 + j * pageSize)).join

def Machine.held (m : Machine) : List PageRef :=
  m.pages ++ m.blocks.flatMap m.pmm.blockPages

def State.EveryRegionHas (s : State) (n : Nat) : Prop :=
  ∀ region ∈ s.regions, n ≤ region.numPagesUsable

inductive Step : Machine → Machine → Prop
  | allocPage {m : Machine} {s' : State} {p : PageRef} :
      m.pmm.allocPage = some (s',p) → Step m ⟨s',p :: m.pages,m.blocks⟩
  | freePage {m : Machine} {s' : State} {p : PageRef} :
      p ∈ m.pages → m.pmm.freePage p = some s' → Step m ⟨s',m.pages.erase p,m.blocks⟩
  | allocContiguous {m : Machine} {s' : State} {n base : Nat} :
      m.pmm.EveryRegionHas n → m.pmm.allocContiguousPages n = some (s',base) →
      Step m ⟨s',m.pages,if base = 0 then m.blocks else (base,n) :: m.blocks⟩
  | freeContiguous {m : Machine} {s' : State} {b : Nat × Nat} :
      b ∈ m.blocks → m.pmm.freeContiguousPages b.1 b.2 = some s' →
      Step m ⟨s',m.pages,m.blocks.erase b⟩

theorem Same.blockPages (h : Same s s') (b : Nat × Nat) : s'.blockPages b = s.blockPages b := by
  simp only [State.blockPages,h.findPage]

def window (index i n : Nat) : List PageRef := (List.range n).map fun j => (index,i + j)

theorem mem_window {index i n : Nat} {q : PageRef} :
    q ∈ window index i n ↔ InWindow index i n q := by
  simp only [window,List.mem_map,List.mem_range,InWindow]
  constructor
  · rintro ⟨j,hj,rfl⟩
    exact ⟨rfl,by simp,by simp [hj]⟩
  · rintro ⟨h0,h1,h2⟩
    exact ⟨q.2 - i,by omega,Prod.ext h0.symm (by simp; omega)⟩

theorem window_nodup (index i n : Nat) : (window index i n).Nodup := by
  refine List.Nodup.map ?_ List.nodup_range
  intro a b hab
  simpa using hab

theorem blockPages_eq (hp : Placed s) {index i n : Nat} {region : Region}
    (hr : s.regions[index]? = some region) (hn : i + n ≤ region.numPagesUsable) :
    s.blockPages (region.framePhy i,n) = window index i n := by
  have hfind : ∀ j ∈ List.range n, (s.findPage (region.framePhy i + j * pageSize)).join =
      some (index,i + j) := by
    intro j hj
    have hphy : region.framePhy i + j * pageSize = region.framePhy (i + j) := by
      simp only [Region.framePhy,pageSize]
      omega
    have hlt := List.mem_range.mp hj
    rw [hphy,findPage_spec hp hr (by omega)]
    rfl
  rw [State.blockPages,List.filterMap_congr hfind,window]
  exact congrFun (List.filterMap_eq_map (f := fun j => (index,i + j))) (List.range n)

structure Kept (m : Machine) : Prop where
  placed : Placed m.pmm
  accounted : ∃ xs, Accounted m.pmm xs
  nodup : m.held.Nodup
  busy : ∀ p ∈ m.held, m.pmm.IsPage p ∧ (m.pmm.pages p).free = false
  blocks : ∀ b ∈ m.blocks, b.2 ≠ 0 → ∃ (index i : Nat) (region : Region),
    m.pmm.regions[index]? = some region ∧ i + b.2 ≤ region.numPagesUsable ∧ b.1 = region.framePhy i

variable {m m' : Machine}

theorem Kept.acquire (hk : Kept m) (hsame : Same m.pmm m'.pmm) (hacc : ∃ xs, Accounted m'.pmm xs)
    (taken : List PageRef) (hperm : m'.held.Perm (taken ++ m.held)) (hnodup : taken.Nodup)
    (htaken : ∀ p ∈ taken, m.pmm.IsPage p ∧ (m.pmm.pages p).free = true)
    (hflag : ∀ q, (m'.pmm.pages q).free = if q ∈ taken then false else (m.pmm.pages q).free)
    (hblocks : ∀ b ∈ m'.blocks, b.2 ≠ 0 → b ∈ m.blocks ∨ ∃ (index i : Nat) (region : Region),
      m.pmm.regions[index]? = some region ∧ i + b.2 ≤ region.numPagesUsable ∧
        b.1 = region.framePhy i) : Kept m' := by
  refine ⟨hsame.placed hk.placed,hacc,hperm.nodup_iff.mpr ?_,?_,?_⟩
  · refine List.nodup_append.mpr ⟨hnodup,hk.nodup,?_⟩
    rintro p hp _ hq rfl
    have h1 := (htaken p hp).2
    rw [(hk.busy p hq).2] at h1
    cases h1
  · intro p hp
    rw [hsame.isPage,hflag]
    split_ifs with ht
    · exact ⟨(htaken p ht).1,rfl⟩
    · exact hk.busy p ((List.mem_append.mp (hperm.mem_iff.mp hp)).resolve_left ht)
  · intro b hb h0
    rw [hsame.regions]
    rcases hblocks b hb h0 with hm | hnew
    · exact hk.blocks b hm h0
    · exact hnew

theorem Kept.release (hk : Kept m) (hsame : Same m.pmm m'.pmm) (hacc : ∃ xs, Accounted m'.pmm xs)
    (given : List PageRef) (hperm : m.held.Perm (given ++ m'.held))
    (hflag : ∀ q, q ∉ given → (m'.pmm.pages q).free = (m.pmm.pages q).free)
    (hblocks : ∀ b ∈ m'.blocks, b ∈ m.blocks) : Kept m' := by
  obtain ⟨-,hnodup,hdis⟩ := List.nodup_append.mp (hperm.nodup_iff.mp hk.nodup)
  refine ⟨hsame.placed hk.placed,hacc,hnodup,?_,?_⟩
  · intro p hp
    have hout : p ∉ given := fun hg => hdis p hg p hp rfl
    rw [hsame.isPage,hflag p hout]
    exact hk.busy p (hperm.mem_iff.mpr (List.mem_append_right _ hp))
  · intro b hb h0
    rw [hsame.regions]
    exact hk.blocks b (hblocks b hb) h0

theorem Same.held_blocks (h : Same s s') (blocks : List (Nat × Nat)) :
    blocks.flatMap s'.blockPages = blocks.flatMap s.blockPages := by
  congr 1
  funext b
  exact h.blockPages b

theorem Kept.allocPage (hk : Kept m) {p : PageRef} (h : m.pmm.allocPage = some (s',p)) :
    p ∉ m.held ∧ Kept ⟨s',p :: m.pages,m.blocks⟩ := by
  obtain ⟨xs,ha⟩ := hk.accounted
  obtain ⟨zs,rfl,hacc,hsame,hflag⟩ := allocPage_spec ha h
  have hp := (ha.mem p).mp List.mem_cons_self
  constructor
  · intro hm
    have h1 := hp.2
    rw [(hk.busy p hm).2] at h1
    cases h1
  · refine hk.acquire hsame ⟨zs,hacc⟩ [p] ?_ (List.nodup_singleton p) ?_ ?_ ?_
    · simp only [Machine.held,hsame.held_blocks]
      exact List.Perm.refl _
    · simpa using hp
    · simpa using hflag
    · exact fun b hb _ => .inl hb

theorem Kept.freePage (hk : Kept m) {p : PageRef} (hp : p ∈ m.pages) :
    ∃ s', m.pmm.freePage p = some s' ∧ Kept ⟨s',m.pages.erase p,m.blocks⟩ := by
  obtain ⟨xs,ha⟩ := hk.accounted
  obtain ⟨hpage,hbusy⟩ := hk.busy p (List.mem_append_left _ hp)
  obtain ⟨s',h,hacc,hsame,hflag⟩ := freePage_spec ha hpage hbusy
  refine ⟨s',h,hk.release hsame ⟨_,hacc⟩ [p] ?_ ?_ fun b hb => hb⟩
  · simp only [Machine.held,hsame.held_blocks]
    exact (List.perm_cons_erase hp).append_right _
  · intro q hq
    rw [hflag,if_neg (by simpa using hq)]

theorem Kept.allocContiguous (hk : Kept m) {n base : Nat} (hn : m.pmm.EveryRegionHas n)
    (h : m.pmm.allocContiguousPages n = some (s',base)) :
    (base ≠ 0 → (s'.blockPages (base,n)).length = n ∧ ∀ p ∈ s'.blockPages (base,n), p ∉ m.held) ∧
      Kept ⟨s',m.pages,if base = 0 then m.blocks else (base,n) :: m.blocks⟩ := by
  obtain ⟨xs,ha⟩ := hk.accounted
  have hregions : ∀ region ∈ m.pmm.regions,
      n ≤ region.numPagesUsable ∧ region.numPagesUsable < 2 ^ 64 :=
    fun region hm => ⟨hn region hm,usub_lt _ _⟩
  rcases allocFrom_spec ha (List.nil_append m.pmm.regions).symm hregions h with
    ⟨rfl,rfl⟩ | ⟨index,i,region,xs',hr,hin,hfree,hacc,hsame,rfl,hflag⟩
  · exact ⟨fun h0 => (h0 rfl).elim,hk⟩
  by_cases hn0 : n = 0
  · subst hn0
    have hnil : ∀ b, s'.blockPages (b,0) = [] := fun _ => rfl
    have hnone : ∀ q, ¬InWindow index i 0 q := fun q hq => by
      have := hq.2
      omega
    refine ⟨fun _ => by simp [hnil],?_⟩
    refine hk.acquire hsame ⟨xs',hacc⟩ [] ?_ List.nodup_nil (by simp) ?_ ?_
    · simp only [Machine.held,hsame.held_blocks]
      split_ifs
      · exact List.Perm.refl _
      · rw [List.flatMap_cons,← hsame.blockPages,hnil]
        exact List.Perm.refl _
    · simpa [hnone] using hflag
    · intro b hb h0
      split_ifs at hb with hbase
      · exact .inl hb
      · rcases List.mem_cons.mp hb with rfl | hb
        · exact (h0 rfl).elim
        · exact .inl hb
  have hpfn := hk.placed.pfn (index,i) region hr (by dsimp only; omega)
  have hbase : (m.pmm.pages (index,i)).pfn * pageSize = region.framePhy i := by
    rw [hpfn]
    rfl
  have hbase0 : region.framePhy i ≠ 0 := by
    simp only [Region.framePhy,Region.numPagesReserved,pageSize]
    omega
  have hpages : m.pmm.blockPages (region.framePhy i,n) = window index i n :=
    blockPages_eq hk.placed hr hin
  have htaken : ∀ p ∈ window index i n, m.pmm.IsPage p ∧ (m.pmm.pages p).free = true := by
    intro p hp
    obtain ⟨j,hj,rfl⟩ := List.mem_map.mp hp
    have hj := List.mem_range.mp hj
    exact ⟨⟨region,hr,by dsimp only; omega⟩,hfree j hj⟩
  rw [hbase,if_neg hbase0]
  rw [hsame.blockPages,hpages]
  refine ⟨fun _ => ⟨by simp [window],?_⟩,?_⟩
  · intro p hp hm
    have h1 := (htaken p hp).2
    rw [(hk.busy p hm).2] at h1
    cases h1
  · refine hk.acquire hsame ⟨xs',hacc⟩ (window index i n) ?_ (window_nodup index i n) htaken ?_ ?_
    · simp only [Machine.held,hsame.held_blocks,List.flatMap_cons,hpages]
      rw [← List.append_assoc,← List.append_assoc]
      exact List.perm_append_comm.append_right _
    · simpa [mem_window] using hflag
    · intro b hb h0
      rcases List.mem_cons.mp hb with rfl | hb
      · exact .inr ⟨index,i,region,hr,hin,rfl⟩
      · exact .inl hb

theorem Kept.freeContiguous (hk : Kept m) {b : Nat × Nat} (hb : b ∈ m.blocks) :
    ∃ s', m.pmm.freeContiguousPages b.1 b.2 = some s' ∧ Kept ⟨s',m.pages,m.blocks.erase b⟩ := by
  obtain ⟨xs,ha⟩ := hk.accounted
  have hperm : m.blocks.Perm (b :: m.blocks.erase b) := List.perm_cons_erase hb
  have hheld : m.held.Perm (m.pmm.blockPages b ++
      (m.pages ++ (m.blocks.erase b).flatMap m.pmm.blockPages)) := by
    refine ((hperm.flatMap_right m.pmm.blockPages).append_left m.pages).trans ?_
    rw [List.flatMap_cons,← List.append_assoc,← List.append_assoc]
    exact List.perm_append_comm.append_right _
  by_cases h0 : b.2 = 0
  · have hnil : m.pmm.blockPages b = [] := by
      rw [State.blockPages,h0]
      rfl
    refine ⟨m.pmm,by rw [h0]; rfl,?_⟩
    refine hk.release (Same.refl _) ⟨xs,ha⟩ [] ?_ (fun _ _ => rfl) ?_
    · rw [hnil] at hheld
      exact hheld
    · exact fun b' hb' => List.mem_of_mem_erase hb'
  obtain ⟨index,i,region,hr,hin,hbase⟩ := hk.blocks b hb h0
  have hpages : m.pmm.blockPages b = window index i b.2 := by
    rw [← blockPages_eq hk.placed hr hin,← hbase]
  have hbusy : ∀ j < b.2, (m.pmm.pages (index,i + j)).free = false := by
    intro j hj
    refine (hk.busy _ (hheld.mem_iff.mpr (List.mem_append_left _ ?_))).2
    rw [hpages,mem_window]
    exact ⟨rfl,by simp,by simp [hj]⟩
  obtain ⟨s',xs',h,hacc,hsame,hflag⟩ := freeContiguousPages_spec ha hk.placed hr hin hbusy
  refine ⟨s',hbase ▸ h,hk.release hsame ⟨xs',hacc⟩ (window index i b.2) ?_ ?_ ?_⟩
  · simp only [Machine.held,hsame.held_blocks]
    rw [hpages] at hheld
    exact hheld
  · intro q hq
    rw [hflag,if_neg (mt mem_window.mpr hq)]
  · exact fun b' hb' => List.mem_of_mem_erase hb'

theorem Kept.step (hk : Kept m) (h : Step m m') : Kept m' := by
  cases h with
  | allocPage h => exact (hk.allocPage h).2
  | freePage hp h =>
    obtain ⟨s₁,h₁,hk₁⟩ := hk.freePage hp
    cases h₁.symm.trans h
    exact hk₁
  | allocContiguous hn h => exact (hk.allocContiguous hn h).2
  | freeContiguous hb h =>
    obtain ⟨s₁,h₁,hk₁⟩ := hk.freeContiguous hb
    cases h₁.symm.trans h
    exact hk₁

theorem Kept.run (hk : Kept m) (h : ReflTransGen Step m m') : Kept m' := by
  induction h with
  | refl => exact hk
  | tail _ hstep ih => exact ih.step hstep

theorem absorbPages_spec (index pfn n : Nat)
    (hring : Links.Ring s.links none (xs.map some)) (hless : ∀ p ∈ xs, p.1 < index) :
    ∃ (s' : State) (xs' : List PageRef), s.absorbPages index pfn n = some s' ∧ Links.Ring s'.links none (xs'.map some) ∧
      (∀ p, p ∈ xs' ↔ p ∈ xs ∨ p.1 = index ∧ p.2 < n) ∧ s'.regions = s.regions ∧
      s'.totalFreePages + xs.length = s.totalFreePages + xs'.length ∧
      (∀ p, p.1 = index ∧ p.2 < n → (s'.pages p).free = true ∧ (s'.pages p).pfn = pfn + p.2) ∧
      ∀ p, ¬(p.1 = index ∧ p.2 < n) → s'.pages p = s.pages p := by
  induction n with
  | zero => exact ⟨s,xs,rfl,hring,by simp,rfl,rfl,by simp,fun _ _ => rfl⟩
  | succ n ih =>
    obtain ⟨s₁,xs₁,h₁,hring₁,hmem₁,hreg₁,htot₁,hnew₁,hold₁⟩ := ih
    have hnot : some (index,n) ∉ none :: xs₁.map some := by
      simp only [List.mem_cons,reduceCtorEq,false_or,List.mem_map,Option.some.injEq,
        exists_eq_right,hmem₁]
      rintro (hx | ⟨-,hlt⟩)
      · exact absurd (hless _ hx) (lt_irrefl index)
      · exact absurd hlt (lt_irrefl n)
    obtain ⟨links,hl,hring₂,-⟩ := hring₁.addBefore hnot
    have hpages : ∀ p : PageRef, (p.1 = index ∧ p.2 < n + 1) ↔
        p = (index,n) ∨ (p.1 = index ∧ p.2 < n) := by
      intro p
      rw [Prod.ext_iff]
      dsimp only
      omega
    let page : Page := { s₁.pages (index,n) with free := true, pfn := pfn + n }
    refine ⟨{ (s₁.setPage (index,n) page).setLinks links with
      totalFreePages := s₁.totalFreePages + 1 },xs₁ ++ [(index,n)],?_,?_,?_,hreg₁,?_,?_,?_⟩
    · simp only [State.absorbPages,h₁,Option.bind_eq_bind,Option.bind_some]
      rw [show (s₁.setPage _ _).links = s₁.links from rfl,hl]
      rfl
    · rw [List.map_append]
      exact hring₂
    · intro p
      rw [hpages,List.mem_append,hmem₁,List.mem_singleton]
      tauto
    · simp only [List.length_append,List.length_singleton]
      omega
    · intro p hp
      by_cases hq : p = (index,n)
      · subst hq
        simp [State.setPage,State.setLinks,page]
      · have := hnew₁ p (((hpages p).mp hp).resolve_left hq)
        simpa [State.setPage,State.setLinks,Function.update_of_ne hq] using this
    · intro p hp
      rw [hpages] at hp
      have hq : p ≠ (index,n) := fun hc => hp (.inl hc)
      simpa [State.setPage,State.setLinks,Function.update_of_ne hq] using
        hold₁ p fun hc => hp (.inr hc)

theorem absorbMemmapEntry_spec (ha : Accounted s xs) (hp : Placed s) {entry : MemmapEntry}
    (hl : (State.entryRegion entry).numPages < 2 ^ 64)
    (hd : ∀ region ∈ s.regions, region.endPhy ≤ (State.entryRegion entry).basePhy ∨
      (State.entryRegion entry).endPhy ≤ region.basePhy)
    (h : s.absorbMemmapEntry entry = some s') :
    (∃ xs', Accounted s' xs') ∧ Placed s' ∧ s'.regions = s.regions ++ [State.entryRegion entry] := by
  simp only [State.absorbMemmapEntry] at h
  generalize State.entryRegion entry = region at *
  split_ifs at h with hfit
  have hless : ∀ p ∈ xs, p.1 < s.regions.length := by
    intro p hm
    obtain ⟨⟨r,hr,-⟩,-⟩ := (ha.mem p).mp hm
    exact (List.getElem?_eq_some_iff.mp hr).1
  obtain ⟨s₁,xs₁,h₁,hring,hmem,hreg,htot,hnew,hold⟩ :=
    absorbPages_spec (s := { s with
      regions := s.regions ++ [region]
      totalPagesReserved := s.totalPagesReserved + region.numPagesReserved })
      s.regions.length (region.pfnStart + region.numPagesReserved) region.numPagesUsable ha.ring hless
  cases h₁.symm.trans h
  have hreg : s'.regions = s.regions ++ [region] := hreg
  have hat : ∀ p : PageRef, s'.regions[p.1]? = if p.1 = s.regions.length then some region
      else s.regions[p.1]? := by
    intro p
    rw [hreg]
    split_ifs with he
    · rw [he,List.getElem?_concat_length]
    · rcases Nat.lt_or_gt_of_ne he with hlt | hgt
      · rw [List.getElem?_append_left hlt]
      · rw [List.getElem?_eq_none (by simp; omega),List.getElem?_eq_none (by omega)]
  refine ⟨⟨xs₁,hring,?_,?_⟩,⟨?_,?_,?_⟩,hreg⟩
  · intro p
    rw [hmem,ha.mem]
    simp only [State.IsPage,hat]
    by_cases he : p.1 = s.regions.length
    · have hnone : s.regions[s.regions.length]? = none := by simp
      simp only [he,if_true,hnone,reduceCtorEq,false_and,exists_false,false_or,true_and,
        Option.some.injEq,exists_eq_left']
      constructor
      · intro hlt
        exact ⟨hlt,(hnew p ⟨he,hlt⟩).1⟩
      · exact fun hlt => hlt.1
    · have hsame := hold p fun hc => he hc.1
      simp [he,hsame]
  · have := ha.total
    dsimp only at htot
    omega
  · intro p r hr hlt
    rw [hat] at hr
    split_ifs at hr with he
    · cases hr
      rw [(hnew p ⟨he,hlt⟩).2]
    · rw [hold p fun hc => he hc.1]
      exact hp.pfn p r hr hlt
  · rw [hreg]
    intro r hr
    rcases List.mem_append.mp hr with hr | hr
    · exact hp.fits r hr
    · rw [List.mem_singleton.mp hr]
      exact ⟨Nat.le_of_not_lt hfit,hl⟩
  · rw [hreg]
    refine List.pairwise_append.mpr ⟨hp.disjoint,List.pairwise_singleton _ _,?_⟩
    intro a hm b hb
    rw [List.mem_singleton.mp hb]
    exact hd a hm

def MemmapEntry.Aligned (e : MemmapEntry) : Prop :=
  e.base % pageSize = 0 ∧ e.length % pageSize = 0 ∧ e.base + e.length < 2 ^ 64

def MemmapEntry.Apart (a b : MemmapEntry) : Prop :=
  a.base + a.length ≤ b.base ∨ b.base + b.length ≤ a.base

theorem entryRegion_spec {e : MemmapEntry} (he : e.Aligned) :
    (State.entryRegion e).basePhy = e.base ∧ (State.entryRegion e).endPhy = e.base + e.length ∧
      (State.entryRegion e).numPages < 2 ^ 64 := by
  obtain ⟨hb,hl,hlt⟩ := he
  have hpages : (State.entryRegion e).numPages = e.length / pageSize ∧
      (State.entryRegion e).pfnStart = e.base / pageSize := by
    simp only [State.entryRegion,hb,hl,ne_eq,not_true_eq_false,if_false]
    refine ⟨?_,trivial⟩
    simp only [pageSize] at *
    rw [usub_of_le (by omega) (by omega)]
    omega
  simp only [Region.endPhy,Region.basePhy,hpages.1,hpages.2]
  simp only [pageSize] at *
  omega

theorem absorbAll_spec {memmap : List MemmapEntry} (ha : Accounted s xs) (hp : Placed s)
    (hal : ∀ e ∈ memmap, e.Aligned) (hapart : memmap.Pairwise MemmapEntry.Apart)
    (hd : ∀ region ∈ s.regions, ∀ e ∈ memmap,
      region.endPhy ≤ e.base ∨ e.base + e.length ≤ region.basePhy)
    (h : s.absorbAll memmap = some s') : (∃ xs', Accounted s' xs') ∧ Placed s' := by
  induction memmap generalizing s xs with
  | nil =>
    cases h
    exact ⟨⟨xs,ha⟩,hp⟩
  | cons e memmap ih =>
    obtain ⟨hhead,htail⟩ := List.pairwise_cons.mp hapart
    have hal' : ∀ e ∈ memmap, e.Aligned := fun e he => hal e (List.mem_cons_of_mem _ he)
    simp only [State.absorbAll] at h
    split_ifs at h
    · obtain ⟨s₁,h₁,h⟩ := Option.bind_eq_some_iff.mp h
      obtain ⟨hbase,hend,hlt⟩ := entryRegion_spec (hal e List.mem_cons_self)
      obtain ⟨⟨xs₁,ha₁⟩,hp₁,hreg₁⟩ := absorbMemmapEntry_spec ha hp hlt
        (fun region hr => by rw [hbase,hend]; exact hd region hr e List.mem_cons_self) h₁
      refine ih ha₁ hp₁ hal' htail ?_ h
      intro region hr e' he'
      rw [hreg₁] at hr
      rcases List.mem_append.mp hr with hr | hr
      · exact hd region hr e' (List.mem_cons_of_mem _ he')
      · rw [List.mem_singleton.mp hr,hbase,hend]
        exact hhead e' he'
    · exact ih ha hp hal' htail (fun region hr e' he' => hd region hr e' (List.mem_cons_of_mem _ he')) h

theorem init_kept {memory : PageRef → Page} {links : Links (Option PageRef)}
    {memmap : List MemmapEntry} (hal : ∀ e ∈ memmap, e.Aligned)
    (hapart : memmap.Pairwise MemmapEntry.Apart) (h : State.init memory links memmap = some s) :
    Kept ⟨s,[],[]⟩ := by
  have ha : Accounted ⟨[],memory,links.init none,0,0⟩ [] :=
    ⟨Links.Ring.nil_init links none,by simp [State.IsPage],rfl⟩
  have hp : Placed ⟨[],memory,links.init none,0,0⟩ := ⟨by simp,by simp,by simp⟩
  obtain ⟨hacc,hplaced⟩ := absorbAll_spec ha hp hal hapart (by simp) h
  exact ⟨hplaced,hacc,by simp [Machine.held],by simp [Machine.held],by simp⟩

theorem frames_distinct (hp : Placed s) {p q : PageRef} (hip : s.IsPage p) (hiq : s.IsPage q)
    (h : (s.pages p).pfn = (s.pages q).pfn) : p = q := by
  obtain ⟨r,hr,hlt⟩ := hip
  obtain ⟨r',hr',hlt'⟩ := hiq
  have hfind := findPage_spec hp hr hlt
  have hfind' := findPage_spec hp hr' hlt'
  have heq : r.framePhy p.2 = r'.framePhy q.2 := by
    simp only [Region.framePhy]
    rw [← hp.pfn p r hr hlt,← hp.pfn q r' hr' hlt',h]
  rw [heq,hfind'] at hfind
  simpa using hfind.symm

theorem pmm_accounts_for_pages (memory : PageRef → Page) (links : Links (Option PageRef))
    (memmap : List MemmapEntry) (hal : ∀ e ∈ memmap, e.Aligned)
    (hapart : memmap.Pairwise MemmapEntry.Apart) (s : State)
    (hinit : State.init memory links memmap = some s) (m : Machine)
    (hrun : ReflTransGen Step ⟨s,[],[]⟩ m) :
    (∃ xs : List PageRef, Links.Ring m.pmm.links none (xs.map some) ∧ xs.Nodup ∧
        (∀ p, p ∈ xs ↔ m.pmm.IsPage p ∧ (m.pmm.pages p).free = true) ∧
        m.pmm.totalFreePages = xs.length) ∧
      (∀ p q, m.pmm.IsPage p → m.pmm.IsPage q → (m.pmm.pages p).pfn = (m.pmm.pages q).pfn → p = q) ∧
      (∀ s' p, m.pmm.allocPage = some (s',p) → p ∉ m.held) ∧
      (∀ n s' base, m.pmm.EveryRegionHas n → m.pmm.allocContiguousPages n = some (s',base) →
        base ≠ 0 → (s'.blockPages (base,n)).length = n ∧
          ∀ p ∈ s'.blockPages (base,n), p ∉ m.held) ∧
      (∀ p ∈ m.pages, (m.pmm.freePage p).isSome) ∧
      ∀ b ∈ m.blocks, (m.pmm.freeContiguousPages b.1 b.2).isSome := by
  have hk := (init_kept hal hapart hinit).run hrun
  obtain ⟨xs,ha⟩ := hk.accounted
  refine ⟨⟨xs,ha.ring,ha.nodup,ha.mem,ha.total⟩,?_,?_,?_,?_,?_⟩
  · exact fun p q hp hq h => frames_distinct hk.placed hp hq h
  · exact fun s' p h => (hk.allocPage h).1
  · exact fun n s' base hn h hb => (hk.allocContiguous hn h).1 hb
  · intro p hp
    obtain ⟨s',h,-⟩ := hk.freePage hp
    simp [h]
  · intro b hb
    obtain ⟨s',h,-⟩ := hk.freeContiguous hb
    simp [h]

def fourPages : List MemmapEntry := [⟨0x100000,0x4000,true⟩,⟨0x200000,0x1000,false⟩]

def started : State :=
  (State.init (fun _ => ⟨false,0,0⟩) (fun _ => .null) fourPages).get (by decide +kernel)

theorem started_init : State.init (fun _ => ⟨false,0,0⟩) (fun _ => .null) fourPages = some started :=
  (Option.some_get (by decide +kernel)).symm

def oneOut : State × PageRef := started.allocPage.get (by decide +kernel)

theorem started_alloc : started.allocPage = some (oneOut.1,oneOut.2) := by
  rw [Prod.mk.eta]
  exact (Option.some_get (by decide +kernel)).symm

theorem Step.first {p : PageRef} (h : s.allocPage = some (s',p)) :
    Step ⟨s,[],[]⟩ ⟨s',[p],[]⟩ := .allocPage h

theorem pmm_accounts_for_pages_one :
    ReflTransGen Step ⟨started,[],[]⟩ ⟨oneOut.1,[oneOut.2],[]⟩ ∧ oneOut.2 = (0,0) ∧
      ∀ s' p, oneOut.1.allocPage = some (s',p) → p ∉ Machine.held ⟨oneOut.1,[oneOut.2],[]⟩ := by
  have hal : ∀ e ∈ fourPages, e.Aligned := by
    simp [fourPages,MemmapEntry.Aligned,pageSize]
  have hapart : fourPages.Pairwise MemmapEntry.Apart := by
    simp [fourPages,MemmapEntry.Apart]
  have hrun := ReflTransGen.single (Step.first started_alloc)
  refine ⟨hrun,by decide +kernel,?_⟩
  exact (pmm_accounts_for_pages _ _ fourPages hal hapart started started_init _ hrun).2.2.1

end SabaOS.Pmm
