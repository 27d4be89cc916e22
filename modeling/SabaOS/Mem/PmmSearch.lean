import SabaOS.Mem.PmmRun

namespace SabaOS.Pmm

open SabaOS.Klib SabaOS.Lib

section Lookup

variable {s : State} {phy i j : Nat} {r r' : Region}

def State.FrameAt (s : State) (phy : Nat) (p : PageRef) : Prop :=
  s.IsPage p ∧ (s.pages p).pfn * pageSize = phy

def State.Finds (s : State) (phy : Nat) : Prop :=
  ∃ found, s.findPage phy = some found ∧ ∀ p, found = some p ↔ s.FrameAt phy p

def Region.Around (phy : Nat) (r : Region) : Bool := r.basePhy ≤ phy ∧ phy ≤ r.endPhy

def State.NotAtEnd (s : State) (phy : Nat) : Prop :=
  ∀ r, s.regions.find? (Region.Around phy) = some r → phy ≠ r.endPhy

theorem index_unique (hp : Placed s) (hr : s.regions[i]? = some r) (hr' : s.regions[j]? = some r')
    (h : r.basePhy ≤ phy ∧ phy < r.endPhy) (h' : r'.basePhy ≤ phy ∧ phy < r'.endPhy) : i = j := by
  obtain ⟨hi,rfl⟩ := List.getElem?_eq_some_iff.mp hr
  obtain ⟨hj,rfl⟩ := List.getElem?_eq_some_iff.mp hr'
  have hpair := List.pairwise_iff_getElem.mp hp.disjoint
  rcases Nat.lt_trichotomy i j with hlt | heq | hgt
  · rcases hpair i j hi hj hlt with hd | hd
    · omega
    · omega
  · exact heq
  · rcases hpair j i hj hi hgt with hd | hd
    · omega
    · omega

theorem Placed.frameAt (hp : Placed s) {p : PageRef} (h : s.FrameAt phy p) :
    ∃ r, s.regions[p.1]? = some r ∧ p.2 < r.numPagesUsable ∧ phy = r.framePhy p.2 ∧
      r.basePhy ≤ phy ∧ phy < r.endPhy := by
  obtain ⟨⟨r,hr,hlt⟩,rfl⟩ := h
  obtain ⟨hi,hget⟩ := List.getElem?_eq_some_iff.mp hr
  obtain ⟨hfit,hsmall⟩ := hp.fits r (hget ▸ List.getElem_mem hi)
  have husable := usable_eq hfit hsmall
  have hphy : (s.pages p).pfn * pageSize = r.framePhy p.2 := by
    rw [hp.pfn p r hr hlt,Region.framePhy]
  refine ⟨r,hr,hlt,hphy,?_⟩
  rw [hphy]
  simp only [Region.framePhy,Region.basePhy,Region.endPhy,pageSize]
  omega

theorem frameAt_offset (hp : Placed s) (hr : s.regions[i]? = some r)
    (h : r.basePhy ≤ phy ∧ phy < r.endPhy) {p : PageRef} (hf : s.FrameAt phy p) :
    p.1 = i ∧ (phy - r.basePhy) / pageSize = r.numPagesReserved + p.2 := by
  obtain ⟨r',hr',-,hphy,hin⟩ := hp.frameAt hf
  have hi := index_unique hp hr' hr hin h
  rw [hi,hr] at hr'
  cases hr'
  refine ⟨hi,?_⟩
  rw [hphy]
  simp only [Region.framePhy,Region.basePhy,pageSize]
  omega

theorem not_around : r.Around phy = false ↔ phy < r.basePhy ∨ r.endPhy < phy := by
  rw [Region.Around,decide_eq_false_iff_not]
  omega

theorem findPage_none (h : s.regions.find? (Region.Around phy) = none) :
    s.findPage phy = some none := by
  have hall : ∀ r ∈ s.regions, phy < r.basePhy ∨ r.endPhy < phy := fun r hr =>
    not_around.mp (Bool.eq_false_iff.mpr (List.find?_eq_none.mp h r hr))
  have hskip : s.findFrom phy 0 (s.regions ++ []) = s.findFrom phy (0 + s.regions.length) [] :=
    findFrom_skip 0 hall
  rw [List.append_nil] at hskip
  exact hskip

theorem findPage_some (h : s.regions.find? (Region.Around phy) = some r) :
    ∃ i, s.regions[i]? = some r ∧ r.basePhy ≤ phy ∧ phy ≤ r.endPhy ∧ s.findPage phy =
      if (phy - r.basePhy) / pageSize < r.numPagesReserved then some none
      else if (s.pages (i,(phy - r.basePhy) / pageSize - r.numPagesReserved)).pfn * pageSize = phy then
        some (some (i,(phy - r.basePhy) / pageSize - r.numPagesReserved))
      else none := by
  obtain ⟨hin,pre,post,hsplit,hpre⟩ := List.find?_eq_some_iff_append.mp h
  rw [Region.Around,decide_eq_true_iff] at hin
  have hskip : ∀ r ∈ pre, phy < r.basePhy ∨ r.endPhy < phy := fun r hr =>
    not_around.mp (by simpa using hpre r hr)
  refine ⟨pre.length,by simp [hsplit],hin.1,hin.2,?_⟩
  rw [State.findPage,hsplit,findFrom_skip 0 hskip,Nat.zero_add,State.findFrom,if_neg (by omega)]

theorem find_page_iff (hp : Placed s) (ha : pageSize ∣ phy) : s.Finds phy ↔ s.NotAtEnd phy := by
  cases hfind : s.regions.find? (Region.Around phy) with
  | none =>
    have hnone : ∀ p, ¬s.FrameAt phy p := by
      intro p hf
      obtain ⟨r,hr,-,-,hin⟩ := hp.frameAt hf
      have haround := List.find?_eq_none.mp hfind r (List.mem_of_getElem? hr)
      exact haround (decide_eq_true ⟨hin.1,hin.2.le⟩)
    refine iff_of_true ⟨none,findPage_none hfind,fun p => ⟨nofun,fun hf => absurd hf (hnone p)⟩⟩ ?_
    intro r hr
    rw [hfind] at hr
    cases hr
  | some r =>
    obtain ⟨i,hr,hle,hend,heq⟩ := findPage_some hfind
    obtain ⟨hlt,hget⟩ := List.getElem?_eq_some_iff.mp hr
    obtain ⟨hfit,hsmall⟩ := hp.fits r (hget ▸ List.getElem_mem hlt)
    have husable := usable_eq hfit hsmall
    have hsize : r.endPhy = r.basePhy + r.numPages * 4096 := rfl
    have hnotEnd : s.NotAtEnd phy ↔ phy ≠ r.endPhy := by
      constructor
      · exact fun h => h r hfind
      · intro h r' hr'
        rw [hfind] at hr'
        cases hr'
        exact h
    rw [hnotEnd]
    constructor
    · rintro ⟨found,hfound,hiff⟩ rfl
      have hoffset : (r.endPhy - r.basePhy) / pageSize = r.numPages := by
        rw [hsize,Nat.add_sub_cancel_left]
        exact Nat.mul_div_cancel r.numPages (by decide)
      rw [hoffset,if_neg (by omega),hfound] at heq
      split_ifs at heq with hpfn
      obtain ⟨⟨r',hr',hin⟩,-⟩ := (hiff _).mp (Option.some.inj heq)
      dsimp only at hr' hin
      rw [hr] at hr'
      cases hr'
      omega
    · intro hne
      have hin : r.basePhy ≤ phy ∧ phy < r.endPhy := ⟨hle,by omega⟩
      split_ifs at heq with hreserved hpfn
      · refine ⟨none,heq,fun p => ⟨nofun,fun hf => ?_⟩⟩
        have hoffset := (frameAt_offset hp hr hin hf).2
        omega
      · refine ⟨_,heq,fun p => ⟨?_,fun hf => ?_⟩⟩
        · intro hsome
          cases hsome
          refine ⟨⟨r,hr,?_⟩,hpfn⟩
          have hoffset : (phy - r.basePhy) / pageSize < r.numPages := by
            simp only [pageSize]
            omega
          dsimp only
          omega
        · obtain ⟨h1,h2⟩ := frameAt_offset hp hr hin hf
          rw [← h1,h2,Nat.add_sub_cancel_left]
      · refine absurd ?_ hpfn
        have hoffset : (phy - r.basePhy) / pageSize < r.numPages := by
          simp only [pageSize]
          omega
        rw [hp.pfn (i,_) r hr (by dsimp only; omega)]
        obtain ⟨k,rfl⟩ := ha
        simp only [Region.basePhy,pageSize] at *
        omega

theorem init_placed {memory : PageRef → Page} {links : Links (Option PageRef)}
    {memmap : List MemmapEntry} (hal : ∀ e ∈ memmap, e.Aligned)
    (hapart : memmap.Pairwise MemmapEntry.Apart) (h : State.init memory links memmap = some s) :
    Placed s := (init_kept hal hapart h).placed

theorem init_accounted {memory : PageRef → Page} {links : Links (Option PageRef)}
    {memmap : List MemmapEntry} (hal : ∀ e ∈ memmap, e.Aligned)
    (hapart : memmap.Pairwise MemmapEntry.Apart) (h : State.init memory links memmap = some s) :
    ∃ xs, Accounted s xs := (init_kept hal hapart h).accounted

theorem fourPages_aligned : ∀ e ∈ fourPages, e.Aligned := by
  simp [fourPages,MemmapEntry.Aligned,pageSize]

theorem fourPages_apart : fourPages.Pairwise MemmapEntry.Apart := by
  simp [fourPages,MemmapEntry.Apart]

theorem started_placed : Placed started :=
  init_placed fourPages_aligned fourPages_apart started_init

theorem started_accounted : ∃ xs, Accounted started xs :=
  init_accounted fourPages_aligned fourPages_apart started_init

theorem started_regions : started.regions = [⟨0x100,4⟩] := by decide +kernel

theorem find_page_first : started.Finds 0x101000 := by
  refine (find_page_iff started_placed (by decide)).mpr ?_
  intro r hr
  have hfind : started.regions.find? (Region.Around 0x101000) = some ⟨0x100,4⟩ := by
    rw [started_regions]
    decide +kernel
  rw [hfind] at hr
  cases hr
  decide +kernel

-- The address just past the region: the index is 3, and the array has three pages.
theorem find_page_past_end :
    Placed started ∧ pageSize ∣ 0x104000 ∧ started.findPage 0x104000 = none ∧
      ¬started.Finds 0x104000 := by
  have hnone : started.findPage 0x104000 = none := by decide +kernel
  refine ⟨started_placed,by decide,hnone,?_⟩
  rintro ⟨found,hfound,-⟩
  rw [hnone] at hfound
  cases hfound

end Lookup

section Contiguous

variable {s s' : State} {xs : List PageRef} {n : Nat}

def State.scanReads (s : State) (index limit numPages : Nat) : Nat → Nat → List Nat
  | 0,_ => []
  | fuel + 1,i =>
    if i ≤ limit then
      match s.firstBusy index i numPages with
      | none => (List.range numPages).map (i + ·)
      | some j => (List.range (j + 1)).map (i + ·) ++ s.scanReads index limit numPages fuel (i + j + 1)
    else []

def State.allocReads (s : State) (numPages : Nat) : Nat → List Region → List PageRef
  | _,[] => []
  | index,region :: regions =>
    let limit := usub region.numPagesUsable numPages
    (s.scanReads index limit numPages (limit + 1) 0).map (index,·) ++
      match s.scan index limit numPages (limit + 1) 0 with
      | some _ => []
      | none => s.allocReads numPages (index + 1) regions

def State.RunAt (s : State) (n : Nat) (p : PageRef) : Prop :=
  ∃ region, s.regions[p.1]? = some region ∧ p.2 + n ≤ region.numPagesUsable ∧
    ∀ j < n, (s.pages (p.1,p.2 + j)).free = true

structure Taken (s : State) (xs : List PageRef) (n : Nat) (p : PageRef) (s' : State) (base : Nat) :
    Prop where
  run : s.RunAt n p
  base : ∃ region, s.regions[p.1]? = some region ∧ base = region.framePhy p.2 ∧ base ≠ 0
  flags : ∀ q, (s'.pages q).free = if InWindow p.1 p.2 n q then false else (s.pages q).free
  same : Same s s'
  freelist : ∃ xs', Accounted s' xs' ∧ ∀ q, q ∈ xs' ↔ q ∈ xs ∧ ¬InWindow p.1 p.2 n q

def State.Allocates (s : State) (xs : List PageRef) (n : Nat) : Prop :=
  (∀ p ∈ s.allocReads n 0 s.regions, s.IsPage p) ∧
    ∃ s' base, s.allocContiguousPages n = some (s',base) ∧
      ((∃ p, Taken s xs n p s' base) ∨ (∀ p, ¬s.RunAt n p) ∧ s' = s ∧ base = 0)

def State.ReachedHave (s : State) (n start : Nat) : Prop :=
  ∀ k region, start ≤ k → s.regions[k]? = some region →
    (∀ index i, start ≤ index → index < k → ¬s.RunAt n (index,i)) → n ≤ region.numPagesUsable

theorem firstBusy_some {index i j : Nat} (h : s.firstBusy index i n = some j) :
    j < n ∧ (s.pages (index,i + j)).free = false := by
  have hbusy := List.find?_some h
  exact ⟨List.mem_range.mp (List.mem_of_find?_eq_some h),by simpa using hbusy⟩

theorem scan_complete {index limit fuel i k : Nat} (hfuel : limit + 1 ≤ i + fuel)
    (h : s.scan index limit n fuel i = none) (hk : i ≤ k) (hl : k ≤ limit) :
    ∃ j < n, (s.pages (index,k + j)).free = false := by
  induction fuel generalizing i with
  | zero => omega
  | succ fuel ih =>
    rw [State.scan,if_pos (by omega)] at h
    split at h
    · cases h
    · rename_i j hj
      obtain ⟨hjn,hbusy⟩ := firstBusy_some hj
      by_cases hlate : i + j + 1 ≤ k
      · exact ih (by omega) h hlate
      · refine ⟨i + j - k,by omega,?_⟩
        rw [show k + (i + j - k) = i + j by omega]
        exact hbusy

theorem scanReads_lt {index limit fuel i k : Nat}
    (hk : k ∈ s.scanReads index limit n fuel i) : k < limit + n := by
  induction fuel generalizing i with
  | zero => cases hk
  | succ fuel ih =>
    rw [State.scanReads] at hk
    split_ifs at hk with hle
    · split at hk
      · obtain ⟨j,hj,rfl⟩ := List.mem_map.mp hk
        have := List.mem_range.mp hj
        omega
      · rename_i j hj
        have hjn := (firstBusy_some hj).1
        rcases List.mem_append.mp hk with hk | hk
        · obtain ⟨m,hm,rfl⟩ := List.mem_map.mp hk
          have := List.mem_range.mp hm
          omega
        · exact ih hk
    · cases hk

theorem scanReads_end {index limit usable fuel i : Nat} (hn : usable < n) (hl : usable ≤ limit)
    (hi : i ≤ usable) (hfuel : usable + 1 ≤ i + fuel) :
    usable ∈ s.scanReads index limit n fuel i := by
  induction fuel generalizing i with
  | zero => omega
  | succ fuel ih =>
    rw [State.scanReads,if_pos (by omega)]
    split
    · exact List.mem_map.mpr ⟨usable - i,List.mem_range.mpr (by omega),by omega⟩
    · rename_i j hj
      rw [List.mem_append]
      by_cases hlate : i + j + 1 ≤ usable
      · exact .inr (ih hlate (by omega))
      · exact .inl (List.mem_map.mpr ⟨usable - i,List.mem_range.mpr (by omega),by omega⟩)

theorem scanLimit_eq {region : Region} (hle : n ≤ region.numPagesUsable) :
    usub region.numPagesUsable n = region.numPagesUsable - n :=
  usub_of_le (usub_lt region.numPages region.numPagesReserved) hle

theorem scan_run {index i : Nat} {region : Region} (hr : s.regions[index]? = some region)
    (hle : n ≤ region.numPagesUsable)
    (h : s.scan index (usub region.numPagesUsable n) n (usub region.numPagesUsable n + 1) 0 = some i) :
    s.RunAt n (index,i) := by
  obtain ⟨hi,hfree⟩ := scan_spec h
  rw [scanLimit_eq hle] at hi
  exact ⟨region,hr,by dsimp only; omega,hfree⟩

theorem scan_no_run {index : Nat} {region : Region} (hr : s.regions[index]? = some region)
    (hle : n ≤ region.numPagesUsable)
    (h : s.scan index (usub region.numPagesUsable n) n (usub region.numPagesUsable n + 1) 0 = none)
    (i : Nat) : ¬s.RunAt n (index,i) := by
  rintro ⟨r,hr',hin,hfree⟩
  cases hr.symm.trans hr'
  rw [scanLimit_eq hle] at h
  obtain ⟨j,hj,hbusy⟩ := scan_complete (k := i) (by omega) h (Nat.zero_le i) (by dsimp only at hin; omega)
  rw [hfree j hj] at hbusy
  cases hbusy

theorem framePhy_ne_zero (region : Region) (k : Nat) : region.framePhy k ≠ 0 := by
  simp only [Region.framePhy,Region.numPagesReserved,pageSize]
  omega

theorem takePages_taken (ha : Accounted s xs) (hp : Placed s) (hn : 1 ≤ n) {p : PageRef}
    (hrun : s.RunAt n p) :
    ∃ s', s.takePages p.1 p.2 n = some s' ∧ Taken s xs n p s' ((s'.pages p).pfn * pageSize) := by
  obtain ⟨region,hr,hin,hfree⟩ := hrun
  have hwin : ∀ j < n, s.IsPage (p.1,p.2 + j) ∧ (s.pages (p.1,p.2 + j)).free = true :=
    fun j hj => ⟨⟨region,hr,by dsimp only; omega⟩,hfree j hj⟩
  obtain ⟨s',xs',ht,hacc,hsame,hflag⟩ := takePages_spec ha hwin
  have hpfn : (s'.pages p).pfn * pageSize = region.framePhy p.2 := by
    rw [hsame.pfn,hp.pfn p region hr (by omega),Region.framePhy]
  refine ⟨s',ht,⟨region,hr,hin,hfree⟩,⟨region,hr,hpfn,?_⟩,hflag,hsame,xs',hacc,fun q => ?_⟩
  · rw [hpfn]
    exact framePhy_ne_zero region p.2
  · rw [hacc.mem,ha.mem,hsame.isPage,hflag]
    split_ifs with hq
    · simp [hq]
    · simp [hq]

theorem allocFrom_exact (ha : Accounted s xs) (hp : Placed s) (hn : 1 ≤ n) (pre : List Region)
    {regions : List Region} (hr : s.regions = pre ++ regions) (hreach : s.ReachedHave n pre.length) :
    (∀ p ∈ s.allocReads n pre.length regions, s.IsPage p) ∧
      ∃ s' base, s.allocFrom n pre.length regions = some (s',base) ∧
        ((∃ p, Taken s xs n p s' base) ∨
          (∀ p, pre.length ≤ p.1 → ¬s.RunAt n p) ∧ s' = s ∧ base = 0) := by
  induction regions generalizing pre with
  | nil =>
    refine ⟨nofun,s,0,rfl,.inr ⟨?_,rfl,rfl⟩⟩
    rintro p hle ⟨region,hat,-⟩
    have hlt := (List.getElem?_eq_some_iff.mp hat).1
    rw [hr,List.append_nil] at hlt
    omega
  | cons region regions ih =>
    have hat : s.regions[pre.length]? = some region := by simp [hr]
    have hle := hreach pre.length region le_rfl hat fun index i h1 h2 => by omega
    have hlimit := scanLimit_eq hle
    have hhere : ∀ k ∈ s.scanReads pre.length (usub region.numPagesUsable n) n
        (usub region.numPagesUsable n + 1) 0, s.IsPage (pre.length,k) := by
      intro k hk
      have hlt := scanReads_lt hk
      exact ⟨region,hat,by dsimp only [Region.numPagesUsable] at *; omega⟩
    simp only [State.allocReads,State.allocFrom]
    cases hscan : s.scan pre.length (usub region.numPagesUsable n) n
      (usub region.numPagesUsable n + 1) 0 with
    | some i =>
      obtain ⟨s',ht,htaken⟩ := takePages_taken ha hp hn (scan_run hat hle hscan)
      refine ⟨?_,s',_,by simp only [ht]; rfl,.inl ⟨_,htaken⟩⟩
      intro p hm
      rw [List.append_nil] at hm
      obtain ⟨k,hk,rfl⟩ := List.mem_map.mp hm
      exact hhere k hk
    | none =>
      have hr' : s.regions = (pre ++ [region]) ++ regions := by simp [hr]
      have hlen : (pre ++ [region]).length = pre.length + 1 := by simp
      have hnone := scan_no_run hat hle hscan
      have hreach' : s.ReachedHave n (pre ++ [region]).length := by
        intro k r hk hkr hbefore
        refine hreach k r (by omega) hkr fun index i h1 h2 => ?_
        rcases Nat.eq_or_lt_of_le h1 with rfl | hlt
        · exact hnone i
        · exact hbefore index i (by omega) h2
      obtain ⟨hreads,s',base,halloc,hres⟩ := ih _ hr' hreach'
      rw [hlen] at hreads halloc hres
      refine ⟨?_,s',base,halloc,?_⟩
      · intro p hm
        rcases List.mem_append.mp hm with hm | hm
        · obtain ⟨k,hk,rfl⟩ := List.mem_map.mp hm
          exact hhere k hk
        · exact hreads p hm
      · rcases hres with htaken | ⟨hno,rfl,rfl⟩
        · exact .inl htaken
        · refine .inr ⟨?_,rfl,rfl⟩
          rintro ⟨index,i⟩ h1
          rcases Nat.eq_or_lt_of_le h1 with heq | hlt
          · cases heq
            exact hnone i
          · exact hno _ hlt

theorem allocReads_end (hn : n < 2 ^ 64) (pre : List Region) {regions : List Region}
    (hr : s.regions = pre ++ regions) {k : Nat} {region : Region} (hk : pre.length ≤ k)
    (hat : s.regions[k]? = some region) (hsmall : region.numPagesUsable < n)
    (hbefore : ∀ index i, pre.length ≤ index → index < k → ¬s.RunAt n (index,i)) :
    ∃ p ∈ s.allocReads n pre.length regions, ¬s.IsPage p := by
  induction regions generalizing pre with
  | nil =>
    have hlt := (List.getElem?_eq_some_iff.mp hat).1
    rw [hr,List.append_nil] at hlt
    omega
  | cons first regions ih =>
    have hfirst : s.regions[pre.length]? = some first := by simp [hr]
    simp only [State.allocReads]
    by_cases hle : n ≤ first.numPagesUsable
    · have hne : k ≠ pre.length := by
        rintro rfl
        cases hfirst.symm.trans hat
        omega
      have hscan : s.scan pre.length (usub first.numPagesUsable n) n
          (usub first.numPagesUsable n + 1) 0 = none := by
        rw [Option.eq_none_iff_forall_ne_some]
        exact fun i hi => hbefore _ i le_rfl (by omega) (scan_run hfirst hle hi)
      have hr' : s.regions = (pre ++ [first]) ++ regions := by simp [hr]
      have hlen : (pre ++ [first]).length = pre.length + 1 := by simp
      obtain ⟨p,hm,hp⟩ := ih _ hr' (by omega) fun index i h1 h2 => hbefore index i (by omega) h2
      rw [hlen] at hm
      rw [hscan]
      exact ⟨p,List.mem_append_right _ hm,hp⟩
    · have husable : first.numPagesUsable < 2 ^ 64 := usub_lt _ _
      have hlimit : usub first.numPagesUsable n = 2 ^ 64 + first.numPagesUsable - n := by
        simp only [usub]
        omega
      have hend : first.numPagesUsable ∈ s.scanReads pre.length (usub first.numPagesUsable n) n
          (usub first.numPagesUsable n + 1) 0 := by
        rw [hlimit]
        exact scanReads_end (by omega) (by omega) (Nat.zero_le _) (by omega)
      refine ⟨_,List.mem_append_left _ (List.mem_map_of_mem hend),?_⟩
      rintro ⟨r,hr,hlt⟩
      cases hfirst.symm.trans hr
      exact lt_irrefl _ hlt

theorem alloc_contiguous_pages_iff (ha : Accounted s xs) (hp : Placed s) (hn : 1 ≤ n)
    (hlt : n < 2 ^ 64) : s.Allocates xs n ↔ s.ReachedHave n 0 := by
  constructor
  · rintro ⟨hreads,-⟩ k region hk hat hbefore
    by_contra hsmall
    obtain ⟨p,hm,hout⟩ := allocReads_end hlt [] rfl hk hat (by omega) hbefore
    exact hout (hreads p hm)
  · intro hreach
    obtain ⟨hreads,s',base,halloc,hres⟩ := allocFrom_exact ha hp hn [] rfl hreach
    refine ⟨hreads,s',base,halloc,?_⟩
    rcases hres with htaken | ⟨hno,hsame⟩
    · exact .inl htaken
    · exact .inr ⟨fun p => hno p (Nat.zero_le _),hsame⟩

theorem alloc_contiguous_pages_two : ∃ xs, started.Allocates xs 2 := by
  obtain ⟨xs,ha⟩ := started_accounted
  refine ⟨xs,(alloc_contiguous_pages_iff ha started_placed (by decide) (by decide)).mpr ?_⟩
  intro k region _ hk _
  rw [started_regions,List.getElem?_singleton] at hk
  split_ifs at hk
  cases hk
  decide

-- Three pages are usable, and four are asked for.
theorem alloc_contiguous_pages_past_end :
    (∃ xs, Accounted started xs) ∧ Placed started ∧ ∀ xs, ¬started.Allocates xs 4 := by
  refine ⟨started_accounted,started_placed,?_⟩
  rintro xs ⟨hreads,-⟩
  have hat : started.regions[0]? = some ⟨0x100,4⟩ := by
    rw [started_regions]
    rfl
  obtain ⟨p,hm,hout⟩ := allocReads_end (n := 4) (by decide) [] rfl (Nat.zero_le 0) hat
    (by decide) fun _ _ _ h => by omega
  exact hout (hreads p hm)

end Contiguous

end SabaOS.Pmm
