import SabaOS.Mem.Lifecycle

namespace SabaOS.Mem
open SabaOS.Klib SabaOS.Lib

def MappedRange.copy (r : MappedRange) (id : Nat) : MappedRange := rangeOf (VM.forkRequest r) id

def MappedRange.ownsPages (r : MappedRange) : Prop := r.type = .anonymous ∨ r.type = .file

theorem forkRequest_addRange {r : MappedRange} (ht : r.type ≠ .none) (l : List MappedRange)
    (n : Nat) : addRange (VM.forkRequest r) l n =
      (⟨linkRange l (r.copy n),n + 1,[],false,false⟩,some (r.copy n)) := by
  simp [addRange,addRangeFuel,resolveOverlaps,finishRange,insertRange,VM.forkRequest,ht,
    MappedRange.copy,rangeOf]

structure Copying (vm vm' : VM) (own own' : Owning) (pm child : Nat) (done : List MappedRange)
    (copied : Nat → Prop) : Prop where
  good : Good vm' own'
  owners : ∀ pm' key, pm' ≠ child → own' pm' key = own pm' key
  entry : ∀ pm' key, half pm' key ≠ child → vm'.entry pm' key = vm.entry pm' key
  used : ∀ pfn, vm.chains.link pfn ≠ some .freelist →
    vm'.chains.link pfn = vm.chains.link pfn ∧ vm'.pages pfn = vm.pages pfn ∧
    vm'.mem pfn = vm.mem pfn
  spaces : ∀ pm', pm' ≠ child → vm'.spaces pm' = vm.spaces pm'
  files : vm'.files = vm.files
  regions : vm'.regions = vm.regions
  ranges : ∃ sp, vm'.spaces child = some sp ∧
    (∀ x ∈ sp.rangeList, ∃ r ∈ done, x = r.copy x.id) ∧
    ∀ r ∈ done, ∃ id, r.copy id ∈ sp.rangeList
  present : ∀ key, key < 2 ^ 35 → ((vm'.entry child key).present = true ↔ copied key)
  content : ∀ key, copied key → (∃ id, own pm key = some id) ∧ (∃ id, own' child key = some id) ∧
    vm'.mem (vm'.entry child key).pfn = vm.mem (vm.entry pm key).pfn

section CopyPage

variable {vm vm' : VM} {child old : Nat} {r : MappedRange}

theorem copyPage_links (hold : vm.chains.link old ≠ some .freelist)
    (h : vm.copyPage child r old = some vm') :
    ∃ vm1 pfn, VM.Grows vm vm1 ∧ vm1.chains.link pfn = some .freelist ∧
      VM.Links vm1 vm' child (pageKey (vm.pages old).mappedAddr) ⟨pfn,r.pageFlags⟩ pfn
        (some (.range child r.id)) ⟨false,(vm.pages old).mappedAddr⟩ ∧
      vm'.mem = Function.update vm1.mem pfn (vm.mem old) ∧ vm'.spaces = vm.spaces ∧
      vm'.files = vm.files ∧ vm'.nextPm = vm.nextPm := by
  obtain ⟨⟨vm1,p⟩,ha,h⟩ := Option.bind_eq_some_iff.mp h
  obtain ⟨hf,rfl⟩ := VM.allocPage_eq ha
  have hne : old ≠ p := fun he => hold (he ▸ hf)
  dsimp only at h
  obtain ⟨vm2,h2,rfl⟩ := Option.map_eq_some_iff.mp h
  obtain ⟨g,ht⟩ := VM.createTables_grows h2
  simp only [VM.setPage,Function.update_of_ne hne] at h2 g ht ⊢
  have hlink (q : Nat) (hq : q ≠ p) (hl : vm.chains.link q ≠ some .freelist) :
      vm2.chains.link q = vm.chains.link q ∧ vm2.pages q = vm.pages q ∧
        vm2.mem q = vm.mem q := by
    simpa [VM.adopt,VM.setPage,hq] using g.used q (by simpa [VM.adopt,VM.setPage,hq] using hl)
  refine ⟨{ vm2.setPage p (vm.pages p) with chains := vm2.chains.push .freelist p },p,
    ⟨g.regions,g.spaces,g.files,g.nextPm,g.entry,g.table,?_,?_⟩,by simp,?_,?_,g.spaces,g.files,
    g.nextPm⟩
  · intro q hq
    have hqp : q ≠ p := fun he => hq (he ▸ hf)
    simpa [VM.setPage,hqp] using hlink q hqp hq
  · intro q hq
    by_cases hqp : q = p
    · exact .inl (by simp [VM.setPage,hqp])
    · have := g.unused q (by simpa [VM.adopt,VM.setPage,hqp] using hq)
      simpa [VM.adopt,VM.setPage,hqp] using this
  · have hp := g.used p (by simp [VM.adopt])
    refine ⟨rfl,fun pm' key' => VM.entry_setEntry _ _ _ _ ht pm' key',?_,?_⟩
    · intro q
      by_cases hqp : q = p
      · simpa [VM.fill,VM.setEntry,hqp,VM.adopt] using hp.1
      · simp [VM.fill,VM.setEntry,hqp]
    · intro q
      by_cases hqp : q = p
      · simpa [VM.fill,VM.setEntry,VM.setPage,hqp,VM.adopt] using hp.2.1
      · simp [VM.fill,VM.setEntry,VM.setPage,hqp]
  · simp only [VM.fill,(hlink old hne hold).2.2]
    rfl

end CopyPage

theorem pageKey_pageAddr {key : Nat} (hk : key < 2 ^ 35) : pageKey (pageAddr key) = key := by
  have hps : pageSize = 4096 := rfl
  simp only [pageAddr,if_pos hk,pageKey,hps]
  omega

section Copying

variable {vm vm1 vm' : VM} {own own1 : Owning} {pm child : Nat} {done : List MappedRange}
  {copied : Nat → Prop} {r : MappedRange} {sp : Space}

theorem Copying.copyPage {key id : Nat} (c : Copying vm vm1 own own1 pm child done copied)
    (hl : Linked vm own) (hsp : vm1.spaces child = some sp)
    (hx : r.copy id ∈ sp.rangeList) (hk : key < 2 ^ 35) (ho : own pm key = some r.id)
    (hv : r.covers (key * pageSize)) (hn : ¬ copied key)
    (h : vm1.copyPage child (r.copy id) (vm.entry pm key).pfn = some vm') :
    Copying vm vm' own (own1.set child key (some id)) pm child done
      (fun k => copied k ∨ k = key) ∧ vm'.spaces = vm1.spaces := by
  obtain ⟨_,hlink,haddr⟩ := hl.owned _ _ _ ho
  obtain ⟨u1,u2,u3⟩ := c.used (vm.entry pm key).pfn (by simp [hlink])
  have hused : vm1.chains.link (vm.entry pm key).pfn ≠ some .freelist := by simp [u1,hlink]
  obtain ⟨vm2,p,g,hfree,l,hmem,hspaces,hfiles,hnext⟩ := copyPage_links hused h
  rw [u2,haddr,pageKey_pageAddr hk] at l
  have hg := c.good.grow g
  have hkey : half child key = child ∧ key < 2 ^ 36 := ⟨half_user hk,by omega⟩
  have hnp : (vm2.entry child key).present = false := by
    rw [g.entry]
    simpa using (c.present key hk).not.mpr hn
  have hmark := hg.marked (g.spaces ▸ hsp) hx
  have hgood := hg.place (g.spaces ▸ hsp) hkey hnp
    (hg.linked.take hkey (.inl ⟨hfree,hg.not_owned child hnp⟩) l rfl (present_of_flags _ hmark) rfl)
    l.entry
    (by
      intro q a b hq
      rw [l.link,if_neg]
      · exact hq
      · rintro rfl
        simp [hfree] at hq) l.regions (hspaces.trans g.spaces.symm) (hnext.trans g.nextPm.symm) hx
    (by rw [pageAddr,if_pos hk]; exact hv) rfl (.inl rfl)
  have hp0 : vm1.chains.link p = some .freelist := by
    by_contra hc
    exact hc ((g.used p hc).1 ▸ hfree)
  have other {k : Nat} (hkk : k ≠ key) : vm'.entry child k = vm1.entry child k := by
    rw [l.entry,if_neg (fun hc => hkk hc.2),g.entry]
  have self : vm'.entry child key = ⟨p,(r.copy id).pageFlags⟩ := by
    rw [l.entry,if_pos ⟨rfl,rfl⟩]
  refine ⟨⟨hgood,?_,?_,?_,?_,?_,?_,?_,?_,?_⟩,hspaces⟩
  · intro pm' k hne'
    rw [Owning.set,if_neg fun hc => hne' hc.1]
    exact c.owners pm' k hne'
  · intro pm' k hne'
    rw [l.entry,if_neg,g.entry]
    · exact c.entry pm' k hne'
    · rw [hkey.1]
      exact fun hc => hne' hc.1
  · intro q hq
    obtain ⟨e1,e2,e3⟩ := c.used q hq
    have hq1 : vm1.chains.link q ≠ some .freelist := e1 ▸ hq
    obtain ⟨f1,f2,f3⟩ := g.used q hq1
    have hqp : q ≠ p := fun he => hq1 (he ▸ hp0)
    rw [l.link,if_neg hqp,l.page,if_neg hqp,hmem,Function.update_of_ne hqp]
    exact ⟨f1.trans e1,f2.trans e2,f3.trans e3⟩
  · intro pm' hne'
    rw [hspaces]
    exact c.spaces pm' hne'
  · exact hfiles.trans c.files
  · exact l.regions.trans (g.regions.trans c.regions)
  · rw [hspaces]
    exact c.ranges
  · intro k hk'
    by_cases hkk : k = key
    · subst hkk
      rw [self]
      simpa using present_of_flags p hmark
    · rw [other hkk]
      simpa [hkk] using c.present k hk'
  · rintro k (hc | rfl)
    · have hkk : k ≠ key := fun he => hn (he ▸ hc)
      obtain ⟨h1,⟨id',h2⟩,h3⟩ := c.content k hc
      refine ⟨h1,⟨id',by rw [Owning.set,if_neg fun he => hkk he.2]; exact h2⟩,?_⟩
      obtain ⟨_,hl1,_⟩ := c.good.linked.owned _ _ _ h2
      have hq1 : vm1.chains.link (vm1.entry child k).pfn ≠ some .freelist := by simp [hl1]
      have hqp : (vm1.entry child k).pfn ≠ p := fun he => hq1 (he ▸ hp0)
      rw [other hkk,hmem,Function.update_of_ne hqp,(g.used _ hq1).2.2]
      exact h3
    · refine ⟨⟨_,ho⟩,⟨id,if_pos ⟨rfl,rfl⟩⟩,?_⟩
      rw [self,hmem,Function.update_self]
      exact u3

theorem Copying.congr {copied' : Nat → Prop} (c : Copying vm vm1 own own1 pm child done copied)
    (h : ∀ k, copied k ↔ copied' k) : Copying vm vm1 own own1 pm child done copied' := by
  obtain rfl : copied = copied' := funext fun k => propext (h k)
  exact c

theorem Copying.copyPages {id : Nat} (hl : Linked vm own)
    (hx : r.copy id ∈ sp.rangeList) (l : List Nat) :
    ∀ (vm1 : VM) (own1 : Owning) (copied : Nat → Prop),
      Copying vm vm1 own own1 pm child done copied → vm1.spaces child = some sp → l.Nodup →
      (∀ q ∈ l, ∃ key, key < 2 ^ 35 ∧ own pm key = some r.id ∧ r.covers (key * pageSize) ∧
        (vm.entry pm key).pfn = q ∧ ¬ copied key) →
      VM.copyPages child (r.copy id) vm1 l = some vm' →
      ∃ own', Copying vm vm' own own' pm child done (fun k => copied k ∨
        own pm k = some r.id ∧ (vm.entry pm k).pfn ∈ l) := by
  induction l with
  | nil =>
    intro vm1 own1 copied c _ _ _ h
    cases h
    exact ⟨own1,c.congr fun k => by simp⟩
  | cons q l ih =>
    intro vm1 own1 copied c hsp hnd hkeys h
    obtain ⟨hql,hnd'⟩ := List.nodup_cons.mp hnd
    obtain ⟨vm2,h1,h2⟩ := Option.bind_eq_some_iff.mp h
    obtain ⟨key,hk,ho,hv,rfl,hn⟩ := hkeys q (by simp)
    obtain ⟨c2,hs2⟩ := c.copyPage hl hsp hx hk ho hv hn h1
    obtain ⟨own',c'⟩ := ih vm2 _ _ c2 (hs2 ▸ hsp) hnd' (by
      intro q' hq'
      obtain ⟨k,hk',ho',hv',rfl,hn'⟩ := hkeys q' (by simp [hq'])
      refine ⟨k,hk',ho',hv',rfl,?_⟩
      rintro (hc | rfl)
      · exact hn' hc
      · exact hql hq') h2
    refine ⟨own',c'.congr fun k => ?_⟩
    have hkey : k = key ↔ own pm k = some r.id ∧ (vm.entry pm k).pfn = (vm.entry pm key).pfn :=
      ⟨fun he => by rw [he]; exact ⟨ho,rfl⟩,fun he => (hl.unique he.1 ho he.2).2.1⟩
    rw [hkey]
    simp only [List.mem_cons]
    tauto

def Copied (own : Owning) (pm : Nat) (done : List MappedRange) (key : Nat) : Prop :=
  ∃ r ∈ done, r.ownsPages ∧ own pm key = some r.id

variable {parent : Space}

theorem Copying.addRange {n : Nat} (hg : Good vm own) (hch : child ≠ kernelPm)
    (hpm : pm ≠ kernelPm) (hpar : vm.spaces pm = some parent) (hr : r ∈ parent.rangeList)
    (hdone : ∀ d ∈ done, d ∈ parent.rangeList ∧ d ≠ r)
    (c : Copying vm vm1 own own1 pm child done copied) (hsp : vm1.spaces child = some sp)
    (hn : sp.nextId = n) :
    Copying vm (vm1.setSpace child (some { sp with
      rangeList := linkRange sp.rangeList (r.copy n), nextId := n + 1, cachedRangeLookup := none }))
      own own1 pm child (done ++ [r]) copied := by
  subst hn
  have hs := c.good.sound child sp hch hsp
  have hps := hg.sound pm parent hpm hpar
  have hold : ∀ x ∈ sp.rangeList, ∃ d ∈ done, x = d.copy x.id := by
    obtain ⟨sp',h1,h2,_⟩ := c.ranges
    rw [hsp] at h1
    cases h1
    exact h2
  have hall : ∀ d ∈ done, ∃ id, d.copy id ∈ sp.rangeList := by
    obtain ⟨sp',h1,_,h3⟩ := c.ranges
    rw [hsp] at h1
    cases h1
    exact h3
  have hmem (x : MappedRange) : x ∈ linkRange sp.rangeList (r.copy sp.nextId) ↔
      x = r.copy sp.nextId ∨ x ∈ sp.rangeList := by
    rw [(linkRange_perm _ _).mem_iff,List.mem_cons]
  have hap {x : MappedRange} (hx : x ∈ sp.rangeList) : Apart (r.copy sp.nextId) x := by
    obtain ⟨d,hd,he⟩ := hold x hx
    obtain ⟨hd1,hd2⟩ := hdone d hd
    rintro v ⟨hv1,hv2⟩
    rw [he] at hv2
    exact hps.ranges.apart r hr d hd1 hd2.symm v ⟨hv1,hv2⟩
  have hsound : Sound vm1 own1 child (linkRange sp.rangeList (r.copy sp.nextId))
      (sp.nextId + 1) := by
    refine ⟨⟨?_,?_,?_,?_⟩,?_,?_,?_,?_,?_⟩
    · refine ((linkRange_perm _ _).map _).nodup_iff.mpr (List.nodup_cons.mpr ⟨?_,hs.ranges.ids⟩)
      intro hc
      obtain ⟨x,hx,he⟩ := List.mem_map.mp hc
      exact (hs.ranges.fresh x hx).ne he
    · intro x hx
      rcases (hmem x).mp hx with rfl | hx
      · exact Nat.lt_succ_self _
      · exact Nat.lt_succ_of_lt (hs.ranges.fresh x hx)
    · intro x hx
      rcases (hmem x).mp hx with rfl | hx
      · exact ⟨(hps.ranges.each r hr).bounded,(hps.ranges.each r hr).aligned,
          (hps.ranges.each r hr).typed⟩
      · exact hs.ranges.each x hx
    · intro x hx y hy hxy
      rcases (hmem x).mp hx with rfl | hx <;> rcases (hmem y).mp hy with rfl | hy
      · exact absurd rfl hxy
      · exact hap hy
      · exact fun v hv => hap hx v ⟨hv.2,hv.1⟩
      · exact hs.ranges.apart x hx y hy hxy
    · intro x hx
      rcases (hmem x).mp hx with rfl | hx
      · exact hps.bound r hr
      · exact hs.bound x hx
    · intro key id hid
      obtain ⟨x,hx,h1,h2⟩ := hs.cover key id hid
      exact ⟨x,(hmem x).mpr (.inr hx),h1,h2⟩
    · intro key hk hp hno
      obtain ⟨x,hx,hd⟩ := hs.foreign key hk hp hno
      exact ⟨x,(hmem x).mpr (.inr hx),hd⟩
    · intro key hk hp x hx hv
      rcases (hmem x).mp hx with rfl | hx
      · obtain ⟨y,hy,hyv⟩ := hs.present_covered hk hp
        exact absurd ⟨hv,hyv⟩ (hap hy _)
      · exact hs.flags key hk hp x hx hv
    · intro x hx
      rcases (hmem x).mp hx with rfl | hx
      · exact hps.marked r hr
      · exact hs.marked x hx
  refine ⟨c.good.ran hch hsp (Ran.refl c.good.linked) hsound,c.owners,c.entry,c.used,?_,c.files,
    c.regions,?_,c.present,c.content⟩
  · intro pm' hne
    exact (Function.update_of_ne hne ..).trans (c.spaces pm' hne)
  · refine ⟨_,Function.update_self ..,?_,?_⟩
    · intro x hx
      rcases (hmem x).mp hx with rfl | hx
      · exact ⟨r,by simp,rfl⟩
      · obtain ⟨d,hd,he⟩ := hold x hx
        exact ⟨d,by simp [hd],he⟩
    · intro d hd
      rcases List.mem_append.mp hd with hd | hd
      · obtain ⟨id,hid⟩ := hall d hd
        exact ⟨id,(hmem _).mpr (.inr hid)⟩
      · obtain rfl := List.mem_singleton.mp hd
        exact ⟨sp.nextId,(hmem _).mpr (.inl rfl)⟩

theorem Copying.forkRange (hg : Good vm own) (hch : child ≠ kernelPm) (hpm : pm ≠ kernelPm)
    (hne : pm ≠ child) (hpar : vm.spaces pm = some parent) (hr : r ∈ parent.rangeList)
    (hdone : ∀ d ∈ done, d ∈ parent.rangeList ∧ d ≠ r)
    (c : Copying vm vm1 own own1 pm child done (Copied own pm done))
    (h : vm1.forkRange pm child r = some vm') :
    ∃ own', Copying vm vm' own own' pm child (done ++ [r]) (Copied own pm (done ++ [r])) := by
  have hps := hg.sound pm parent hpm hpar
  obtain ⟨sp,hsp,_⟩ := c.ranges
  have c2 := c.addRange hg hch hpm hpar hr hdone hsp rfl
  have htype : (r.copy sp.nextId).type = r.type := rfl
  simp only [VM.forkRange,hsp,Space.addRange,forkRequest_addRange (hps.ranges.each r hr).typed,
    htype] at h
  split_ifs at h with ht
  · have hlink (q : Nat) : q ∈ vm1.chains.lists (.range pm r.id) ↔
        ∃ key, own pm key = some r.id ∧ (vm.entry pm key).pfn = q := by
      rw [vm1.chains.mem_iff]
      constructor
      · intro hq
        obtain ⟨key,h1,h2⟩ := c.good.linked.listed q pm r.id hq
        have hhalf := (c.good.linked.placed _ _ _ h1).1
        refine ⟨key,c.owners pm key hne ▸ h1,?_⟩
        rw [← c.entry pm key (by rw [hhalf]; exact hne)]
        exact h2
      · rintro ⟨key,h1,rfl⟩
        obtain ⟨_,h2,_⟩ := hg.linked.owned _ _ _ h1
        rw [(c.used _ (by simp [h2])).1]
        exact h2
    obtain ⟨own',c'⟩ := Copying.copyPages hg.linked ((linkRange_perm _ _).mem_iff.mpr (by simp)) _
      _ _ _ c2 (Function.update_self ..) (vm1.chains.nodup (.range pm r.id)) (by
        intro q hq
        obtain ⟨key,h1,h2⟩ := (hlink q).mp hq
        have hk : key < 2 ^ 35 := by
          by_contra hge
          have := (hg.linked.placed _ _ _ h1).1
          rw [half,if_neg hge] at this
          exact hpm this.symm
        obtain ⟨x,hx,hid,hv⟩ := hps.cover key r.id h1
        obtain rfl := Keyed.eq_of_key hps.ranges.ids hx hr hid
        refine ⟨key,hk,h1,hv,h2,?_⟩
        rintro ⟨d,hd,_,hd'⟩
        rw [h1] at hd'
        exact (hdone d hd).2 (Keyed.eq_of_key hps.ranges.ids (hdone d hd).1 hx
          (Option.some.inj hd').symm)) h
    refine ⟨own',c'.congr fun k => ?_⟩
    simp only [Copied,List.mem_append,List.mem_singleton,or_and_right,exists_or,exists_eq_left]
    refine or_congr_right ⟨fun hk => ⟨ht,hk.1⟩,fun hk => ⟨hk.2,?_⟩⟩
    exact (hlink _).mpr ⟨k,hk.2,rfl⟩
  · cases h
    refine ⟨own1,c2.congr fun k => ?_⟩
    simp only [Copied,List.mem_append,List.mem_singleton,or_and_right,exists_or,exists_eq_left]
    have : ¬ r.ownsPages := ht
    simp [this]

theorem Copying.forkRanges (hg : Good vm own) (hch : child ≠ kernelPm) (hpm : pm ≠ kernelPm)
    (hne : pm ≠ child) (hpar : vm.spaces pm = some parent) (l : List MappedRange) :
    ∀ (done : List MappedRange) (vm1 : VM) (own1 : Owning), done ++ l = parent.rangeList →
      Copying vm vm1 own own1 pm child done (Copied own pm done) →
      VM.forkRanges pm child vm1 l = some vm' →
      ∃ own', Copying vm vm' own own' pm child parent.rangeList
        (Copied own pm parent.rangeList) := by
  have hnd := (List.Nodup.of_map _ (hg.sound pm parent hpm hpar).ranges.ids)
  induction l with
  | nil =>
    intro done vm1 own1 he c h
    cases h
    rw [List.append_nil] at he
    exact ⟨own1,he ▸ c⟩
  | cons r l ih =>
    intro done vm1 own1 he c h
    obtain ⟨vm2,h1,h2⟩ := Option.bind_eq_some_iff.mp h
    rw [← he] at hnd
    have hdone : ∀ d ∈ done, d ∈ parent.rangeList ∧ d ≠ r := by
      intro d hd
      refine ⟨he ▸ List.mem_append_left _ hd,?_⟩
      rintro rfl
      exact (List.nodup_append.mp hnd).2.2 d hd d (by simp) rfl
    obtain ⟨own2,c2⟩ := c.forkRange hg hch hpm hne hpar (he ▸ by simp) hdone h1
    exact ih (done ++ [r]) vm2 own2 (by simpa using he) c2 h2

theorem fork_copying (hg : Good vm own) (hpm : pm ≠ kernelPm) (hpar : vm.spaces pm = some parent)
    (h : vm.fork pm = some (vm',child)) :
    child = vm.nextPm ∧ ∃ own', Copying vm vm' own own' pm child parent.rangeList
      (Copied own pm parent.rangeList) := by
  simp only [VM.fork,hpar] at h
  obtain ⟨vm1,h1,h⟩ := Option.bind_eq_some_iff.mp h
  obtain ⟨vm2,h2,h⟩ := Option.bind_eq_some_iff.mp h
  obtain ⟨vm3,h3,he⟩ := Option.map_eq_some_iff.mp h
  cases he
  have hch : vm.nextPm ≠ kernelPm := hg.fresh.1.ne'
  have hne : pm ≠ vm.nextPm := by
    rintro rfl
    simp [hg.fresh.2 vm.nextPm le_rfl] at hpar
  obtain ⟨hg1,b1,n1⟩ := newPagemap_good hg h1
  obtain ⟨hg2,b2,n2,_⟩ := copyTables_good hg1 hch hg.unborn (by omega) b1.empty h2
  have c : Copying vm vm2 own own pm vm.nextPm [] (Copied own pm []) := by
    refine ⟨hg2,fun _ _ _ => rfl,?_,?_,?_,b2.files.trans b1.files,b2.regions.trans b1.regions,
      ?_,?_,?_⟩
    · exact fun pm' key hh => (b2.entry pm' key hh).trans (b1.entry pm' key hh)
    · intro q hq
      obtain ⟨e1,e2,e3⟩ := b1.used q hq
      obtain ⟨f1,f2,f3⟩ := b2.used q (e1 ▸ hq)
      exact ⟨f1.trans e1,f2.trans e2,f3.trans e3⟩
    · exact fun pm' hh => (b2.spaces pm' hh).trans (b1.spaces pm' hh)
    · obtain ⟨sp,e1,e2⟩ := b2.empty
      exact ⟨sp,e1,by simp [e2],by simp⟩
    · intro key hk
      simp [b2.absent key hk,Copied]
    · simp [Copied]
  exact ⟨rfl,Copying.forkRanges hg hch hpm hne hpar _ [] vm2 own rfl c h3⟩

end Copying

end SabaOS.Mem
