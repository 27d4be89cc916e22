import SabaOS.Mem.Read

namespace SabaOS.Mem
open SabaOS.Klib SabaOS.Lib

def ForkSafe (vm : VM) (pm : Nat) (r : MappedRange) (virt : Nat) : Prop :=
  match r.type with
  | .anonymous => True
  | .file => (vm.entry pm (pageKey virt)).present = true ∨ r.base = r.originalBase
  | _ => r.base = r.originalBase ∧ ((vm.entry pm (pageKey virt)).present = true →
      ∀ id, vm.chains.link (vm.entry pm (pageKey virt)).pfn ≠ some (.range pm id))

section Fork

variable {vm vm' : VM} {own own' : Owning} {pm child virt : Nat} {sp : Space}
  {copied : Nat → Prop}

theorem copy_backing {r : MappedRange} {id page : Nat} (h : r.base = r.originalBase) :
    (r.copy id).backing page = r.backing page := by
  unfold MappedRange.backing
  rw [← h]
  rfl

theorem Copying.find_child (c : Copying vm vm' own own' pm child sp.rangeList copied)
    (hch : child ≠ kernelPm) {r : MappedRange} (hr : r ∈ sp.rangeList) (hv : r.covers virt) :
    ∃ id, (vm'.ranges child).find? (fun x => x.covers virt) = some (r.copy id) := by
  obtain ⟨csp,hcsp,_,hall⟩ := c.ranges
  obtain ⟨id,hid⟩ := hall r hr
  refine ⟨id,?_⟩
  have hcok := (c.good.sound child csp hch hcsp).ranges
  simpa [VM.ranges,hcsp] using find_covers hcok hid hv

theorem Copying.child_range (c : Copying vm vm' own own' pm child sp.rangeList copied)
    {x : MappedRange} (hx : x ∈ vm'.ranges child) (hv : x.covers virt) :
    ∃ r ∈ sp.rangeList, r.covers virt ∧ x = r.copy x.id := by
  obtain ⟨csp,hcsp,hold,_⟩ := c.ranges
  obtain ⟨r,hr,he⟩ := hold x (by simpa [VM.ranges,hcsp] using hx)
  rw [he] at hv
  exact ⟨r,hr,hv,he⟩

theorem Copying.mirrors (c : Copying vm vm' own own' pm child sp.rangeList copied)
    (hch : child ≠ kernelPm) {map pfn : Nat} (h : Mirrors vm map pfn) :
    Mirrors vm' map pfn ∧ vm'.entry kernelPm map = vm.entry kernelPm map ∧
      vm'.mem pfn = vm.mem pfn := by
  have he := c.entry kernelPm map (by rw [half,if_neg (Nat.not_lt.mpr h.kernel)]; exact hch.symm)
  obtain ⟨id,hid⟩ := h.linked
  obtain ⟨u1,_,u3⟩ := c.used pfn (by simp [hid])
  exact ⟨⟨h.kernel,by rw [he]; exact h.present,by rw [he]; exact h.same,id,u1.trans hid⟩,he,u3⟩

theorem Good.unmanaged_used {pfn : Nat} (hg : Good vm own)
    (h : findPage vm.regions pfn = some none) : vm.chains.link pfn ≠ some .freelist := by
  intro hl
  rw [hg.linked.managed _ (by simp [hl])] at h
  simp at h

variable (hg : Good vm own) (hpm : pm ≠ kernelPm) (hsp : vm.spaces pm = some sp)
  (hv : virt < 2 ^ 47) (hf : ∀ r ∈ sp.rangeList, r.covers virt → ForkSafe vm pm r virt)
  (hs : (vm.entry pm (pageKey virt)).present = false → FaultSafe vm pm virt)
include hg hpm hsp hv hf hs

theorem fork_sources {r : MappedRange} (hr : r ∈ sp.rangeList) (hc : r.covers virt) :
    (r.type = .direct → r.base = r.originalBase ∧
      findPage vm.regions (directPfn r (alignDown virt pageSize)) = some none ∧
      ((vm.entry pm (pageKey virt)).present = true →
        (vm.entry pm (pageKey virt)).pfn = directPfn r (alignDown virt pageSize))) ∧
    (r.type = .directVirtual → r.base = r.originalBase ∧
      Mirrors vm (pageKey (r.backing (alignDown virt pageSize)))
        (vm.entry kernelPm (pageKey (r.backing (alignDown virt pageSize)))).pfn ∧
      ((vm.entry pm (pageKey virt)).present = true → (vm.entry pm (pageKey virt)).pfn =
        (vm.entry kernelPm (pageKey (r.backing (alignDown virt pageSize)))).pfn)) := by
  have h := hg.sound pm sp hpm hsp
  have hranges : vm.ranges pm = sp.rangeList := by simp [VM.ranges,hsp]
  have hfr := hf r hr hc
  have hcd := covers_alignDown (h.ranges.each r hr) hc
  have foreign (hp : (vm.entry pm (pageKey virt)).present = true)
      (hn : ∀ id, vm.chains.link (vm.entry pm (pageKey virt)).pfn ≠ some (.range pm id)) :
      (r.type = .direct ∧ (vm.entry pm (pageKey virt)).pfn = directPfn r (alignDown virt pageSize) ∧
        findPage vm.regions (vm.entry pm (pageKey virt)).pfn = some none) ∨
      (r.type = .directVirtual ∧ Mirrors vm (pageKey (r.backing (alignDown virt pageSize)))
        (vm.entry pm (pageKey virt)).pfn) := by
    have hno : own pm (pageKey virt) = none := by
      cases ho : own pm (pageKey virt) with
      | none => rfl
      | some id => exact absurd (hg.linked.owned _ _ _ ho).2.1 (hn id)
    obtain ⟨x,hx,hxv,hd⟩ := h.foreign _ (pageKey_lt hv) hp hno
    rw [pageKey_mul hv] at hxv hd
    rwa [h.ranges.eq_of_covers hr hx hcd hxv]
  constructor
  · intro ht
    simp only [ForkSafe,ht] at hfr
    refine ⟨hfr.1,?_,?_⟩
    · cases hp : (vm.entry pm (pageKey virt)).present with
      | false => exact (hs hp).direct hpm r (hranges ▸ hr) hc ht
      | true =>
        rcases foreign hp (hfr.2 hp) with ⟨_,e1,e2⟩ | ⟨hd,_⟩
        · exact e1 ▸ e2
        · simp [ht] at hd
    · intro hp
      rcases foreign hp (hfr.2 hp) with ⟨_,e1,_⟩ | ⟨hd,_⟩
      · exact e1
      · simp [ht] at hd
  · intro ht
    simp only [ForkSafe,ht] at hfr
    refine ⟨hfr.1,?_,?_⟩
    · cases hp : (vm.entry pm (pageKey virt)).present with
      | false => exact (hs hp).mirror hpm r (hranges ▸ hr) hc ht
      | true =>
        rcases foreign hp (hfr.2 hp) with ⟨hd,_⟩ | ⟨_,hm⟩
        · simp [ht] at hd
        · exact hm.same.symm ▸ hm
    · intro hp
      rcases foreign hp (hfr.2 hp) with ⟨hd,_⟩ | ⟨_,hm⟩
      · simp [ht] at hd
      · exact hm.same.symm

variable (hch : child ≠ kernelPm)
  (c : Copying vm vm' own own' pm child sp.rangeList (Copied own pm sp.rangeList))
include hch c

theorem fork_faultSafe : FaultSafe vm' child virt := by
  refine ⟨.inl ⟨hch,hv⟩,?_,?_⟩
  · intro _ x hx hxv ht
    obtain ⟨r,hr,hrv,he⟩ := c.child_range hx hxv
    rw [he] at ht ⊢
    obtain ⟨h1,h2,_⟩ := (fork_sources hg hpm hsp hv hf hs hr hrv).1 ht
    rw [directPfn,copy_backing h1,c.regions]
    exact h2
  · intro _ x hx hxv ht
    obtain ⟨r,hr,hrv,he⟩ := c.child_range hx hxv
    rw [he] at ht ⊢
    obtain ⟨h1,h2,_⟩ := (fork_sources hg hpm hsp hv hf hs hr hrv).2 ht
    rw [copy_backing h1]
    obtain ⟨m1,m2,_⟩ := c.mirrors hch h2
    rw [m2]
    exact m1

theorem fork_contents : vm'.contents child virt = vm.contents pm virt := by
  have h := hg.sound pm sp hpm hsp
  have hranges : vm.ranges pm = sp.rangeList := by simp [VM.ranges,hsp]
  have hk := pageKey_lt hv
  by_cases hc : ∃ r ∈ sp.rangeList, r.covers virt
  · obtain ⟨r,hr,hrv⟩ := hc
    obtain ⟨id,hchild⟩ := c.find_child hch hr hrv
    have hparent := find_covers h.ranges hr hrv
    have hcd := covers_alignDown (h.ranges.each r hr) hrv
    obtain ⟨hd,hm⟩ := fork_sources hg hpm hsp hv hf hs hr hrv
    have hcop : Copied own pm sp.rangeList (pageKey virt) ↔
        r.ownsPages ∧ (vm.entry pm (pageKey virt)).present = true := by
      constructor
      · rintro ⟨x,hx,hxo,ho⟩
        obtain ⟨y,hy,hid,hyv⟩ := h.cover _ _ ho
        rw [pageKey_mul hv] at hyv
        obtain rfl := h.ranges.eq_of_covers hr hy hcd hyv
        obtain rfl := Keyed.eq_of_key h.ranges.ids hy hx hid
        exact ⟨hxo,(hg.linked.owned _ _ _ ho).1⟩
      · rintro ⟨hro,hp⟩
        refine ⟨r,hr,hro,hg.owner_of_covers hsp hr hro (by omega) ?_ hp⟩
        rw [pageAddr,if_pos hk,pageKey_mul hv]
        exact hcd
    have hpres : (vm'.entry child (pageKey virt)).present = true ↔
        r.ownsPages ∧ (vm.entry pm (pageKey virt)).present = true :=
      (c.present _ hk).trans hcop
    unfold VM.contents
    rw [hchild,hranges,hparent]
    by_cases hro : r.ownsPages ∧ (vm.entry pm (pageKey virt)).present = true
    · rw [if_pos (hpres.mpr hro),if_pos hro.2,(c.content _ (hcop.mpr hro)).2.2]
    · rw [if_neg (hpres.not.mpr hro)]
      simp only [Option.map_some]
      have hfr := hf r hr hrv
      unfold VM.backingByte
      have htc : (r.copy id).type = r.type := rfl
      have hfc : (r.copy id).file = r.file := rfl
      rw [htc,hfc]
      cases ht : r.type with
      | anonymous =>
        rw [if_neg fun hp => hro ⟨.inl ht,hp⟩]
      | file =>
        have hp : ¬ (vm.entry pm (pageKey virt)).present = true := fun hp => hro ⟨.inr ht,hp⟩
        simp only [ForkSafe,ht] at hfr
        rw [if_neg hp,copy_backing (hfr.resolve_left hp),c.files]
      | direct =>
        obtain ⟨d1,d2,d3⟩ := hd ht
        simp only [directPfn,copy_backing d1]
        have hu := (c.used _ (hg.unmanaged_used d2)).2.2
        simp only [directPfn] at hu d3
        rw [hu]
        split_ifs with hp
        · rw [d3 hp]
        · rfl
      | directVirtual =>
        obtain ⟨d1,d2,d3⟩ := hm ht
        obtain ⟨_,m2,m3⟩ := c.mirrors hch d2
        simp only [copy_backing d1]
        rw [m2,m3]
        split_ifs with hp
        · rw [d3 hp]
        · rfl
      | none => exact absurd ht (h.ranges.each r hr).typed
  · have hn : ¬ (vm.entry pm (pageKey virt)).present = true := by
      intro hp
      obtain ⟨r,hr,hrv⟩ := h.present_covered hk hp
      refine hc ⟨r,hr,?_⟩
      rw [pageKey_mul hv] at hrv
      have hps : pageSize = 4096 := rfl
      have hok := h.ranges.each r hr
      have := hok.endAddr_eq
      obtain ⟨a1,a2⟩ := hok.aligned
      obtain ⟨v1,v2⟩ := hrv
      simp only [hps,alignDown] at *
      constructor <;> split_ifs at v1 v2 <;> omega
    have hn' : ¬ (vm'.entry child (pageKey virt)).present = true := by
      rw [c.present _ hk]
      rintro ⟨x,_,_,ho⟩
      exact hn (hg.linked.owned _ _ _ ho).1
    have hfp : ((vm.ranges pm).find? fun r => r.covers virt) = none := by
      rw [hranges,List.find?_eq_none]
      exact fun r hr => by simpa using fun hrv => hc ⟨r,hr,hrv⟩
    have hfc : ((vm'.ranges child).find? fun r => r.covers virt) = none := by
      rw [List.find?_eq_none]
      intro x hx
      simp only [decide_eq_true_eq]
      intro hxv
      obtain ⟨r,hr,hrv,_⟩ := c.child_range hx hxv
      exact hc ⟨r,hr,hrv⟩
    rw [VM.contents,VM.contents,if_neg hn,if_neg hn',hfp,hfc]
    rfl

end Fork

structure Spared (vm vm' : VM) (writer other : Nat) : Prop where
  entry : ∀ pm key, half pm key ≠ writer → vm'.entry pm key = vm.entry pm key
  mem : ∀ pfn, vm.chains.link pfn ≠ some .freelist →
    (∀ id, vm.chains.link pfn ≠ some (.range writer id)) →
    vm'.mem pfn = vm.mem pfn ∧ vm'.chains.link pfn = vm.chains.link pfn
  space : vm'.spaces other = vm.spaces other
  files : vm'.files = vm.files
  regions : vm'.regions = vm.regions

section Write

variable {vm vm' : VM} {own : Owning} {writer other virt : Nat} {sp : Space}

theorem Good.fault_spares {wsp : Space} {r : MappedRange} {res : Option Nat} (hg : Good vm own)
    (hw : writer ≠ kernelPm) (hne : other ≠ writer) (hsp : vm.spaces writer = some wsp)
    (hr : r ∈ wsp.rangeList) (hro : r.ownsPages) (hv : virt < 2 ^ 47) (hc : r.covers virt)
    (hp : ¬ (vm.entry writer (pageKey virt)).present = true)
    (hf : Faulted 63 vm writer virt vm' res) :
    Spared vm vm' writer other ∧ ∀ pfn, res = some pfn → vm.chains.link pfn = some .freelist := by
  have hok := (hg.sound writer wsp hw hsp).ranges
  have hsafe := hg.faultSafe_private hw hsp hr hro hv hc
  have found {vm2 : VM} {sp2 : Space} {owner : Owner} {x : MappedRange} (g : VM.Grows vm vm2)
      (h2 : vm2.spaces writer = some sp2)
      (hx : (sp2.addrToRange (vm2.outerRanges writer) virt).2 = some (owner,x)) : x = r := by
    rw [g.spaces,hsp] at h2
    cases h2
    obtain ⟨_,hxl,hxc⟩ := (hg.grow g).found (hsafe.grow g) hx
    exact hok.eq_of_covers hxl hr hxc hc
  cases hf with
  | present h1 hp' =>
    rw [(VM.createTables_grows h1).1.entry] at hp'
    exact absurd hp' hp
  | @unmapped vm2 sp2 h1 h2 hx =>
    obtain ⟨g,_⟩ := VM.createTables_grows h1
    rw [g.spaces,hsp] at h2
    cases h2
    have hout : ∀ x ∈ vm2.outerRanges writer, ¬ x.covers virt := by
      intro x hx hxc
      have h3 := (hg.grow g).outer hw x hx
      have h4 := hxc.1
      omega
    rcases addrToRange_own wsp hout with ⟨x,_,_,hx'⟩ | ⟨_,hn⟩
    · simp [hx] at hx'
    · exact absurd hc (hn r hr)
  | @filled vm2 vm3 sp2 owner x pfn bytes h1 hnp h2 hx hty hal =>
    obtain ⟨g,htab⟩ := VM.createTables_grows h1
    have hl := fill_links (VM.listOwner writer owner) x.id (alignDown virt pageSize) bytes
      x.pageFlags hal htab
    obtain ⟨hfree,hvm3⟩ := VM.allocPage_eq hal
    have hfree0 : vm.chains.link pfn = some .freelist := by
      by_contra hn
      exact hn ((g.used pfn hn).1 ▸ hfree)
    refine ⟨⟨?_,?_,?_,?_,?_⟩,?_⟩
    · intro pm key hh
      refine (hl.entry pm key).trans ?_
      rw [half_user (pageKey_lt hv),if_neg fun he => hh he.1]
      exact g.entry pm key
    · intro q h3 h4
      obtain ⟨u1,_,u3⟩ := g.used q h3
      have hq : q ≠ pfn := fun he => h3 (he ▸ hfree0)
      refine ⟨?_,?_⟩
      · simpa [hvm3,VM.setEntry,VM.fill,VM.adopt,VM.setPage,VM.setSpace,hq] using u3
      · refine (hl.link q).trans ?_
        rw [if_neg hq]
        exact u1
    · rw [hvm3]
      exact (Function.update_of_ne hne ..).trans (congrFun g.spaces other)
    · rw [hvm3]
      exact g.files
    · exact hl.regions.trans g.regions
    · intro p he
      cases he
      exact hfree0
  | direct h1 _ h2 hx hty =>
    rw [found (VM.createTables_grows h1).1 h2 hx] at hty
    rcases hro with h | h <;> simp [h] at hty
  | mirrored h1 _ h2 hx hty =>
    rw [found (VM.createTables_grows h1).1 h2 hx] at hty
    rcases hro with h | h <;> simp [h] at hty
  | nested h1 _ h2 hx hty =>
    rw [found (VM.createTables_grows h1).1 h2 hx] at hty
    rcases hro with h | h <;> simp [h] at hty
  | untyped h1 h2 hx hty =>
    rw [found (VM.createTables_grows h1).1 h2 hx] at hty
    rcases hro with h | h <;> simp [h] at hty

theorem Good.access_spares {wsp : Space} {r : MappedRange} {res : Option Nat} (hg : Good vm own)
    (hw : writer ≠ kernelPm) (hne : other ≠ writer) (hsp : vm.spaces writer = some wsp)
    (hr : r ∈ wsp.rangeList) (hro : r.ownsPages) (hv : virt < 2 ^ 47) (hc : r.covers virt)
    (ha : vm.access writer virt = some (vm',res)) :
    Spared vm vm' writer other ∧ ∀ pfn, res = some pfn →
      vm.chains.link pfn = some .freelist ∨ ∃ id, vm.chains.link pfn = some (.range writer id) := by
  have hok := (hg.sound writer wsp hw hsp).ranges
  unfold VM.access at ha
  dsimp only at ha
  split_ifs at ha with hp
  · cases ha
    refine ⟨⟨fun _ _ _ => rfl,fun _ _ _ => ⟨rfl,rfl⟩,rfl,rfl,rfl⟩,fun pfn he => .inr ?_⟩
    cases he
    have hcov : r.covers (pageAddr (pageKey virt)) := by
      rw [pageAddr,if_pos (pageKey_lt hv),pageKey_mul hv]
      exact covers_alignDown (hok.each r hr) hc
    have hk := pageKey_lt hv
    exact ⟨r.id,(hg.linked.owned _ _ _
      (hg.owner_of_covers hsp hr hro (by omega) hcov hp)).2.1⟩
  · have hpm : VM.faultPm writer virt = writer := VM.faultPm_user hv
    have hf : Faulted 63 vm writer virt vm' res := by
      have hf := handlePageFault_faulted 63 ha
      change Faulted 63 vm (VM.faultPm writer virt) virt vm' res at hf
      rwa [hpm] at hf
    obtain ⟨hs,hfree⟩ := hg.fault_spares hw hne hsp hr hro hv hc hp hf
    exact ⟨hs,fun pfn he => .inl (hfree pfn he)⟩

theorem Good.write_spares {byte : UInt8} {wsp : Space} {r : MappedRange} (hg : Good vm own)
    (hw : writer ≠ kernelPm) (hne : other ≠ writer) (hsp : vm.spaces writer = some wsp)
    (hr : r ∈ wsp.rangeList) (hro : r.ownsPages) (hv : virt < 2 ^ 47) (hc : r.covers virt)
    (h : vm.write writer virt byte = some vm') : Spared vm vm' writer other := by
  obtain ⟨⟨vm1,res⟩,ha,rfl⟩ := Option.map_eq_some_iff.mp h
  obtain ⟨hs,hp⟩ := hg.access_spares hw hne hsp hr hro hv hc ha
  cases res with
  | none => exact hs
  | some pfn =>
    dsimp only
    split_ifs
    · exact hs
    · refine ⟨hs.entry,fun q h1 h2 => ?_,hs.space,hs.files,hs.regions⟩
      have hq : q ≠ pfn := by
        rintro rfl
        rcases hp q rfl with h | ⟨id,h⟩
        · exact h1 h
        · exact h2 id h
      simpa [VM.fill,hq] using hs.mem q h1 h2

theorem Spared.read (hg : Good vm own) {own' : Owning} (hg' : Good vm' own')
    (ho : other ≠ kernelPm) (hw : writer ≠ kernelPm) (hne : other ≠ writer)
    (hsp : vm.spaces other = some sp) (hv : virt < 2 ^ 47)
    (hs : (vm.entry other (pageKey virt)).present = false → FaultSafe vm other virt)
    (s : Spared vm vm' writer other) {b : Option UInt8} (hr : vm.read other virt = some b)
    (hfree : 4 ≤ vm'.frees) : vm'.read other virt = some b := by
  have h := hg.sound other sp ho hsp
  have hk := pageKey_lt hv
  have hent : vm'.entry other (pageKey virt) = vm.entry other (pageKey virt) :=
    s.entry _ _ (by rw [half_user hk]; exact hne)
  have hranges : vm'.ranges other = vm.ranges other := by rw [VM.ranges,VM.ranges,s.space]
  have hmir {map pfn : Nat} (hm : Mirrors vm map pfn) : Mirrors vm' map pfn ∧
      vm'.entry kernelPm map = vm.entry kernelPm map ∧ vm'.mem pfn = vm.mem pfn := by
    have he := s.entry kernelPm map (by
      rw [half,if_neg (Nat.not_lt.mpr hm.kernel)]
      exact hw.symm)
    obtain ⟨id,hid⟩ := hm.linked
    obtain ⟨m1,m2⟩ := s.mem pfn (by simp [hid]) (fun id' => by simp [hid,hw.symm])
    exact ⟨⟨hm.kernel,by rw [he]; exact hm.present,by rw [he]; exact hm.same,id,m2.trans hid⟩,he,m1⟩
  have hdir {pfn : Nat} (hd : findPage vm.regions pfn = some none) : vm'.mem pfn = vm.mem pfn := by
    have hl : vm.chains.link pfn = none := by
      by_contra hl
      rw [hg.linked.managed _ hl] at hd
      simp at hd
    exact (s.mem pfn (by simp [hl]) (by simp [hl])).1
  have hsafe : (vm'.entry other (pageKey virt)).present = false → FaultSafe vm' other virt := by
    intro hnp
    obtain ⟨s1,s2,s3⟩ := hs (hent ▸ hnp)
    refine ⟨s1,fun hpm x hx hxc ht => ?_,fun hpm x hx hxc ht => ?_⟩
    · rw [s.regions]
      exact s2 hpm x (hranges ▸ hx) hxc ht
    · obtain ⟨m1,m2,_⟩ := hmir (s3 hpm x (hranges ▸ hx) hxc ht)
      rw [m2]
      exact m1
  rw [read_eq hg hsp ho hv hs] at hr
  rw [read_eq hg' (s.space.trans hsp) ho hv hsafe,if_pos ((VM.faultCost_le _ _ _).trans hfree)]
  split_ifs at hr
  rw [← hr]
  congr 1
  unfold VM.contents
  rw [hent,hranges]
  cases hp : (vm.entry other (pageKey virt)).present with
  | true =>
    simp only [if_true]
    suffices hm : vm'.mem (vm.entry other (pageKey virt)).pfn =
        vm.mem (vm.entry other (pageKey virt)).pfn by rw [hm]
    cases hown : own other (pageKey virt) with
    | some id =>
      have hl := (hg.linked.owned _ _ _ hown).2.1
      exact (s.mem _ (by simp [hl]) (by simp [hl,hne])).1
    | none =>
      obtain ⟨x,_,_,⟨_,_,hd⟩ | ⟨_,hm⟩⟩ := h.foreign _ hk hp hown
      · exact hdir hd
      · exact (hmir hm).2.2
  | false =>
    simp only [Bool.false_eq_true,if_false]
    cases hfind : (vm.ranges other).find? fun r => r.covers virt with
    | none => rfl
    | some x =>
      have hx := List.mem_of_find?_eq_some hfind
      have hxc : x.covers virt := by simpa using List.find?_some hfind
      simp only [Option.map_some]
      congr 1
      unfold VM.backingByte
      cases ht : x.type with
      | anonymous => rfl
      | file => simp only [s.files]
      | direct => simp only [hdir ((hs hp).direct ho x hx hxc ht)]
      | directVirtual =>
        obtain ⟨_,m2,m3⟩ := hmir ((hs hp).mirror ho x hx hxc ht)
        simp only [m2,m3]
      | none => rfl

end Write

def libraryCall : Call :=
  .mmap 0x10000 0x2000 1 (mapPrivate ||| mapFixed) (some ⟨5,true,false,.tmpfs⟩) 0

def libraryMapped : VM := (oneProcess.step (.call 1 libraryCall)).get (by decide +kernel)

def libraryTrimmed : VM :=
  (libraryMapped.step (.call 1 (.munmap 0x10000 0x1000))).get (by decide +kernel)

theorem libraryMapped_reached : Relation.ReflTransGen SafeStep smallMachine libraryMapped := by
  refine oneProcess_reached.tail ⟨.call 1 libraryCall,⟨by decide,?_⟩,(Option.some_get _).symm⟩
  exact callSafe_unmirrored (fileRequest 0x10000 0x2000 (mmapProtToPageFlags 1) 5 0)
    (by decide +kernel) ⟨by decide,by decide⟩ (by decide) fun _ => rfl

theorem libraryTrimmed_reached : Relation.ReflTransGen SafeStep smallMachine libraryTrimmed := by
  refine libraryMapped_reached.tail ⟨.call 1 (.munmap 0x10000 0x1000),⟨by decide,?_⟩,
    (Option.some_get _).symm⟩
  exact callSafe_unmirrored (unmapRequest 0x10000 0x1000) (by decide +kernel)
    ⟨by decide,by decide⟩ (by decide) fun _ => rfl

def libraryForked : VM × Nat := (libraryMapped.fork 1).get (by decide +kernel)

end SabaOS.Mem
