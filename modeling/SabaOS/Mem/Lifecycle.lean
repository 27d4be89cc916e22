import SabaOS.Mem.System

namespace SabaOS.Mem
open SabaOS.Klib SabaOS.Lib

structure Freed (vm vm' : VM) (S : Nat → Prop) : Prop where
  freed : ∀ pfn, S pfn → vm'.chains.link pfn = some .freelist ∧ vm'.pages pfn = ⟨true,0⟩
  kept : ∀ pfn, ¬ S pfn → vm'.chains.link pfn = vm.chains.link pfn ∧
    vm'.pages pfn = vm.pages pfn
  entry : ∀ pm key, vm'.entry pm key = vm.entry pm key
  regions : vm'.regions = vm.regions
  spaces : vm'.spaces = vm.spaces
  nextPm : vm'.nextPm = vm.nextPm
  lent : vm'.lent = vm.lent
  lost : vm'.lost = vm.lost

section Freed

variable {vm vm' vm'' : VM} {S T : Nat → Prop} {pm : Nat}

theorem Freed.congr (h : Freed vm vm' S) (hst : ∀ pfn, S pfn ↔ T pfn) : Freed vm vm' T := by
  obtain rfl : S = T := funext fun pfn => propext (hst pfn)
  exact h

theorem Freed.trans (h : Freed vm vm' S) (h' : Freed vm' vm'' T) :
    Freed vm vm'' fun pfn => S pfn ∨ T pfn where
  freed pfn hs := by
    by_cases ht : T pfn
    · exact h'.freed pfn ht
    · rw [(h'.kept pfn ht).1,(h'.kept pfn ht).2]
      exact h.freed pfn (hs.resolve_right ht)
  kept pfn hn := by
    obtain ⟨h1,h2⟩ := not_or.mp hn
    rw [(h'.kept pfn h2).1,(h'.kept pfn h2).2]
    exact h.kept pfn h1
  entry pm key := (h'.entry pm key).trans (h.entry pm key)
  regions := h'.regions.trans h.regions
  spaces := h'.spaces.trans h.spaces
  nextPm := h'.nextPm.trans h.nextPm
  lent := h'.lent.trans h.lent
  lost := h'.lost.trans h.lost

theorem freePages_freed (l : List Nat) :
    ∀ vm : VM, vm.freePages l = some vm' → Freed vm vm' (· ∈ l) := by
  induction l with
  | nil =>
    intro vm h
    cases h
    exact ⟨by simp,fun _ _ => ⟨rfl,rfl⟩,fun _ _ => rfl,rfl,rfl,rfl,rfl,rfl⟩
  | cons p l ih =>
    intro vm h
    obtain ⟨vm1,h1,h2⟩ := Option.bind_eq_some_iff.mp h
    unfold VM.freePage at h1
    split_ifs at h1
    cases h1
    have hf : Freed vm { vm.setPage p ⟨true,0⟩ with chains := vm.chains.push .freelist p }
        (· = p) := by
      refine ⟨?_,?_,fun _ _ => rfl,rfl,rfl,rfl,rfl,rfl⟩
      · rintro q rfl
        simp [VM.setPage]
      · intro q hq
        simp [VM.setPage,hq]
    exact (hf.trans (ih _ h2)).congr fun q => by simp

theorem deleteRanges_freed (l : List MappedRange) :
    ∀ vm : VM, vm.deleteRanges pm l = some vm' →
    Freed vm vm' fun pfn => ∃ r ∈ l, vm.chains.link pfn = some (.range pm r.id) := by
  induction l with
  | nil =>
    intro vm h
    cases h
    exact ⟨by simp,fun _ _ => ⟨rfl,rfl⟩,fun _ _ => rfl,rfl,rfl,rfl,rfl,rfl⟩
  | cons r l ih =>
    intro vm h
    obtain ⟨vm1,h1,h2⟩ := Option.bind_eq_some_iff.mp h
    have hf := (freePages_freed _ vm h1).congr fun q => vm.chains.mem_iff (.range pm r.id) q
    refine (hf.trans (ih vm1 h2)).congr fun q => ?_
    by_cases hq : vm.chains.link q = some (.range pm r.id)
    · simp [hq]
    · rw [(hf.kept q hq).1]
      simp [hq]

theorem destroy_freed {own : Owning} (hg : Good vm own) (hpm : pm ≠ kernelPm)
    (h : vm.destroy pm = some vm') :
    ∃ vm1 lent lost, vm' = { vm1.setSpace pm none with lent := lent, lost := lost } ∧
    Freed vm vm1 fun pfn =>
      (∃ id, vm.chains.link pfn = some (.range pm id)) ∨
      vm.chains.link pfn = some (.tables pm) := by
  unfold VM.destroy at h
  split at h
  · simp at h
  · rename_i sp hsp
    obtain ⟨vm1,h1,h⟩ := Option.bind_eq_some_iff.mp h
    obtain ⟨vm2,h2,rfl⟩ := Option.map_eq_some_iff.mp h
    have f1 := deleteRanges_freed _ vm h1
    have f2 := freePages_freed _ vm1 h2
    refine ⟨vm2,_,_,rfl,(f1.trans f2).congr fun q => ?_⟩
    have hranges : (∃ r ∈ sp.rangeList, vm.chains.link q = some (.range pm r.id)) ↔
        ∃ id, vm.chains.link q = some (.range pm id) := by
      constructor
      · rintro ⟨r,_,hr⟩
        exact ⟨r.id,hr⟩
      · rintro ⟨id,hid⟩
        obtain ⟨key,ho,_⟩ := hg.linked.listed q pm id hid
        obtain ⟨r,hr,rfl,_⟩ := (hg.sound pm sp hpm hsp).cover key id ho
        exact ⟨r,hr,hid⟩
    rw [hranges,vm1.chains.mem_iff]
    by_cases hq : ∃ id, vm.chains.link q = some (.range pm id)
    · simp [hq]
    · rw [(f1.kept q (hranges.not.mpr hq)).1]

theorem Good.destroy {own : Owning} (hg : Good vm own) (hpm : pm ≠ kernelPm)
    (h : vm.destroy pm = some vm') :
    Good vm' fun pm' key => if pm' = pm then none else own pm' key := by
  obtain ⟨vm1,lent,lost,rfl,f⟩ := destroy_freed hg hpm h
  have a : VM.Alike vm1 { vm1.setSpace pm none with lent := lent, lost := lost } :=
    ⟨rfl,fun _ _ => rfl,fun _ => rfl,fun _ => rfl⟩
  have hspaces (pm' : Nat) : (vm1.setSpace pm none).spaces pm' =
      if pm' = pm then none else vm.spaces pm' := by
    rw [VM.setSpace,f.spaces]
    exact Function.update_apply ..
  have kept {q pm' id : Nat} (hq : vm.chains.link q = some (.range pm' id)) (hne : pm' ≠ pm) :
      vm1.chains.link q = vm.chains.link q ∧ vm1.pages q = vm.pages q := by
    refine f.kept q ?_
    simp [hq,hne]
  have hl : Linked vm1 fun pm' key => if pm' = pm then none else own pm' key := by
    refine ⟨?_,?_,?_,?_,?_⟩
    · intro pm' key id ho
      split_ifs at ho
      exact hg.linked.placed pm' key id ho
    · intro pm' key id ho
      split_ifs at ho with hne
      obtain ⟨h1,h2,h3⟩ := hg.linked.owned pm' key id ho
      rw [f.entry,(kept h2 hne).1,(kept h2 hne).2]
      exact ⟨h1,h2,h3⟩
    · intro q pm' id hq
      by_cases hs : (∃ id, vm.chains.link q = some (.range pm id)) ∨
          vm.chains.link q = some (.tables pm)
      · rw [(f.freed q hs).1] at hq
        cases hq
      · rw [(f.kept q hs).1] at hq
        have hne : pm' ≠ pm := fun he => hs (.inl ⟨id,he ▸ hq⟩)
        simp only [if_neg hne,f.entry]
        exact hg.linked.listed q pm' id hq
    · intro q
      by_cases hs : (∃ id, vm.chains.link q = some (.range pm id)) ∨
          vm.chains.link q = some (.tables pm)
      · simp [(f.freed q hs).1,(f.freed q hs).2]
      · rw [(f.kept q hs).1,(f.kept q hs).2]
        exact hg.linked.free q
    · intro q hq
      rw [f.regions]
      by_cases hs : (∃ id, vm.chains.link q = some (.range pm id)) ∨
          vm.chains.link q = some (.tables pm)
      · refine hg.linked.managed q ?_
        rcases hs with ⟨id,hs⟩ | hs <;> simp [hs]
      · exact hg.linked.managed q ((f.kept q hs).1 ▸ hq)
  refine ⟨hl.alike a,?_,?_,?_,f.nextPm ▸ hg.fresh.1,?_⟩
  · intro pm' key id ho
    split_ifs at ho with hne
    rw [hspaces,if_neg hne]
    exact hg.live pm' key id ho
  · intro pm' sp hpm' hsp
    rw [hspaces] at hsp
    split_ifs at hsp with hne
    have h := hg.sound pm' sp hpm' hsp
    refine Sound.alike a ⟨h.ranges,h.bound,?_,?_,?_,h.marked⟩
    · intro key id ho
      rw [if_neg hne] at ho
      exact h.cover key id ho
    · intro key hk hp hn
      rw [if_neg hne] at hn
      rw [f.entry,f.regions] at *
      obtain ⟨r,hr,hv,hd | ⟨ht,hm⟩⟩ := h.foreign key hk hp hn
      · exact ⟨r,hr,hv,.inl hd⟩
      · obtain ⟨id,hid⟩ := hm.linked
        refine ⟨r,hr,hv,.inr ⟨ht,hm.kernel,by rw [f.entry]; exact hm.present,
          by rw [f.entry]; exact hm.same,id,?_⟩⟩
        rw [(kept hid (Ne.symm hpm)).1]
        exact hid
    · intro key hk hp
      rw [f.entry] at *
      exact h.flags key hk hp
  · intro ksp hk
    rw [hspaces,if_neg (Ne.symm hpm)] at hk
    have h := hg.kernel ksp hk
    refine KernelSound.alike a ⟨h.ranges,h.above,h.marked,h.types,?_,?_,?_⟩
    · intro key id ho
      rw [if_neg (Ne.symm hpm)] at ho
      exact h.cover key id ho
    · intro key
      rw [if_neg (Ne.symm hpm),f.entry]
      exact h.filled key
    · intro key
      rw [f.entry]
      exact h.lower key
  · intro pm' hle
    have hle' : vm.nextPm ≤ pm' := f.nextPm ▸ hle
    rw [hspaces]
    split_ifs
    · rfl
    · exact hg.fresh.2 pm' hle'

end Freed

structure Blank (vm vm' : VM) (child : Nat) : Prop where
  entry : ∀ pm key, half pm key ≠ child → vm'.entry pm key = vm.entry pm key
  absent : ∀ key, key < 2 ^ 35 → (vm'.entry child key).present = false
  regions : vm'.regions = vm.regions
  files : vm'.files = vm.files
  spaces : ∀ pm, pm ≠ child → vm'.spaces pm = vm.spaces pm
  empty : ∃ sp, vm'.spaces child = some sp ∧ sp.rangeList = []
  used : ∀ pfn, vm.chains.link pfn ≠ some .freelist →
    vm'.chains.link pfn = vm.chains.link pfn ∧ vm'.pages pfn = vm.pages pfn ∧
    vm'.mem pfn = vm.mem pfn

section Blank

variable {vm vm' : VM} {own : Owning} {child : Nat}

theorem Good.blank (hg : Good vm own) (hch : child ≠ kernelPm)
    (hown : ∀ key, own child key = none) (b : Blank vm vm' child)
    (hlink : ∀ q, vm'.chains.link q = vm.chains.link q) (hpages : ∀ q, vm'.pages q = vm.pages q)
    (hnext : vm.nextPm ≤ vm'.nextPm ∧ child < vm'.nextPm) : Good vm' own := by
  have hne {pm key id : Nat} (ho : own pm key = some id) : half pm key ≠ child := by
    rw [(hg.linked.placed pm key id ho).1]
    rintro rfl
    simp [hown] at ho
  have hmir {map pfn : Nat} (h : Mirrors vm map pfn) : Mirrors vm' map pfn := by
    have he := b.entry kernelPm map (by rw [half,if_neg (Nat.not_lt.mpr h.kernel)]; exact hch.symm)
    exact ⟨h.kernel,by rw [he]; exact h.present,by rw [he]; exact h.same,
      by rw [hlink]; exact h.linked⟩
  refine ⟨⟨hg.linked.placed,?_,?_,?_,?_⟩,?_,?_,?_,?_⟩
  · intro pm key id ho
    rw [b.entry pm key (hne ho),hlink,hpages]
    exact hg.linked.owned pm key id ho
  · intro q pm id hq
    obtain ⟨key,h1,h2⟩ := hg.linked.listed q pm id (hlink q ▸ hq)
    exact ⟨key,h1,by rw [b.entry pm key (hne h1)]; exact h2⟩
  · intro q
    rw [hlink,hpages]
    exact hg.linked.free q
  · intro q hq
    rw [b.regions]
    exact hg.linked.managed q (hlink q ▸ hq)
  · intro pm key id ho
    rw [b.spaces pm fun he => by rw [he,hown] at ho; simp at ho]
    exact hg.live pm key id ho
  · intro pm sp hpm hsp
    by_cases hc : pm = child
    · subst hc
      obtain ⟨sp',h1,h2⟩ := b.empty
      rw [h1] at hsp
      cases hsp
      rw [h2]
      refine ⟨⟨by simp,by simp,by simp,by simp⟩,by simp,?_,?_,by simp,by simp⟩
      · intro key id ho
        simp [hown] at ho
      · intro key hk hp
        simp [b.absent key hk] at hp
    · have h := hg.sound pm sp hpm (b.spaces pm hc ▸ hsp)
      have he {key : Nat} (hk : key < 2 ^ 35) : vm'.entry pm key = vm.entry pm key :=
        b.entry pm key (by rw [half_user hk]; exact hc)
      refine ⟨h.ranges,h.bound,h.cover,?_,?_,h.marked⟩
      · intro key hk hp hn
        rw [he hk] at hp ⊢
        rw [b.regions]
        obtain ⟨r,hr,hv,hd | ⟨ht,hm⟩⟩ := h.foreign key hk hp hn
        · exact ⟨r,hr,hv,.inl hd⟩
        · exact ⟨r,hr,hv,.inr ⟨ht,hmir hm⟩⟩
      · intro key hk hp
        rw [he hk] at hp ⊢
        exact h.flags key hk hp
  · intro ksp hk
    rw [b.spaces kernelPm hch.symm] at hk
    have h := hg.kernel ksp hk
    have he (key : Nat) : vm'.entry kernelPm key = vm.entry kernelPm key :=
      b.entry kernelPm key (by rw [half]; split_ifs <;> exact hch.symm)
    refine ⟨h.ranges,h.above,h.marked,h.types,h.cover,fun key => ?_,fun key => ?_⟩
    · rw [he]
      exact h.filled key
    · rw [he]
      exact h.lower key
  · refine ⟨hg.fresh.1.trans_le hnext.1,fun pm hle => ?_⟩
    rw [b.spaces pm (by omega)]
    exact hg.fresh.2 pm (by omega)

theorem Good.unborn (hg : Good vm own) (key : Nat) : own vm.nextPm key = none := by
  cases ho : own vm.nextPm key with
  | none => rfl
  | some id =>
    obtain ⟨sp,hsp⟩ := hg.live _ _ _ ho
    simp [hg.fresh.2 vm.nextPm le_rfl] at hsp

theorem Blank.grow {vm'' : VM} (b : Blank vm vm' child) (g : VM.Grows vm' vm'')
    (hf : ∀ q, vm'.chains.link q = vm.chains.link q) : Blank vm vm'' child where
  entry pm key hne := (g.entry pm key).trans (b.entry pm key hne)
  absent key hk := by rw [g.entry]; exact b.absent key hk
  regions := g.regions.trans b.regions
  files := g.files.trans b.files
  spaces pm hne := by rw [g.spaces]; exact b.spaces pm hne
  empty := by rw [g.spaces]; exact b.empty
  used q hq := by
    obtain ⟨h1,h2,h3⟩ := b.used q hq
    obtain ⟨e1,e2,e3⟩ := g.used q (by rw [hf]; exact hq)
    exact ⟨e1.trans h1,e2.trans h2,e3.trans h3⟩

theorem newPagemap_good {base brk : Nat} (hg : Good vm own)
    (h : vm.newPagemap base brk = some vm') :
    Good vm' own ∧ Blank vm vm' vm.nextPm ∧ vm'.nextPm = vm.nextPm + 1 := by
  have hch : vm.nextPm ≠ kernelPm := hg.fresh.1.ne'
  obtain ⟨g,_⟩ := VM.allocPageForPageTable_grows h
  have b : Blank vm { vm with
      nextPm := vm.nextPm + 1
      spaces := Function.update vm.spaces vm.nextPm (some ⟨[],0,none,base,brk⟩)
      tables := Function.update vm.tables vm.nextPm []
      ptes := Function.update vm.ptes vm.nextPm fun _ => Pte.zero
      lent := Function.update vm.lent vm.nextPm [] } vm.nextPm := by
    refine ⟨?_,?_,rfl,rfl,?_,?_,fun _ _ => ⟨rfl,rfl,rfl⟩⟩
    · intro pm key hne
      simp [VM.entry,VM.hasTable,Function.update_of_ne hne]
    · intro key hk
      simp [VM.entry,VM.hasTable,half_user hk]
      rfl
    · intro pm hne
      exact Function.update_of_ne hne ..
    · exact ⟨⟨[],0,none,base,brk⟩,by simp,rfl⟩
  refine ⟨(hg.blank hch hg.unborn b (fun _ => rfl) (fun _ => rfl)
    ⟨Nat.le_succ _,Nat.lt_succ_self _⟩).grow g,b.grow g fun _ => rfl,g.nextPm⟩

theorem copyTables_good {pm : Nat} (hg : Good vm own) (hch : child ≠ kernelPm)
    (hown : ∀ key, own child key = none) (hlt : child < vm.nextPm)
    (he : ∃ sp, vm.spaces child = some sp ∧ sp.rangeList = [])
    (h : vm.copyTables pm child = some vm') :
    Good vm' own ∧ Blank vm vm' child ∧ vm'.nextPm = vm.nextPm ∧
      vm'.spaces = vm.spaces := by
  obtain ⟨vm1,h1,rfl⟩ := Option.map_eq_some_iff.mp h
  obtain ⟨g,_⟩ := VM.allocPageTables_grows _ _ h1
  have hg1 := hg.grow g
  have b (f : Nat → Pte) (hf : ∀ k, (f k).present = false) (t : List Nat) : Blank vm1 { vm1 with
      tables := Function.update vm1.tables child t
      ptes := Function.update vm1.ptes child f } child := by
    refine ⟨?_,?_,rfl,rfl,fun _ _ => rfl,?_,fun _ _ => ⟨rfl,rfl,rfl⟩⟩
    · intro pm key hne
      simp [VM.entry,VM.hasTable,Function.update_of_ne hne]
    · intro key hk
      simp only [VM.entry,VM.hasTable,half_user hk,Function.update_self]
      split_ifs
      · exact hf key
      · rfl
    · change ∃ sp, vm1.spaces child = some sp ∧ _
      rw [g.spaces]
      exact he
  have b1 := b (fun k => if (vm1.ptes pm k).present then Pte.zero else vm1.ptes pm k)
    (fun k => by
      split_ifs with hp
      · rfl
      · simpa using hp) (vm.tables pm)
  refine ⟨hg1.blank hch hown b1 (fun _ => rfl) (fun _ => rfl) ⟨le_rfl,by rw [g.nextPm]; exact hlt⟩,
    ?_,g.nextPm,g.spaces⟩
  refine ⟨?_,b1.absent,g.regions,g.files,fun pm _ => by rw [← g.spaces],b1.empty,g.used⟩
  intro pm key hne
  exact (b1.entry pm key hne).trans (g.entry pm key)

end Blank

end SabaOS.Mem
