import SabaOS.Mem.KernelTables

namespace SabaOS.Mem
open SabaOS.Klib SabaOS.Lib

def VM.Reaches (vm : VM) (pm virt : Nat) (x : MappedRange) : Prop :=
  (x ∈ vm.ranges pm ∨ x ∈ vm.outerRanges pm) ∧ x.covers virt

def MappedRange.mirror (r : MappedRange) (virt : Nat) : Nat := r.backing (alignDown virt pageSize)

structure MirrorFault (vm : VM) (pm virt : Nat) (sp : Space) (r : MappedRange) : Prop where
  process : pm ≠ kernelPm
  user : virt < 2 ^ 47
  absent : (vm.entry pm (pageKey virt)).present = false
  space : vm.spaces pm = some sp
  found : ∃ owner, (sp.addrToRange (vm.outerRanges pm) virt).2 = some (owner,r)
  type : r.type = .directVirtual
  kernel : 2 ^ 35 ≤ pageKey (r.mirror virt)

structure SharesFrame (vm vm' : VM) (pm virt map : Nat) (res : Option Nat) : Prop where
  same : ∀ pfn, res = some pfn → pfn ≠ 0 ∧ (vm'.entry pm (pageKey virt)).pfn = pfn
  mirror : ∀ pfn, res = some pfn → ∀ later, Relation.ReflTransGen VM.Later vm' later →
    (later.entry kernelPm (pageKey map)).present = true ∧
    (later.entry kernelPm (pageKey map)).pfn = pfn
  refused : (vm.entry pm (pageKey map)).present = false → (¬ ∃ x, vm.Reaches pm map x) → res = none

def MirrorReady (vm : VM) (map : Nat) : Prop := ∃ pfn, pfn ≠ 0 ∧ Held vm (pageKey map) pfn

section Mirror

variable {start vm vm' : VM} {pm virt : Nat} {sp : Space} {r : MappedRange} {res : Option Nat}

theorem outerRanges_grow (g : VM.Grows vm vm') (pm : Nat) :
    vm'.outerRanges pm = vm.outerRanges pm := by
  simp only [VM.outerRanges,VM.ranges,g.spaces]

theorem mirror_fault (hf : MirrorFault vm pm virt sp r)
    (h : vm.pageFault pm virt = some (vm',res)) :
    ∃ vm1 vm2, vm.createTables pm (pageKey virt) = some vm1 ∧
      ((vm1.hasTable pm (pageKey (r.mirror virt)) = true ∧
          vm2 = vm1.setSpace pm (some (sp.addrToRange (vm.outerRanges pm) virt).1)) ∨
        (vm1.hasTable pm (pageKey (r.mirror virt)) = false ∧ ∃ res', VM.handlePageFault 63
          (vm1.setSpace pm (some (sp.addrToRange (vm.outerRanges pm) virt).1)) pm (r.mirror virt) =
            some (vm2,res'))) ∧
      (vm2.hasTable pm (pageKey (r.mirror virt)) = true →
        vm' = vm2.setEntry pm (pageKey virt)
          ⟨(vm2.entry pm (pageKey (r.mirror virt))).pfn,r.pageFlags⟩ ∧
        res = some (vm2.entry pm (pageKey (r.mirror virt))).pfn) := by
  obtain ⟨owner,hfound⟩ := hf.found
  have hlow : ¬ virt ≥ kernelBase := by
    have := hf.user
    simp only [kernelBase]
    omega
  rw [VM.pageFault,if_neg hlow,VM.faultDepth,VM.handlePageFault] at h
  obtain ⟨vm1,h1,h⟩ := Option.bind_eq_some_iff.mp h
  obtain ⟨g,_⟩ := VM.createTables_grows h1
  have hsp : vm1.spaces pm = some sp := g.spaces ▸ hf.space
  have habs : (vm1.entry pm (pageKey virt)).present = false := by
    rw [g.entry]
    exact hf.absent
  rw [← outerRanges_grow g] at hfound
  simp only [habs,Bool.false_eq_true,if_false,hsp,hfound,hf.type] at h
  rw [outerRanges_grow g] at h
  obtain ⟨vm2,h2,h⟩ := Option.bind_eq_some_iff.mp h
  refine ⟨vm1,vm2,h1,?_,?_⟩
  · cases ht : vm1.hasTable pm (pageKey (r.mirror virt)) with
    | true =>
      have ht' : (vm1.setSpace pm (some (sp.addrToRange (vm.outerRanges pm) virt).1)).hasTable pm
          (pageKey (r.backing (alignDown virt pageSize))) = true := ht
      rw [if_pos ht'] at h2
      exact .inl ⟨rfl,(Option.some.inj h2).symm⟩
    | false =>
      have ht' : ¬ (vm1.setSpace pm (some (sp.addrToRange (vm.outerRanges pm) virt).1)).hasTable pm
          (pageKey (r.backing (alignDown virt pageSize))) = true := by
        rw [Bool.not_eq_true]
        exact ht
      rw [if_neg ht'] at h2
      obtain ⟨⟨vm2',res'⟩,hnest,rfl⟩ := Option.map_eq_some_iff.mp h2
      exact .inr ⟨rfl,res',hnest⟩
  · intro ht
    have ht' : vm2.hasTable pm (pageKey (r.backing (alignDown virt pageSize))) = true := ht
    rw [if_pos ht'] at h
    cases h
    exact ⟨rfl,rfl⟩

theorem VM.entry_setEntry_self {key : Nat} {e : Pte} (ht : vm.hasTable pm key = true) :
    (vm.setEntry pm key e).entry pm key = e := by
  rw [VM.entry_setEntry _ _ _ _ ht,if_pos ⟨rfl,rfl⟩]

theorem createTables_user {key k : Nat} (hk : key < 2 ^ 35) (hmap : 2 ^ 35 ≤ k)
    (h : vm.createTables pm key = some vm') :
    vm'.hasTable pm k = vm.hasTable pm k ∧ vm'.lent = vm.lent ∧ vm'.lost = vm.lost := by
  unfold VM.createTables at h
  split_ifs at h
  · cases h
    exact ⟨rfl,rfl,rfl⟩
  obtain ⟨vm1,h1,rfl⟩ := Option.map_eq_some_iff.mp h
  obtain ⟨_,t,_⟩ := VM.allocPageTables_grows _ _ h1
  obtain ⟨hlent,hlost⟩ := allocPageTables_charges _ _ _ h1
  have hne : ¬ k / 512 = key / 512 := by omega
  have hself : half pm key = pm := half_user hk
  refine ⟨?_,by simpa [hself] using hlent,hlost⟩
  simp only [hself]
  by_cases hh : half pm k = pm <;> simp [VM.hasTable,hh,t,hne]

theorem sharesFrame_iff {map pfn : Nat} (hk : 2 ^ 35 ≤ pageKey map) (ha : Accounted vm')
    (hentry : (vm'.entry kernelPm (pageKey map)).present = true →
      (vm.entry pm (pageKey map)).present = true)
    (hpfn : (vm'.entry pm (pageKey virt)).pfn = pfn) :
    SharesFrame vm vm' pm virt map (some pfn) ↔ pfn ≠ 0 ∧ Held vm' (pageKey map) pfn := by
  rw [Held.iff_stays hk ha]
  constructor
  · exact fun hs => ⟨(hs.same pfn rfl).1,hs.mirror pfn rfl⟩
  · rintro ⟨hzero,stays⟩
    refine ⟨?_,?_,?_⟩
    · rintro _ ⟨⟩
      exact ⟨hzero,hpfn⟩
    · rintro _ ⟨⟩
      exact stays
    · intro habs
      rw [hentry (stays vm' .refl).1] at habs
      cases habs

theorem mirror_fault_iff (hb : Booted start) (hrun : Relation.ReflTransGen VM.AnyStep start vm)
    (hf : MirrorFault vm pm virt sp r) (h : vm.pageFault pm virt = some (vm',res)) :
    SharesFrame vm vm' pm virt (r.mirror virt) res ↔ MirrorReady vm (r.mirror virt) := by
  obtain ⟨vm1,vm2,h1,h2,h3⟩ := mirror_fault hf h
  have ha' : Accounted vm' := Accounted.fault _ _ _ _ _ (reach_accounted hb hrun) h
  have hkernel := hf.kernel
  generalize r.mirror virt = map at *
  obtain ⟨g,hhere⟩ := VM.createTables_grows h1
  have hlow : pageKey virt < 2 ^ 35 := pageKey_lt hf.user
  have hne : pageKey map ≠ pageKey virt := by omega
  obtain ⟨htab,hlent,hlost⟩ := createTables_user hlow hkernel h1
  rcases h2 with ⟨ht,rfl⟩ | ⟨ht,res',hnest⟩
  · obtain ⟨hvm,hres⟩ := h3 ht
    have hentry : (vm1.setSpace pm (some (sp.addrToRange (vm.outerRanges pm) virt).1)).entry pm
        (pageKey map) = vm.entry kernelPm (pageKey map) :=
      (g.entry pm (pageKey map)).trans (kernel_entry vm pm hkernel).symm
    rw [hentry] at hvm hres
    have hself : vm'.entry pm (pageKey virt) =
        ⟨(vm.entry kernelPm (pageKey map)).pfn,r.pageFlags⟩ := by
      rw [hvm]
      exact VM.entry_setEntry_self hhere
    have hmirror : vm'.entry kernelPm (pageKey map) = vm.entry kernelPm (pageKey map) := by
      rw [hvm,VM.entry_setEntry_ne _ _ _ _ hne]
      exact g.entry kernelPm (pageKey map)
    have hspaces (p : Nat) : vm'.spaces p = none ↔ vm.spaces p = none := by
      rw [hvm]
      by_cases hp : p = pm
      · subst hp
        exact iff_of_false (by simp [VM.setEntry,VM.setSpace]) (by simp [hf.space])
      · rw [show vm.spaces p = vm1.spaces p from (congrFun g.spaces p).symm]
        exact iff_of_eq (congrArg (· = none) (Function.update_of_ne hp ..))
    have hlent' : vm'.lent = vm.lent := by
      rw [hvm]
      exact hlent
    have hlost' : vm'.lost = vm.lost := by
      rw [hvm]
      exact hlost
    have hheld (pfn : Nat) : Held vm' (pageKey map) pfn ↔ Held vm (pageKey map) pfn :=
      ⟨fun hh => hh.frame hmirror.symm hlost'.symm hlent'.symm fun p => (hspaces p).mp,
        fun hh => hh.frame hmirror hlost' hlent' fun p => (hspaces p).mpr⟩
    have hpresent : (vm'.entry kernelPm (pageKey map)).present = true →
        (vm.entry pm (pageKey map)).present = true := by
      rw [hmirror,kernel_entry vm pm hkernel]
      exact id
    rw [hres,sharesFrame_iff hkernel ha' hpresent (by rw [hself]),hheld]
    constructor
    · exact fun hs => ⟨_,hs⟩
    · rintro ⟨pfn,hzero,hh⟩
      rw [hh.entry.2]
      exact ⟨hzero,hh⟩
  · have hhalf : half pm (pageKey map) ≠ pm := by
      rw [half,if_neg (Nat.not_lt.mpr hkernel)]
      exact hf.process.symm
    obtain ⟨vm3,h4,hrich⟩ := fault_opens _ _ _ _ _ hnest
    have hpml := hrich.lent _ ((createTables_richer h4).2 hhalf ht)
    obtain ⟨hvm,hres⟩ := h3 (hrich.table _ (VM.createTables_grows h4).2)
    have hno (pfn : Nat) : ¬ Held vm' (pageKey map) pfn := by
      intro hh
      obtain ⟨sp2,hsp2⟩ := hrich.alive ((createTables_richer h4).1.alive
        ⟨_,Function.update_self ..⟩)
      rw [hvm] at hh
      cases (hh.unlent pm sp2 hsp2 _ hpml).symm.trans (decide_eq_true rfl)
    constructor
    · exact fun hs => absurd ((Held.iff_stays hkernel ha').mpr (hs.mirror _ hres)) (hno _)
    · rintro ⟨pfn,_,hh⟩
      have hp := hh.entry.1
      rw [kernel_entry vm pm hkernel] at hp
      rw [htab,VM.hasTable_of_present hp] at ht
      cases ht

end Mirror

def twoPageMemfd : Call := .mmap 0x10000 0x2000 3 (mapShared ||| mapFixed) (some memfdFile) 0

def sharedRange : MappedRange := ⟨0,0x10000,0x10000,0x2000,mmapProtToPageFlags 3,.directVirtual,kernelBase,none,0⟩

def touchedPages : VM := (windowTouched.step (.call 1 twoPageMemfd)).get (by decide +kernel)

def touchedSpace : Space := (touchedPages.spaces 1).get (by decide +kernel)

def touchedFault : VM × Option Nat := (touchedPages.pageFault 1 0x10000).get (by decide +kernel)

theorem any_reached {start vm : VM} (h : Relation.ReflTransGen SafeStep start vm) :
    Relation.ReflTransGen VM.AnyStep start vm := by
  refine Relation.ReflTransGen.mono ?_ _ _ h
  rintro a b ⟨op,_,hop⟩
  exact ⟨op,hop⟩

theorem mirror_fault_iff_touched : touchedFault.2.isSome ∧
    SharesFrame touchedPages touchedFault.1 1 0x10000 kernelBase touchedFault.2 := by
  have hfault : touchedPages.pageFault 1 0x10000 = some touchedFault :=
    (Option.some_get (by decide +kernel)).symm
  have hrun : Relation.ReflTransGen VM.AnyStep smallMachine touchedPages :=
    (any_reached windowTouched_reached).tail ⟨.call 1 twoPageMemfd,(Option.some_get _).symm⟩
  have hmirror : MirrorFault touchedPages 1 0x10000 touchedSpace sharedRange :=
    ⟨by decide,by decide,by decide +kernel,by simp [touchedSpace],⟨.own,by decide +kernel⟩,rfl,
      by decide⟩
  have hready : MirrorReady touchedPages (sharedRange.mirror 0x10000) := by
    refine ⟨(touchedPages.entry kernelPm (pageKey kernelBase)).pfn,by decide +kernel,
      ⟨by decide +kernel,rfl⟩,by decide +kernel,fun pm sp hsp t ht => ?_⟩
    have hpm : pm < 2 := by
      by_contra hge
      have hnone := (reach_accounted smallMachine_booted hrun).fresh.2 pm (by
        rw [show touchedPages.nextPm = 2 by decide +kernel]
        omega)
      simp [hnone] at hsp
    have hlent : ∀ pm < 2, touchedPages.lent pm = [] := by decide +kernel
    simp [hlent pm hpm] at ht
  exact ⟨by decide +kernel,(mirror_fault_iff smallMachine_booted hrun hmirror hfault).mpr hready⟩

def sharedPages : VM := (oneProcess.step (.call 1 twoPageMemfd)).get (by decide +kernel)

def sharedSpace : Space := (sharedPages.spaces 1).get (by decide +kernel)

def secondPageFault : VM × Option Nat := (sharedPages.pageFault 1 0x11000).get (by decide +kernel)

theorem mirror_frame_zero :
    Relation.ReflTransGen VM.AnyStep smallMachine sharedPages ∧
    sharedPages.pageFault 1 0x11000 = some secondPageFault ∧
    MirrorFault sharedPages 1 0x11000 sharedSpace sharedRange ∧
    (¬ ∃ x, sharedPages.Reaches 1 (sharedRange.mirror 0x11000) x) ∧ secondPageFault.2 = some 0 ∧
    ¬ SharesFrame sharedPages secondPageFault.1 1 0x11000 (sharedRange.mirror 0x11000)
      secondPageFault.2 := by
  have hres : secondPageFault.2 = some 0 := by decide +kernel
  have hr : sharedPages.ranges 1 = [sharedRange] := by decide +kernel
  have ho : sharedPages.outerRanges 1 = [memfdWindow] := by decide +kernel
  refine ⟨(any_reached oneProcess_reached).tail ⟨.call 1 twoPageMemfd,(Option.some_get _).symm⟩,
    (Option.some_get (by decide +kernel)).symm,⟨by decide,by decide,by decide +kernel,
      by simp [sharedSpace],⟨.own,by decide +kernel⟩,rfl,by decide⟩,?_,hres,?_⟩
  · rintro ⟨x,hx,hc⟩
    rw [hr,ho,List.mem_singleton,List.mem_singleton] at hx
    rcases hx with rfl | rfl
    · exact absurd hc (by decide)
    · exact absurd hc (by decide)
  · exact fun hs => (hs.same 0 hres).1 rfl

end SabaOS.Mem
