import SabaOS.Mem.Reach

namespace SabaOS.Mem
open SabaOS.Klib SabaOS.Lib

namespace VM

def frees (vm : VM) : Nat := (vm.chains.lists .freelist).length

def backingByte (vm : VM) (r : MappedRange) (virt : Nat) : UInt8 :=
  match r.type with
  | .anonymous => 0
  | .file => vm.files (r.file.getD 0) (r.backing (alignDown virt pageSize) + virt % pageSize)
  | .direct => vm.mem (directPfn r (alignDown virt pageSize)) (virt % pageSize)
  | .directVirtual =>
      vm.mem (vm.entry kernelPm (pageKey (r.backing (alignDown virt pageSize)))).pfn
        (virt % pageSize)
  | .none => 0

def contents (vm : VM) (pm virt : Nat) : Option UInt8 :=
  if (vm.entry pm (pageKey virt)).present then
    some (vm.mem (vm.entry pm (pageKey virt)).pfn (virt % pageSize))
  else ((vm.ranges pm).find? fun r => r.covers virt).map fun r => vm.backingByte r virt

def tableCost (vm : VM) (pm key : Nat) : Nat :=
  if vm.hasTable pm key then 0 else missingTables (vm.tables (half pm key)) key

def faultCost (vm : VM) (pm virt : Nat) : Nat :=
  if (vm.entry pm (pageKey virt)).present then 0
  else vm.tableCost pm (pageKey virt) +
    if ∃ r ∈ vm.ranges pm, r.covers virt ∧ (r.type = .anonymous ∨ r.type = .file) then 1 else 0

theorem faultCost_le (vm : VM) (pm virt : Nat) : vm.faultCost pm virt ≤ 4 := by
  unfold faultCost tableCost missingTables
  split_ifs <;> omega

section Alloc

variable {vm vm' : VM} {own : Owning} {pm key pfn : Nat}

theorem allocPage_total (hl : Linked vm own) (h : 0 < vm.frees) :
    ∃ vm' pfn, vm.allocPage = some (vm',pfn) := by
  unfold frees at h
  unfold allocPage
  cases hf : vm.chains.lists .freelist with
  | nil => simp [hf] at h
  | cons p l =>
    have hfree := (hl.free p).mpr ((vm.chains.mem_iff _ _).mp (by simp [hf]))
    exact ⟨_,_,if_pos hfree⟩

theorem allocPage_frees (h : vm.allocPage = some (vm',pfn)) : vm'.frees + 1 = vm.frees := by
  obtain ⟨hf,rfl⟩ := allocPage_eq h
  exact vm.chains.length_unlink pfn hf

theorem allocPageForPageTable_frees (h : vm.allocPageForPageTable pm = some vm') :
    vm'.frees + 1 = vm.frees := by
  obtain ⟨⟨vm1,p⟩,ha,rfl⟩ := Option.map_eq_some_iff.mp h
  have hf := allocPage_frees ha
  obtain ⟨_,rfl⟩ := allocPage_eq ha
  rw [← hf]
  simp only [frees,fill,Nat.add_right_cancel_iff]
  rw [Chains.lists_append_of_ne _ _ _ (by simp) (by simp)]

theorem allocPageTables_frees (n : Nat) :
    ∀ vm : VM, vm.allocPageTables pm n = some vm' → vm'.frees + n = vm.frees := by
  induction n with
  | zero =>
    intro vm h
    cases h
    rfl
  | succ n ih =>
    intro vm h
    obtain ⟨vm1,h1,h2⟩ := Option.bind_eq_some_iff.mp h
    have e1 := allocPageForPageTable_frees h1
    have e2 := ih vm1 h2
    omega

theorem allocPageTables_total (pm n : Nat) : ∀ vm : VM, Linked vm own → n ≤ vm.frees →
    ∃ vm', vm.allocPageTables pm n = some vm' := by
  induction n with
  | zero => exact fun vm _ _ => ⟨vm,rfl⟩
  | succ n ih =>
    intro vm hl hn
    obtain ⟨vm1,p,ha⟩ := allocPage_total hl (by omega)
    have ht : ∃ vm2, vm.allocPageForPageTable pm = some vm2 := by
      simp [allocPageForPageTable,ha]
    obtain ⟨vm2,h2⟩ := ht
    have hf := allocPageForPageTable_frees h2
    obtain ⟨vm3,h3⟩ := ih vm2 (hl.grow (allocPageForPageTable_grows h2).1) (by omega)
    exact ⟨vm3,Option.bind_eq_some_iff.mpr ⟨vm2,h2,h3⟩⟩

theorem createTables_frees (h : vm.createTables pm key = some vm') :
    vm'.frees + vm.tableCost pm key = vm.frees := by
  unfold createTables at h
  unfold tableCost
  split_ifs at h ⊢
  · cases h
    rfl
  · obtain ⟨vm1,h1,rfl⟩ := Option.map_eq_some_iff.mp h
    have hf := allocPageTables_frees _ vm h1
    exact hf

theorem createTables_total (hl : Linked vm own) (h : vm.tableCost pm key ≤ vm.frees) :
    ∃ vm', vm.createTables pm key = some vm' := by
  unfold createTables
  unfold tableCost at h
  split_ifs at h ⊢
  · exact ⟨vm,rfl⟩
  · obtain ⟨vm1,h1⟩ := allocPageTables_total pm _ vm hl h
    dsimp only
    exact ⟨_,by rw [h1,Option.map_some]⟩

end Alloc

end VM

section Read

variable {vm vm1 : VM} {own : Owning} {pm virt : Nat} {sp : Space}

theorem VM.faultPm_user (hv : virt < 2 ^ 47) : VM.faultPm pm virt = pm := by
  rw [VM.faultPm,if_neg]
  simp only [kernelBase]
  omega

theorem find_covers {l : List MappedRange} {n : Nat} (hl : RangesOk l n) {r : MappedRange}
    (hr : r ∈ l) (hv : r.covers virt) : l.find? (fun x => x.covers virt) = some r := by
  obtain ⟨x,hx⟩ := Option.isSome_iff_exists.mp
    (List.find?_isSome.mpr ⟨r,hr,by simpa using hv⟩ : (l.find? fun x => x.covers virt).isSome)
  rw [hx,hl.eq_of_covers hr (List.mem_of_find?_eq_some hx) hv (by simpa using List.find?_some hx)]

theorem fault_read {depth : Nat} (hg : Good vm own) (hsp : vm.spaces pm = some sp)
    (hs : FaultSafe vm pm virt) (hpm : pm ≠ kernelPm)
    (ht : vm.createTables pm (pageKey virt) = some vm1)
    (hnp : (vm.entry pm (pageKey virt)).present = false) :
    ((VM.handlePageFault (depth + 1) vm pm virt).map fun out =>
      out.2.map fun pfn => out.1.mem pfn (virt % pageSize)) =
    if (∃ r ∈ vm.ranges pm, r.covers virt ∧ (r.type = .anonymous ∨ r.type = .file)) ∧
      vm1.frees = 0 then none else some (vm.contents pm virt) := by
  obtain ⟨g,htab⟩ := VM.createTables_grows ht
  have hg1 := hg.grow g
  have hs1 := hs.grow g
  have hsp1 : vm1.spaces pm = some sp := g.spaces ▸ hsp
  have hnp1 : (vm1.entry pm (pageKey virt)).present = false := by rw [g.entry]; exact hnp
  have hranges : vm.ranges pm = sp.rangeList := by simp [VM.ranges,hsp]
  have hok := hg.rangesOk hsp
  have hout : ∀ r ∈ vm1.outerRanges pm, ¬ r.covers virt := by
    intro r hr hc
    have h1 := hg1.outer hpm r hr
    have h2 := hc.1
    rcases hs.placed with ⟨_,h3⟩ | ⟨h3,_⟩
    · omega
    · exact hpm h3
  simp only [VM.handlePageFault,ht,Option.bind_some,hnp1,hsp1,Bool.false_eq_true,if_false]
  have hcont : vm.contents pm virt =
      (sp.rangeList.find? fun r => r.covers virt).map fun r => vm.backingByte r virt := by
    rw [VM.contents,hnp,hranges]
    rfl
  rcases addrToRange_own sp hout with ⟨r,hr,hc,hf⟩ | ⟨hf,hn⟩
  · have hfind := find_covers hok hr hc
    have huniq : (∃ r ∈ vm.ranges pm, r.covers virt ∧ (r.type = .anonymous ∨ r.type = .file)) ↔
        r.type = .anonymous ∨ r.type = .file := by
      rw [hranges]
      constructor
      · rintro ⟨x,hx,hxc,hxt⟩
        rwa [hok.eq_of_covers hr hx hc hxc]
      · exact fun h => ⟨r,hr,hc,h⟩
    rw [hcont,hfind,hf]
    simp only [huniq,Option.map_some]
    have alloc {out : VM × Nat} {sp' : Space}
        (ha : (vm1.setSpace pm (some sp')).allocPage = some out) : vm1.frees ≠ 0 := by
      have := VM.allocPage_frees ha
      have h' : (vm1.setSpace pm (some sp')).frees = vm1.frees := rfl
      omega
    have starve {sp' : Space} (h0 : vm1.frees = 0) : (vm1.setSpace pm (some sp')).allocPage =
        none := by
      cases ha : (vm1.setSpace pm (some sp')).allocPage with
      | none => rfl
      | some out => exact absurd h0 (alloc ha)
    have hgc (sp' : Space) (h1 : sp'.rangeList = sp.rangeList) (h2 : sp'.nextId = sp.nextId) :=
      hg1.setCache hsp1 h1 h2
    obtain ⟨e1,e2⟩ := addrToRange_ranges sp (vm1.outerRanges pm) virt
    cases hty : r.type with
    | anonymous =>
      by_cases h0 : vm1.frees = 0
      · simp [starve h0,h0]
      · obtain ⟨vm2,p,ha⟩ := VM.allocPage_total (hgc _ e1 e2).linked (Nat.pos_of_ne_zero h0)
        simp [ha,h0,VM.backingByte,hty,VM.setEntry,VM.fill]
    | file =>
      by_cases h0 : vm1.frees = 0
      · simp [starve h0,h0]
      · obtain ⟨vm2,p,ha⟩ := VM.allocPage_total (hgc _ e1 e2).linked (Nat.pos_of_ne_zero h0)
        have hfiles : vm2.files = vm.files := by
          obtain ⟨_,rfl⟩ := VM.allocPage_eq ha
          exact g.files
        simp [ha,h0,VM.backingByte,hty,VM.setEntry,VM.fill,hfiles]
    | direct =>
      have hfp := hs.direct hpm r (hranges ▸ hr) hc hty
      have hmem : vm1.mem (directPfn r (alignDown virt pageSize)) =
          vm.mem (directPfn r (alignDown virt pageSize)) := by
        refine (g.used _ fun hl => ?_).2.2
        rw [hg.linked.managed _ (by simp [hl])] at hfp
        simp at hfp
      simp [VM.backingByte,hty,VM.setEntry,VM.setSpace,hmem]
    | directVirtual =>
      have hmir := hs.mirror hpm r (hranges ▸ hr) hc hty
      have hge := Nat.not_lt.mpr hmir.kernel
      have hmap : vm1.hasTable pm (pageKey (r.backing (alignDown virt pageSize))) = true := by
        have := g.table _ _ (VM.hasTable_of_present hmir.present)
        simpa only [VM.hasTable,half,if_neg hge] using this
      have hentry : vm1.entry pm (pageKey (r.backing (alignDown virt pageSize))) =
          vm.entry kernelPm (pageKey (r.backing (alignDown virt pageSize))) := by
        rw [← g.entry]
        simp only [VM.entry,VM.hasTable,half,if_neg hge]
      obtain ⟨id,hid⟩ := hmir.linked
      have hmem := (g.used _ (by rw [hid]; simp)).2.2
      have hmap' (sp' : Option Space) : (vm1.setSpace pm sp').hasTable pm
          (pageKey (r.backing (alignDown virt pageSize))) = true := hmap
      have hentry' (sp' : Option Space) : (vm1.setSpace pm sp').entry pm
          (pageKey (r.backing (alignDown virt pageSize))) =
          vm.entry kernelPm (pageKey (r.backing (alignDown virt pageSize))) := hentry
      simp only [hmap',if_true,Option.bind_some,hentry',Option.map_some]
      simp [VM.backingByte,hty,VM.setEntry,VM.setSpace,hmem]
    | none => exact absurd hty (hok.each r hr).typed
  · have hfind : (sp.rangeList.find? fun r => r.covers virt) = none := by
      simpa [List.find?_eq_none] using hn
    have hno : ¬ ∃ r ∈ vm.ranges pm, r.covers virt ∧ (r.type = .anonymous ∨ r.type = .file) := by
      rintro ⟨r,hr,hc,_⟩
      exact hn r (hranges ▸ hr) hc
    simp [hf,hcont,hfind,hno]

theorem Good.faultSafe_private {r : MappedRange} (hg : Good vm own) (hpm : pm ≠ kernelPm)
    (hsp : vm.spaces pm = some sp) (hr : r ∈ sp.rangeList) (hro : r.ownsPages)
    (hv : virt < 2 ^ 47) (hc : r.covers virt) : FaultSafe vm pm virt := by
  have hok := (hg.sound pm sp hpm hsp).ranges
  have only {x : MappedRange} (hx : x ∈ vm.ranges pm) (hxc : x.covers virt) : x = r :=
    hok.eq_of_covers (by simpa [VM.ranges,hsp] using hx) hr hxc hc
  refine ⟨.inl ⟨hpm,hv⟩,fun _ x hx hxc ht => ?_,fun _ x hx hxc ht => ?_⟩
  · rw [only hx hxc] at ht
    rcases hro with h | h <;> simp [h] at ht
  · rw [only hx hxc] at ht
    rcases hro with h | h <;> simp [h] at ht

theorem read_eq (hg : Good vm own) (hsp : vm.spaces pm = some sp) (hpm : pm ≠ kernelPm)
    (hv : virt < 2 ^ 47)
    (hs : (vm.entry pm (pageKey virt)).present = false → FaultSafe vm pm virt) :
    vm.read pm virt =
      if vm.faultCost pm virt ≤ vm.frees then some (vm.contents pm virt) else none := by
  unfold VM.read VM.access VM.faultCost
  cases hp : (vm.entry pm (pageKey virt)).present with
  | true => simp [VM.contents,hp]
  | false =>
    simp only [hp,Bool.false_eq_true,if_false,VM.pageFault]
    have hpm' : (if virt ≥ kernelBase then kernelPm else pm) = pm := VM.faultPm_user hv
    rw [hpm',VM.faultDepth]
    by_cases hc : vm.tableCost pm (pageKey virt) ≤ vm.frees
    · obtain ⟨vm1,h1⟩ := VM.createTables_total hg.linked hc
      have hf := VM.createTables_frees h1
      rw [fault_read hg hsp (hs hp) hpm h1 hp]
      by_cases ho : ∃ r ∈ vm.ranges pm, r.covers virt ∧ (r.type = .anonymous ∨ r.type = .file)
      · by_cases h0 : vm1.frees = 0
        · rw [if_pos ⟨ho,h0⟩,if_neg]
          rw [if_pos ho]
          omega
        · rw [if_neg fun h => h0 h.2,if_pos]
          rw [if_pos ho]
          omega
      · rw [if_neg fun h => ho h.1,if_pos]
        rw [if_neg ho]
        omega
    · have hn : vm.createTables pm (pageKey virt) = none := by
        cases h1 : vm.createTables pm (pageKey virt) with
        | none => rfl
        | some vm1 =>
          have := VM.createTables_frees h1
          omega
      rw [VM.handlePageFault,hn,if_neg (by omega)]
      rfl

end Read

end SabaOS.Mem
