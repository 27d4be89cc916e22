import SabaOS.Mem.Reach

namespace SabaOS.Mem
open SabaOS.Klib SabaOS.Lib

theorem findPage_eq {regions : List Region} {pfn p : Nat}
    (h : findPage regions pfn = some (some p)) : p = pfn := by
  induction regions with
  | nil => simp [findPage] at h
  | cons region regions ih =>
    rw [findPage] at h
    split_ifs at h
    · exact ih h
    · cases h
    · cases h
      rfl

structure Accounted (vm : VM) : Prop where
  free : ∀ pfn, (vm.pages pfn).free = true ↔ vm.chains.link pfn = some .freelist
  managed : ∀ pfn, vm.chains.link pfn ≠ none → findPage vm.regions pfn = some (some pfn)
  fresh : kernelPm < vm.nextPm ∧ ∀ pm, vm.nextPm ≤ pm → vm.spaces pm = none

theorem Booted.accounted {vm : VM} (h : Booted vm) : Accounted vm where
  free := h.free
  managed := h.managed
  fresh := ⟨h.alone.1,fun pm hle => h.alone.2 pm (by have := h.alone.1; omega)⟩

namespace Accounted

variable {vm vm' : VM} {pm pfn virt : Nat}

theorem alike (h : Accounted vm) (hr : vm'.regions = vm.regions) (hp : vm'.pages = vm.pages)
    (hc : vm'.chains = vm.chains) (hn : vm'.nextPm = vm.nextPm)
    (hs : ∀ pm, vm.spaces pm = none → vm'.spaces pm = none) : Accounted vm' where
  free := by rw [hp,hc]; exact h.free
  managed := by rw [hr,hc]; exact h.managed
  fresh := ⟨hn ▸ h.fresh.1,fun pm hle => hs pm (h.fresh.2 pm (hn ▸ hle))⟩

theorem setSpace (h : Accounted vm) {sp sp' : Space} (hsp : vm.spaces pm = some sp) :
    Accounted (vm.setSpace pm (some sp')) :=
  h.alike rfl rfl rfl rfl fun pm' hn => by
    have hne : pm' ≠ pm := by
      rintro rfl
      simp [hsp] at hn
    exact (Function.update_of_ne hne ..).trans hn

theorem setEntry (h : Accounted vm) (pm key : Nat) (e : Pte) : Accounted (vm.setEntry pm key e) :=
  h.alike rfl rfl rfl rfl fun _ hn => hn

theorem fill (h : Accounted vm) (pfn : Nat) (bytes : Nat → UInt8) : Accounted (vm.fill pfn bytes) :=
  h.alike rfl rfl rfl rfl fun _ hn => hn

theorem grow (h : Accounted vm) (g : VM.Grows vm vm') : Accounted vm' where
  free pfn := by
    by_cases hf : vm.chains.link pfn = some .freelist
    · rcases g.unused pfn hf with ⟨e1,e2⟩ | ⟨⟨_,e1⟩,e2⟩
      · simp [e1,e2,(h.free pfn).mpr hf]
      · simp [e1,e2]
    · obtain ⟨e1,e2,_⟩ := g.used pfn hf
      rw [e1,e2]
      exact h.free pfn
  managed pfn hl := by
    rw [g.regions]
    by_cases hf : vm.chains.link pfn = some .freelist
    · exact h.managed pfn (by simp [hf])
    · obtain ⟨e1,_⟩ := g.used pfn hf
      exact h.managed pfn (e1 ▸ hl)
  fresh := by rw [g.nextPm,g.spaces]; exact h.fresh

theorem freed (h : Accounted vm) {S : Nat → Prop} (f : Freed vm vm' S)
    (hS : ∀ pfn, S pfn → vm.chains.link pfn ≠ none) : Accounted vm' where
  free pfn := by
    by_cases hs : S pfn
    · simp [f.freed pfn hs]
    · rw [(f.kept pfn hs).1,(f.kept pfn hs).2]
      exact h.free pfn
  managed pfn hl := by
    rw [f.regions]
    by_cases hs : S pfn
    · exact h.managed pfn (hS pfn hs)
    · exact h.managed pfn ((f.kept pfn hs).1 ▸ hl)
  fresh := by rw [f.nextPm,f.spaces]; exact h.fresh

theorem allocPage (h : Accounted vm) (ha : vm.allocPage = some (vm',pfn)) :
    Accounted vm' ∧ findPage vm'.regions pfn = some (some pfn) ∧ (vm'.pages pfn).free = false := by
  obtain ⟨hf,rfl⟩ := VM.allocPage_eq ha
  refine ⟨⟨fun q => ?_,fun q hq => ?_,h.fresh⟩,h.managed pfn (by simp [hf]),by simp [VM.setPage]⟩
  · by_cases hqp : q = pfn
    · simp [VM.setPage,hqp]
    · simpa [VM.setPage,hqp] using h.free q
  · by_cases hqp : q = pfn
    · simp [hqp] at hq
    · exact h.managed q (by simpa [hqp] using hq)

theorem adopt (h : Accounted vm) (hm : findPage vm.regions pfn = some (some pfn))
    (hf : (vm.pages pfn).free = false) (pm id virt : Nat) : Accounted (vm.adopt pm id pfn virt) := by
  refine ⟨fun q => ?_,fun q hq => ?_,h.fresh⟩
  · by_cases hqp : q = pfn
    · simp [VM.adopt,VM.setPage,hqp,hf]
    · simpa [VM.adopt,VM.setPage,hqp] using h.free q
  · by_cases hqp : q = pfn
    · exact hqp ▸ hm
    · exact h.managed q (by simpa [VM.adopt,hqp] using hq)

theorem freePage (h : Accounted vm) (hm : findPage vm.regions pfn = some (some pfn))
    (hr : vm.freePage pfn = some vm') : Accounted vm' := by
  unfold VM.freePage at hr
  split_ifs at hr
  cases hr
  refine ⟨fun q => ?_,fun q hq => ?_,h.fresh⟩
  · by_cases hqp : q = pfn
    · simp [VM.setPage,hqp]
    · simpa [VM.setPage,hqp] using h.free q
  · by_cases hqp : q = pfn
    · exact hqp ▸ hm
    · exact h.managed q (by simpa [hqp] using hq)

theorem detachPage (h : Accounted vm) {page : Option Nat}
    (hm : ∀ p, page = some p → findPage vm.regions p = some (some p))
    (hr : vm.detachPage page = some vm') :
    Accounted vm' ∧ vm'.spaces = vm.spaces ∧ ∀ p, page = some p →
      findPage vm'.regions p = some (some p) ∧ (vm'.pages p).free = false := by
  cases page with
  | none =>
    cases hr
    exact ⟨h,rfl,by simp⟩
  | some p =>
    simp only [VM.detachPage,VM.removeLink] at hr
    split_ifs at hr with hf hl
    cases hr
    refine ⟨⟨fun q => ?_,fun q hq => ?_,h.fresh⟩,rfl,?_⟩
    · by_cases hqp : q = p
      · simpa [hqp] using hf
      · simpa [hqp] using h.free q
    · by_cases hqp : q = p
      · simp [hqp] at hq
      · exact h.managed q (by simpa [hqp] using hq)
    · rintro q ⟨⟩
      exact ⟨hm p rfl,by simpa using hf⟩

theorem invalidatePage (h : Accounted vm) {range : Option MappedRange}
    (hr : vm.invalidatePage pm virt range = some vm') :
    Accounted vm' ∧ vm'.spaces = vm.spaces := by
  unfold VM.invalidatePage at hr
  split_ifs at hr
  · obtain ⟨page,hpage,hr⟩ := Option.bind_eq_some_iff.mp hr
    obtain ⟨vm1,h1,hr⟩ := Option.bind_eq_some_iff.mp hr
    obtain ⟨ha,hs,hp⟩ := h.detachPage (fun p he => by
      subst he
      exact (findPage_eq hpage).symm ▸ hpage) h1
    rw [← hs]
    cases range with
    | some range =>
      simp only [VM.relinkPage] at hr
      split_ifs at hr
      obtain ⟨⟨vm2,p⟩,h2,rfl⟩ := Option.map_eq_some_iff.mp hr
      have hpair : (Accounted vm2 ∧ vm2.spaces = vm1.spaces) ∧
          findPage vm2.regions p = some (some p) ∧ (vm2.pages p).free = false := by
        cases page with
        | none =>
          obtain ⟨_,rfl⟩ := VM.allocPage_eq h2
          obtain ⟨a1,a2⟩ := ha.allocPage h2
          exact ⟨⟨a1,rfl⟩,a2⟩
        | some q =>
          cases h2
          exact ⟨⟨ha,rfl⟩,hp p rfl⟩
      exact ⟨(hpair.1.1.adopt hpair.2.1 hpair.2.2 ..).setEntry ..,hpair.1.2⟩
    | none =>
      simp only [VM.dropPage] at hr
      cases page with
      | none =>
        cases hr
        exact ⟨ha.setEntry ..,rfl⟩
      | some q =>
        have hf : (vm1.setEntry pm (pageKey virt) Pte.zero).freePage q = some vm' := hr
        have hl : (vm1.setEntry pm (pageKey virt) Pte.zero).freePages [q] = some vm' := by
          rw [VM.freePages,hf]
          rfl
        exact ⟨(ha.setEntry _ _ _).freePage (hp q rfl).1 hf,(freePages_freed [q] _ hl).spaces⟩
  · cases hr
    exact ⟨h,rfl⟩

theorem invalidateFrom {range : Option MappedRange} {base : Nat} (n : Nat) :
    ∀ (i : Nat) (vm : VM), Accounted vm → vm.invalidateFrom pm range base i n = some vm' →
      Accounted vm' ∧ vm'.spaces = vm.spaces := by
  induction n with
  | zero =>
    intro i vm h hr
    cases hr
    exact ⟨h,rfl⟩
  | succ n ih =>
    intro i vm h hr
    obtain ⟨vm1,h1,h2⟩ := Option.bind_eq_some_iff.mp hr
    obtain ⟨a1,s1⟩ := h.invalidatePage h1
    obtain ⟨a2,s2⟩ := ih _ vm1 a1 h2
    exact ⟨a2,s2.trans s1⟩

theorem linked_pages (vm : VM) (list : ListId) (pfn : Nat) (hp : pfn ∈ vm.chains.lists list) :
    vm.chains.link pfn ≠ none := by
  simp [(vm.chains.mem_iff _ _).mp hp]

theorem runEffects (effects : List Effect) : ∀ vm : VM, Accounted vm →
    vm.runEffects pm effects = some vm' → Accounted vm' ∧ vm'.spaces = vm.spaces := by
  induction effects with
  | nil =>
    intro vm h hr
    cases hr
    exact ⟨h,rfl⟩
  | cons e effects ih =>
    intro vm h hr
    obtain ⟨vm1,h1,h2⟩ := Option.bind_eq_some_iff.mp hr
    have he : Accounted vm1 ∧ vm1.spaces = vm.spaces := by
      cases e with
      | invalidatePages base length range => exact invalidateFrom _ _ vm h h1
      | delete r =>
        have f := freePages_freed _ vm h1
        exact ⟨h.freed f (linked_pages vm _),f.spaces⟩
    obtain ⟨a,s⟩ := ih vm1 he.1 h2
    exact ⟨a,s.trans he.2⟩

theorem fault (depth : Nat) : ∀ (vm vm' : VM) (virt : Nat) (res : Option Nat), Accounted vm →
    VM.handlePageFault depth vm pm virt = some (vm',res) → Accounted vm' := by
  induction depth with
  | zero =>
    intro vm vm' virt res _ hr
    simp [VM.handlePageFault] at hr
  | succ depth ih =>
    intro vm vm' virt res h hr
    cases handlePageFault_faulted depth hr with
    | present h1 _ => exact h.grow (VM.createTables_grows h1).1
    | unmapped h1 hsp _ => exact (h.grow (VM.createTables_grows h1).1).setSpace hsp
    | filled h1 _ hsp _ _ ha =>
      obtain ⟨h2,hm,hf⟩ := ((h.grow (VM.createTables_grows h1).1).setSpace hsp).allocPage ha
      exact ((h2.adopt hm hf ..).fill ..).setEntry ..
    | direct h1 _ hsp _ _ => exact ((h.grow (VM.createTables_grows h1).1).setSpace hsp).setEntry ..
    | mirrored h1 _ hsp _ _ _ =>
      exact ((h.grow (VM.createTables_grows h1).1).setSpace hsp).setEntry ..
    | nested h1 _ hsp _ _ _ h2 he =>
      have hi := ih _ _ _ _ ((h.grow (VM.createTables_grows h1).1).setSpace hsp) h2
      rcases he with rfl | rfl
      · exact hi
      · exact hi.setEntry ..
    | untyped h1 hsp _ _ => exact (h.grow (VM.createTables_grows h1).1).setSpace hsp

theorem access {res : Option Nat} (h : Accounted vm) (hr : vm.access pm virt = some (vm',res)) :
    Accounted vm' := by
  unfold VM.access at hr
  dsimp only at hr
  split_ifs at hr
  · cases hr
    exact h
  · exact fault _ _ _ _ _ h hr

theorem write {byte : UInt8} (h : Accounted vm) (hr : vm.write pm virt byte = some vm') :
    Accounted vm' := by
  obtain ⟨⟨vm1,res⟩,ha,rfl⟩ := Option.map_eq_some_iff.mp hr
  have h1 := h.access ha
  cases res with
  | none => exact h1
  | some pfn =>
    dsimp only
    split_ifs
    · exact h1
    · exact h1.fill ..

theorem newPagemap {base brk : Nat} (h : Accounted vm) (hr : vm.newPagemap base brk = some vm') :
    Accounted vm' ∧ vm'.nextPm = vm.nextPm + 1 := by
  obtain ⟨g,_⟩ := VM.allocPageForPageTable_grows hr
  refine ⟨grow ?_ g,g.nextPm⟩
  refine ⟨h.free,h.managed,Nat.lt_succ_of_lt h.fresh.1,fun pm hle => ?_⟩
  have hlt : vm.nextPm < pm := hle
  exact (Function.update_of_ne hlt.ne' ..).trans (h.fresh.2 pm hlt.le)

theorem copyTables {child : Nat} (h : Accounted vm) (hr : vm.copyTables pm child = some vm') :
    Accounted vm' ∧ vm'.spaces = vm.spaces := by
  obtain ⟨vm1,h1,rfl⟩ := Option.map_eq_some_iff.mp hr
  obtain ⟨g,_⟩ := VM.allocPageTables_grows _ _ h1
  exact ⟨(h.grow g).alike rfl rfl rfl rfl fun _ hn => hn,g.spaces⟩

theorem copyPage {child old : Nat} {r : MappedRange} (h : Accounted vm)
    (hr : vm.copyPage child r old = some vm') : Accounted vm' ∧ vm'.spaces = vm.spaces := by
  obtain ⟨⟨vm1,p⟩,ha,hr⟩ := Option.bind_eq_some_iff.mp hr
  obtain ⟨vm2,h2,rfl⟩ := Option.map_eq_some_iff.mp hr
  obtain ⟨h1,hm,hf⟩ := h.allocPage ha
  obtain ⟨_,rfl⟩ := VM.allocPage_eq ha
  obtain ⟨g,_⟩ := VM.createTables_grows h2
  exact ⟨(((h1.adopt hm hf ..).grow g).setEntry ..).fill ..,g.spaces⟩

theorem copyPages {child : Nat} {r : MappedRange} (l : List Nat) : ∀ vm : VM, Accounted vm →
    VM.copyPages child r vm l = some vm' → Accounted vm' ∧ vm'.spaces = vm.spaces := by
  induction l with
  | nil =>
    intro vm h hr
    cases hr
    exact ⟨h,rfl⟩
  | cons old l ih =>
    intro vm h hr
    obtain ⟨vm1,h1,h2⟩ := Option.bind_eq_some_iff.mp hr
    obtain ⟨a1,s1⟩ := h.copyPage h1
    obtain ⟨a2,s2⟩ := ih vm1 a1 h2
    exact ⟨a2,s2.trans s1⟩

theorem forkRange {child : Nat} {r : MappedRange} (h : Accounted vm)
    (hr : vm.forkRange pm child r = some vm') : Accounted vm' := by
  unfold VM.forkRange at hr
  split at hr
  · cases hr
  · rename_i sp hsp
    dsimp only at hr
    split at hr
    · cases hr
    · split_ifs at hr
      · exact (copyPages _ _ (h.setSpace hsp) hr).1
      · cases hr
        exact h.setSpace hsp

theorem forkRanges {child : Nat} (l : List MappedRange) : ∀ vm : VM, Accounted vm →
    VM.forkRanges pm child vm l = some vm' → Accounted vm' := by
  induction l with
  | nil =>
    intro vm h hr
    cases hr
    exact h
  | cons r l ih =>
    intro vm h hr
    obtain ⟨vm1,h1,h2⟩ := Option.bind_eq_some_iff.mp hr
    exact ih vm1 (h.forkRange h1) h2

theorem fork {child : Nat} (h : Accounted vm) (hr : vm.fork pm = some (vm',child)) :
    Accounted vm' := by
  unfold VM.fork at hr
  split at hr
  · cases hr
  · obtain ⟨vm1,h1,hr⟩ := Option.bind_eq_some_iff.mp hr
    obtain ⟨vm2,h2,hr⟩ := Option.bind_eq_some_iff.mp hr
    obtain ⟨vm3,h3,he⟩ := Option.map_eq_some_iff.mp hr
    cases he
    exact forkRanges _ _ ((h.newPagemap h1).1.copyTables h2).1 h3

theorem destroy (h : Accounted vm) (hr : vm.destroy pm = some vm') : Accounted vm' := by
  unfold VM.destroy at hr
  split at hr
  · cases hr
  · rename_i sp hsp
    obtain ⟨vm1,h1,hr⟩ := Option.bind_eq_some_iff.mp hr
    obtain ⟨vm2,h2,rfl⟩ := Option.map_eq_some_iff.mp hr
    have a1 := h.freed (deleteRanges_freed _ vm h1) (by
      rintro q ⟨r,_,hq⟩
      simp [hq])
    refine (a1.freed (freePages_freed _ vm1 h2) (linked_pages vm1 _)).alike rfl rfl rfl rfl ?_
    intro pm' hn
    by_cases hp : pm' = pm
    · exact hp ▸ Function.update_self ..
    · exact (Function.update_of_ne hp ..).trans hn

theorem step {op : Op} (h : Accounted vm) (hr : vm.step op = some vm') : Accounted vm' := by
  cases op with
  | call pm c =>
    simp only [VM.step,VM.syscall] at hr
    split at hr
    · cases hr
    · rename_i sp hsp
      obtain ⟨vm1,h1,rfl⟩ := Option.map_eq_some_iff.mp hr
      obtain ⟨a,hs⟩ := runEffects _ vm h h1
      exact a.setSpace (hs ▸ hsp)
  | fault pm virt =>
    obtain ⟨⟨vm1,res⟩,h1,rfl⟩ := Option.map_eq_some_iff.mp hr
    exact fault _ _ _ _ _ h h1
  | write pm virt byte => exact h.write hr
  | fork pm =>
    obtain ⟨⟨vm1,child⟩,h1,rfl⟩ := Option.map_eq_some_iff.mp hr
    exact h.fork h1
  | create base brk => exact (h.newPagemap hr).1
  | destroy pm => exact h.destroy hr
  | reuse scrap =>
    cases hr
    exact h.alike rfl rfl rfl rfl fun _ hn => hn

end Accounted

def VM.AnyStep (vm vm' : VM) : Prop := ∃ op, vm.step op = some vm'

theorem reach_accounted {start vm : VM} (hb : Booted start)
    (h : Relation.ReflTransGen VM.AnyStep start vm) : Accounted vm := by
  induction h with
  | refl => exact hb.accounted
  | tail _ hs ih =>
    obtain ⟨op,hop⟩ := hs
    exact ih.step hop

section Exit

variable {vm vm' : VM} {pm key : Nat}

theorem freePages_returns (l : List Nat) : ∀ vm : VM, Accounted vm → l.Nodup →
    (∀ pfn ∈ l, vm.chains.link pfn ≠ none ∧ vm.chains.link pfn ≠ some .freelist) →
    ∃ vm', vm.freePages l = some vm' := by
  induction l with
  | nil => exact fun vm _ _ _ => ⟨vm,rfl⟩
  | cons p l ih =>
    intro vm h hnd hl
    obtain ⟨hp,hnd⟩ := List.nodup_cons.mp hnd
    obtain ⟨hlink,hfree⟩ := hl p (by simp)
    have hf : (vm.pages p).free = false := by
      rw [Bool.eq_false_iff]
      exact fun hf => hfree ((h.free p).mp hf)
    have h1 : vm.freePage p = some { vm.setPage p ⟨true,0⟩ with
        chains := vm.chains.push .freelist p } := by
      simp [VM.freePage,hf]
    obtain ⟨vm',h2⟩ := ih _ (h.freePage (h.managed p hlink) h1) hnd (by
      intro q hq
      have hqp : q ≠ p := fun he => hp (he ▸ hq)
      simpa [hqp] using hl q (by simp [hq]))
    exact ⟨vm',by rw [VM.freePages,h1,Option.bind_some,h2]⟩

theorem listed_returns (h : Accounted vm) {list : ListId} (hl : list ≠ .freelist) :
    ∃ vm', vm.freePages (vm.chains.lists list) = some vm' ∧ Accounted vm' := by
  obtain ⟨vm',h1⟩ := freePages_returns _ vm h (vm.chains.nodup list) fun pfn hp => by
    simp [(vm.chains.mem_iff _ _).mp hp,hl]
  exact ⟨vm',h1,h.freed (freePages_freed _ vm h1) (Accounted.linked_pages vm _)⟩

theorem deleteRanges_returns (l : List MappedRange) : ∀ vm : VM, Accounted vm →
    ∃ vm', vm.deleteRanges pm l = some vm' ∧ Accounted vm' := by
  induction l with
  | nil => exact fun vm h => ⟨vm,rfl,h⟩
  | cons r l ih =>
    intro vm h
    have hrange : ListId.range pm r.id ≠ .freelist := by simp
    obtain ⟨vm1,h1,a1⟩ := listed_returns h hrange
    obtain ⟨vm',h2,a2⟩ := ih vm1 a1
    exact ⟨vm',by rw [VM.deleteRanges,VM.deleteRange,h1,Option.bind_some,h2],a2⟩

theorem destroy_returns (h : Accounted vm) {sp : Space} (hsp : vm.spaces pm = some sp) :
    ∃ vm', vm.destroy pm = some vm' := by
  have htables : ListId.tables pm ≠ .freelist := by simp
  obtain ⟨vm1,h1,a1⟩ := @deleteRanges_returns pm sp.rangeList vm h
  obtain ⟨vm2,h2,_⟩ := listed_returns a1 htables
  simp [VM.destroy,hsp,h1,h2]

structure Exited (vm vm' : VM) (pm : Nat) : Prop where
  entry : ∀ pm' key, vm'.entry pm' key = vm.entry pm' key
  lost : vm'.lost = vm.lent pm ++ vm.lost
  lent : vm'.lent = Function.update vm.lent pm []
  spaces : vm'.spaces = Function.update vm.spaces pm none
  alive : ∃ sp, vm.spaces pm = some sp

theorem destroy_exited (h : vm.destroy pm = some vm') : Exited vm vm' pm := by
  unfold VM.destroy at h
  split at h
  · cases h
  · rename_i sp hsp
    obtain ⟨vm1,h1,h⟩ := Option.bind_eq_some_iff.mp h
    obtain ⟨vm2,h2,rfl⟩ := Option.map_eq_some_iff.mp h
    have f1 := deleteRanges_freed _ vm h1
    have f2 := freePages_freed _ vm1 h2
    have hlent := f2.lent.trans f1.lent
    refine ⟨fun pm' key => (f2.entry pm' key).trans (f1.entry pm' key),?_,?_,?_,sp,hsp⟩
    · show vm2.lent pm ++ vm2.lost = vm.lent pm ++ vm.lost
      rw [hlent,f2.lost,f1.lost]
    · show Function.update vm2.lent pm [] = Function.update vm.lent pm []
      rw [hlent]
    · show Function.update vm2.spaces pm none = Function.update vm.spaces pm none
      rw [f2.spaces,f1.spaces]

end Exit

def Effect.user : Effect → Prop
  | .invalidatePages base length _ => base + alignUp length pageSize ≤ 2 ^ 47
  | .delete _ => True

def Op.spares (vm : VM) : Op → Prop
  | .call pm c => ∀ sp, vm.spaces pm = some sp →
      ∀ e ∈ (sp.syscall (vm.outerRanges pm) c).2, e.user
  | .fork pm => ∀ pfn id, vm.chains.link pfn = some (.range pm id) →
      (vm.pages pfn).mappedAddr < 2 ^ 47
  | _ => True

def VM.Later (vm vm' : VM) : Prop := ∃ op : Op, op.spares vm ∧ vm.step op = some vm'

structure Held (vm : VM) (key pfn : Nat) : Prop where
  entry : (vm.entry kernelPm key).present = true ∧ (vm.entry kernelPm key).pfn = pfn
  kept : vm.isLost key = false
  unlent : ∀ pm sp, vm.spaces pm = some sp → ∀ t ∈ vm.lent pm, t.serves key = false

theorem newTables_spares {tables : List Nat} {key k : Nat} (hk : k / 512 ∈ tables)
    (hn : key / 512 ∉ tables) : ∀ t ∈ VM.newTables tables key, t.serves k = false := by
  intro t ht
  rw [VM.newTables,List.mem_append,List.mem_singleton] at ht
  rcases ht with ht | rfl
  · split_ifs at ht with hd
    · simp at ht
    · obtain rfl := List.mem_singleton.mp ht
      rw [KernelTable.serves,decide_eq_false_iff_not]
      intro he
      refine hd (List.mem_map.mpr ⟨k / 512,hk,?_⟩)
      rw [← he,Nat.div_div_eq_div_mul]
      rfl
  · rw [KernelTable.serves,decide_eq_false_iff_not]
    intro he
    exact hn (he ▸ hk)

theorem allocPageTables_charges {pm : Nat} (n : Nat) : ∀ vm vm' : VM,
    vm.allocPageTables pm n = some vm' → vm'.lent = vm.lent ∧ vm'.lost = vm.lost := by
  induction n with
  | zero =>
    intro vm vm' h
    cases h
    exact ⟨rfl,rfl⟩
  | succ n ih =>
    intro vm vm' h
    obtain ⟨vm1,h1,h2⟩ := Option.bind_eq_some_iff.mp h
    obtain ⟨⟨vm2,p⟩,ha,rfl⟩ := Option.map_eq_some_iff.mp h1
    obtain ⟨_,rfl⟩ := VM.allocPage_eq ha
    obtain ⟨e1,e2⟩ := ih _ vm' h2
    exact ⟨e1,e2⟩

theorem VM.entry_setEntry_ne (vm : VM) (pm : Nat) {key key' : Nat} (e : Pte) (pm' : Nat)
    (hk : key' ≠ key) : (vm.setEntry pm key e).entry pm' key' = vm.entry pm' key' := by
  have htab : (vm.setEntry pm key e).hasTable pm' key' = vm.hasTable pm' key' := rfl
  unfold VM.entry
  rw [htab]
  by_cases hh : half pm' key' = half pm key
  · simp [VM.setEntry,hh,Function.update_of_ne hk]
  · simp [VM.setEntry,Function.update_of_ne hh]

theorem kernel_entry (vm : VM) (pm : Nat) {key : Nat} (hk : 2 ^ 35 ≤ key) :
    vm.entry kernelPm key = vm.entry pm key := by
  simp only [VM.entry,VM.hasTable,half,if_neg (Nat.not_lt.mpr hk)]

namespace Held

variable {vm vm' : VM} {pm key pfn k virt : Nat}

theorem hasTable (h : Held vm k pfn) : vm.hasTable kernelPm k = true :=
  VM.hasTable_of_present h.entry.1

theorem frame (h : Held vm k pfn) (he : vm'.entry kernelPm k = vm.entry kernelPm k)
    (hlost : vm'.lost = vm.lost) (hlent : vm'.lent = vm.lent)
    (hs : ∀ pm, vm.spaces pm = none → vm'.spaces pm = none) : Held vm' k pfn where
  entry := he ▸ h.entry
  kept := by rw [VM.isLost,hlost]; exact h.kept
  unlent pm sp hsp := by
    rw [hlent]
    cases hv : vm.spaces pm with
    | none => simp [hs pm hv] at hsp
    | some sp' => exact h.unlent pm sp' hv

theorem setSpace (h : Held vm k pfn) {sp sp' : Space} (hsp : vm.spaces pm = some sp) :
    Held (vm.setSpace pm (some sp')) k pfn :=
  h.frame rfl rfl rfl fun pm' hn => by
    have hne : pm' ≠ pm := by
      rintro rfl
      simp [hsp] at hn
    exact (Function.update_of_ne hne ..).trans hn

theorem setEntry (h : Held vm k pfn) (hne : k ≠ key) (e : Pte) : Held (vm.setEntry pm key e) k pfn :=
  h.frame (VM.entry_setEntry_ne vm pm e _ hne) rfl rfl fun _ hn => hn

theorem fill (h : Held vm k pfn) (q : Nat) (bytes : Nat → UInt8) : Held (vm.fill q bytes) k pfn :=
  h.frame rfl rfl rfl fun _ hn => hn

theorem adopt (h : Held vm k pfn) (pm id q virt : Nat) : Held (vm.adopt pm id q virt) k pfn :=
  h.frame rfl rfl rfl fun _ hn => hn

theorem allocPage {q : Nat} (h : Held vm k pfn) (ha : vm.allocPage = some (vm',q)) :
    Held vm' k pfn := by
  obtain ⟨_,rfl⟩ := VM.allocPage_eq ha
  exact h.frame rfl rfl rfl fun _ hn => hn

theorem freed (h : Held vm k pfn) {S : Nat → Prop} (f : Freed vm vm' S) : Held vm' k pfn :=
  h.frame (f.entry _ _) f.lost f.lent fun _ hn => f.spaces ▸ hn

theorem createTables (h : Held vm k pfn) (hr : vm.createTables pm key = some vm') :
    Held vm' k pfn := by
  obtain ⟨g,_⟩ := VM.createTables_grows hr
  unfold VM.createTables at hr
  split_ifs at hr with ht
  · cases hr
    exact h
  obtain ⟨vm1,h1,rfl⟩ := Option.map_eq_some_iff.mp hr
  obtain ⟨hlent,hlost⟩ := allocPageTables_charges _ _ _ h1
  obtain ⟨g1,htab,_⟩ := VM.allocPageTables_grows _ _ h1
  refine ⟨(g.entry kernelPm k).symm ▸ h.entry,?_,?_⟩
  · show vm1.lost.any (·.serves k) = false
    rw [hlost]
    exact h.kept
  · intro pm' sp hsp t hm
    have hsp' : vm.spaces pm' = some sp := g1.spaces ▸ hsp
    dsimp only at hm
    split_ifs at hm with hh
    · exact h.unlent pm' sp hsp' t (hlent ▸ hm)
    · by_cases hp : pm' = pm
      · subst hp
        rw [Function.update_self,List.mem_append] at hm
        rcases hm with hm | hm
        · have hk : half pm' key = kernelPm := by
            unfold half at hh ⊢
            split_ifs at hh ⊢
            · exact absurd rfl hh
            · rfl
          have htk := h.hasTable
          rw [VM.hasTable,half_kernel,decide_eq_true_iff] at htk
          rw [VM.hasTable,hk,decide_eq_true_iff] at ht
          rw [htab,hk] at hm
          exact newTables_spares htk ht t hm
        · exact h.unlent pm' sp hsp' t (hlent ▸ hm)
      · rw [Function.update_of_ne hp,hlent] at hm
        exact h.unlent pm' sp hsp' t hm

theorem fault (hk : 2 ^ 35 ≤ k) (depth : Nat) : ∀ (vm vm' : VM) (virt : Nat) (res : Option Nat),
    Held vm k pfn → VM.handlePageFault depth vm pm virt = some (vm',res) → Held vm' k pfn := by
  induction depth with
  | zero =>
    intro vm vm' virt res _ hr
    simp [VM.handlePageFault] at hr
  | succ depth ih =>
    intro vm vm' virt res h hr
    have absent {vm1 : VM} (h1 : vm.createTables pm (pageKey virt) = some vm1)
        (hp : (vm1.entry pm (pageKey virt)).present = false) : k ≠ pageKey virt := by
      rintro rfl
      have hh := (h.createTables h1).entry.1
      rw [kernel_entry vm1 pm hk] at hh
      simp [hp] at hh
    cases handlePageFault_faulted depth hr with
    | present h1 _ => exact h.createTables h1
    | unmapped h1 hsp _ => exact (h.createTables h1).setSpace hsp
    | filled h1 hp hsp _ _ ha =>
      exact (((((h.createTables h1).setSpace hsp).allocPage ha).adopt ..).fill ..).setEntry
        (absent h1 hp) _
    | direct h1 hp hsp _ _ =>
      exact ((h.createTables h1).setSpace hsp).setEntry (absent h1 hp) _
    | mirrored h1 hp hsp _ _ _ =>
      exact ((h.createTables h1).setSpace hsp).setEntry (absent h1 hp) _
    | nested h1 hp hsp _ _ _ h2 he =>
      have hi := ih _ _ _ _ ((h.createTables h1).setSpace hsp) h2
      rcases he with rfl | rfl
      · exact hi
      · exact hi.setEntry (absent h1 hp) _
    | untyped h1 hsp _ _ => exact (h.createTables h1).setSpace hsp

theorem write {byte : UInt8} (hk : 2 ^ 35 ≤ k) (h : Held vm k pfn)
    (hr : vm.write pm virt byte = some vm') : Held vm' k pfn := by
  obtain ⟨⟨vm1,res⟩,ha,rfl⟩ := Option.map_eq_some_iff.mp hr
  have h1 : Held vm1 k pfn := by
    unfold VM.access at ha
    dsimp only at ha
    split_ifs at ha
    · cases ha
      exact h
    · exact fault hk _ _ _ _ _ h ha
  cases res with
  | none => exact h1
  | some q =>
    dsimp only
    split_ifs
    · exact h1
    · exact h1.fill ..

theorem invalidatePage (hk : 2 ^ 35 ≤ k) (hv : virt < 2 ^ 47) (h : Held vm k pfn)
    {range : Option MappedRange} (hr : vm.invalidatePage pm virt range = some vm') :
    Held vm' k pfn := by
  have hne : k ≠ pageKey virt := by
    have := pageKey_lt hv
    omega
  unfold VM.invalidatePage at hr
  split_ifs at hr
  · obtain ⟨page,hpage,hr⟩ := Option.bind_eq_some_iff.mp hr
    obtain ⟨vm1,h1,hr⟩ := Option.bind_eq_some_iff.mp hr
    have ha : Held vm1 k pfn := by
      cases page with
      | none =>
        cases h1
        exact h
      | some p =>
        simp only [VM.detachPage,VM.removeLink] at h1
        split_ifs at h1
        cases h1
        exact h.frame rfl rfl rfl fun _ hn => hn
    cases range with
    | some range =>
      simp only [VM.relinkPage] at hr
      split_ifs at hr
      obtain ⟨⟨vm2,p⟩,h2,rfl⟩ := Option.map_eq_some_iff.mp hr
      have h3 : Held vm2 k pfn := by
        cases page with
        | none => exact ha.allocPage h2
        | some q =>
          cases h2
          exact ha
      exact (h3.adopt ..).setEntry hne _
    | none =>
      simp only [VM.dropPage] at hr
      cases page with
      | none =>
        cases hr
        exact ha.setEntry hne _
      | some q =>
        have hf : (vm1.setEntry pm (pageKey virt) Pte.zero).freePage q = some vm' := hr
        have hl : (vm1.setEntry pm (pageKey virt) Pte.zero).freePages [q] = some vm' := by
          rw [VM.freePages,hf]
          rfl
        exact (ha.setEntry hne _).freed (freePages_freed [q] _ hl)
  · cases hr
    exact h

theorem invalidateFrom (hk : 2 ^ 35 ≤ k) {range : Option MappedRange} {base : Nat} (n : Nat) :
    ∀ (i : Nat) (vm : VM), base + (i + n) * pageSize ≤ 2 ^ 47 → Held vm k pfn →
      vm.invalidateFrom pm range base i n = some vm' → Held vm' k pfn := by
  induction n with
  | zero =>
    intro i vm _ h hr
    cases hr
    exact h
  | succ n ih =>
    intro i vm hb h hr
    obtain ⟨vm1,h1,h2⟩ := Option.bind_eq_some_iff.mp hr
    have hps : pageSize = 4096 := rfl
    refine ih _ vm1 ?_ (h.invalidatePage hk ?_ h1) h2
    · rw [Nat.add_right_comm]
      exact hb
    · rw [hps] at hb ⊢
      simp only [uadd]
      omega

theorem runEffects (hk : 2 ^ 35 ≤ k) (effects : List Effect) : ∀ vm : VM,
    (∀ e ∈ effects, e.user) → Held vm k pfn → vm.runEffects pm effects = some vm' →
    Held vm' k pfn := by
  induction effects with
  | nil =>
    intro vm _ h hr
    cases hr
    exact h
  | cons e effects ih =>
    intro vm hu h hr
    obtain ⟨vm1,h1,h2⟩ := Option.bind_eq_some_iff.mp hr
    refine ih vm1 (fun e he => hu e (by simp [he])) ?_ h2
    cases e with
    | invalidatePages base length range =>
      have hb := hu _ List.mem_cons_self
      refine invalidateFrom hk _ _ vm ?_ h h1
      rw [Nat.zero_add,Nat.div_mul_cancel (alignUp_dvd length)]
      exact hb
    | delete r => exact h.freed (freePages_freed _ vm h1)

theorem newPagemap {base brk : Nat} (ha : Accounted vm) (h : Held vm k pfn)
    (hr : vm.newPagemap base brk = some vm') : Held vm' k pfn := by
  obtain ⟨g,_⟩ := VM.allocPageForPageTable_grows hr
  obtain ⟨⟨vm1,p⟩,h1,rfl⟩ := Option.map_eq_some_iff.mp hr
  obtain ⟨_,rfl⟩ := VM.allocPage_eq h1
  have hne : kernelPm ≠ vm.nextPm := ha.fresh.1.ne
  refine ⟨?_,h.kept,?_⟩
  · rw [g.entry]
    have he : VM.entry { vm with
        nextPm := vm.nextPm + 1
        spaces := Function.update vm.spaces vm.nextPm (some ⟨[],0,none,base,brk⟩)
        tables := Function.update vm.tables vm.nextPm []
        ptes := Function.update vm.ptes vm.nextPm fun _ => Pte.zero
        lent := Function.update vm.lent vm.nextPm [] } kernelPm k = vm.entry kernelPm k := by
      simp [VM.entry,VM.hasTable,half_kernel,Function.update_of_ne hne]
    rw [he]
    exact h.entry
  · intro pm' sp hsp t ht
    have hsp' : Function.update vm.spaces vm.nextPm (some ⟨[],0,none,base,brk⟩) pm' = some sp := hsp
    have ht' : t ∈ Function.update vm.lent vm.nextPm [] pm' := ht
    by_cases hp : pm' = vm.nextPm
    · simp [hp] at ht'
    · rw [Function.update_of_ne hp] at hsp' ht'
      exact h.unlent pm' sp hsp' t ht'

theorem copyTables {child : Nat} (hne : child ≠ kernelPm) (h : Held vm k pfn)
    (hr : vm.copyTables pm child = some vm') : Held vm' k pfn := by
  obtain ⟨vm1,h1,rfl⟩ := Option.map_eq_some_iff.mp hr
  obtain ⟨g,_⟩ := VM.allocPageTables_grows _ _ h1
  obtain ⟨hlent,hlost⟩ := allocPageTables_charges _ _ _ h1
  refine h.frame ?_ hlost hlent fun _ hn => g.spaces ▸ hn
  rw [← g.entry]
  simp [VM.entry,VM.hasTable,half_kernel,Function.update_of_ne hne.symm]

theorem copyPage {child old : Nat} {r : MappedRange} (hk : 2 ^ 35 ≤ k) (h : Held vm k pfn)
    (hold : vm.chains.link old ≠ some .freelist) (hv : (vm.pages old).mappedAddr < 2 ^ 47)
    (hr : vm.copyPage child r old = some vm') : Held vm' k pfn := by
  obtain ⟨⟨vm1,p⟩,ha,hr⟩ := Option.bind_eq_some_iff.mp hr
  obtain ⟨vm2,h2,rfl⟩ := Option.map_eq_some_iff.mp hr
  have h1 := h.allocPage ha
  obtain ⟨hf,rfl⟩ := VM.allocPage_eq ha
  have hne : old ≠ p := fun he => hold (he ▸ hf)
  refine ((((h1.adopt ..).createTables h2).setEntry ?_ _).fill ..)
  have := pageKey_lt hv
  simp only [VM.setPage,Function.update_of_ne hne]
  omega

end Held

section Fork

variable {vm vm' : VM} {pm child k pfn : Nat}

def UserPages (vm : VM) (pm : Nat) : Prop :=
  ∀ q id, vm.chains.link q = some (.range pm id) → (vm.pages q).mappedAddr < 2 ^ 47

theorem UserPages.grow (h : UserPages vm pm) (g : VM.Grows vm vm') : UserPages vm' pm := by
  intro q id hq
  by_cases hf : vm.chains.link q = some .freelist
  · rcases g.unused q hf with ⟨e,_⟩ | ⟨⟨_,e⟩,_⟩ <;> simp [e] at hq
  · obtain ⟨e1,e2,_⟩ := g.used q hf
    rw [e2]
    exact h q id (e1 ▸ hq)

theorem copyPage_userPages {old : Nat} {r : MappedRange} (hu : UserPages vm pm) (hne : pm ≠ child)
    (hold : vm.chains.link old ≠ some .freelist) (hr : vm.copyPage child r old = some vm') :
    UserPages vm' pm ∧ ∀ q id, vm.chains.link q = some (.range pm id) →
      vm'.chains.link q = some (.range pm id) := by
  obtain ⟨vm1,p,g,hp,l,_⟩ := copyPage_links hold hr
  refine ⟨fun q id hq => ?_,fun q id hq => ?_⟩
  · rw [l.link] at hq
    rw [l.page]
    split_ifs at hq ⊢ with hqp
    · cases hq
      exact absurd rfl hne
    · exact hu.grow g q id hq
  · obtain ⟨e,_⟩ := g.used q (by simp [hq])
    have hqp : q ≠ p := by
      rintro rfl
      simp [e,hq] at hp
    rw [l.link,if_neg hqp,e,hq]

theorem Held.copyPages {r : MappedRange} (hk : 2 ^ 35 ≤ k) (hne : pm ≠ child) (id : Nat)
    (l : List Nat) : ∀ vm : VM, (∀ old ∈ l, vm.chains.link old = some (.range pm id)) →
    UserPages vm pm → Held vm k pfn → VM.copyPages child r vm l = some vm' →
    Held vm' k pfn ∧ UserPages vm' pm := by
  induction l with
  | nil =>
    intro vm _ hu h hr
    cases hr
    exact ⟨h,hu⟩
  | cons old l ih =>
    intro vm hl hu h hr
    obtain ⟨vm1,h1,h2⟩ := Option.bind_eq_some_iff.mp hr
    have hlink := hl old (by simp)
    have hold : vm.chains.link old ≠ some .freelist := by simp [hlink]
    obtain ⟨hu1,hkeep⟩ := copyPage_userPages hu hne hold h1
    exact ih vm1 (fun q hq => hkeep q id (hl q (by simp [hq]))) hu1
      (h.copyPage hk hold (hu old id hlink) h1) h2

theorem Held.forkRanges (hk : 2 ^ 35 ≤ k) (hne : pm ≠ child) (l : List MappedRange) :
    ∀ vm : VM, UserPages vm pm → Held vm k pfn → VM.forkRanges pm child vm l = some vm' →
    Held vm' k pfn := by
  induction l with
  | nil =>
    intro vm _ h hr
    cases hr
    exact h
  | cons r l ih =>
    intro vm hu h hr
    obtain ⟨vm1,h1,h2⟩ := Option.bind_eq_some_iff.mp hr
    have hone : Held vm1 k pfn ∧ UserPages vm1 pm := by
      unfold VM.forkRange at h1
      split at h1
      · cases h1
      · rename_i sp hsp
        dsimp only at h1
        split at h1
        · cases h1
        · split_ifs at h1
          · refine Held.copyPages hk hne r.id _ _ ?_ ?_ (h.setSpace hsp) h1
            · exact fun old ho => (vm.chains.mem_iff _ _).mp ho
            · exact hu
          · cases h1
            exact ⟨h.setSpace hsp,hu⟩
    exact ih vm1 hone.2 hone.1 h2

theorem Held.fork (hk : 2 ^ 35 ≤ k) (ha : Accounted vm) (hu : UserPages vm pm) (h : Held vm k pfn)
    (hr : vm.fork pm = some (vm',child)) : Held vm' k pfn := by
  unfold VM.fork at hr
  split at hr
  · cases hr
  · rename_i sp hsp
    obtain ⟨vm1,h1,hr⟩ := Option.bind_eq_some_iff.mp hr
    obtain ⟨vm2,h2,hr⟩ := Option.bind_eq_some_iff.mp hr
    obtain ⟨vm3,h3,he⟩ := Option.map_eq_some_iff.mp hr
    cases he
    have hne : pm ≠ vm.nextPm := by
      rintro rfl
      simp [ha.fresh.2 _ le_rfl] at hsp
    obtain ⟨g1,_⟩ := VM.allocPageForPageTable_grows h1
    have hu1 : UserPages vm1 pm := by
      refine UserPages.grow ?_ g1
      exact hu
    have hu2 : UserPages vm2 pm := by
      obtain ⟨vm4,h4,rfl⟩ := Option.map_eq_some_iff.mp h2
      have hu4 := hu1.grow (VM.allocPageTables_grows _ _ h4).1
      exact hu4
    exact Held.forkRanges hk hne _ _ hu2 ((h.newPagemap ha h1).copyTables ha.fresh.1.ne' h2) h3

end Fork

namespace Held

variable {vm vm' : VM} {pm key pfn k virt : Nat}

theorem destroy (h : Held vm k pfn) (hr : vm.destroy pm = some vm') : Held vm' k pfn := by
  obtain ⟨he,hlost,hlent,hs,sp,hsp⟩ := destroy_exited hr
  refine ⟨he kernelPm k ▸ h.entry,?_,?_⟩
  · rw [VM.isLost,hlost,List.any_append,Bool.or_eq_false_iff,List.any_eq_false]
    exact ⟨fun t ht => by simp [h.unlent pm sp hsp t ht],h.kept⟩
  · intro pm' sp' hsp' t ht
    rw [hs] at hsp'
    rw [hlent] at ht
    by_cases hp : pm' = pm
    · simp [hp] at ht
    · rw [Function.update_of_ne hp] at hsp' ht
      exact h.unlent pm' sp' hsp' t ht

theorem reuse (h : Held vm k pfn) (scrap : Nat → Option Pte) : Held (vm.reuse scrap) k pfn := by
  have hpage : vm.isLost (k / 512 * 512) = vm.isLost k := by
    unfold VM.isLost
    congr 1
    funext t
    cases t with
    | pml2 index =>
      rw [KernelTable.serves,KernelTable.serves]
      congr 1
      rw [eq_iff_iff]
      constructor <;> intro h <;> omega
    | pml1 index =>
      rw [KernelTable.serves,KernelTable.serves]
      congr 1
      rw [eq_iff_iff]
      constructor <;> intro h <;> omega
  refine h.frame ?_ rfl rfl fun _ hn => hn
  have ht := h.hasTable
  simp only [VM.hasTable,half_kernel,decide_eq_true_iff] at ht
  simp [VM.entry,VM.hasTable,half_kernel,VM.reuse,hpage,h.kept,ht]

theorem step {op : Op} (hk : 2 ^ 35 ≤ k) (ha : Accounted vm) (hs : op.spares vm)
    (h : Held vm k pfn) (hr : vm.step op = some vm') : Held vm' k pfn := by
  cases op with
  | call pm c =>
    simp only [VM.step,VM.syscall] at hr
    split at hr
    · cases hr
    · rename_i sp hsp
      obtain ⟨vm1,h1,rfl⟩ := Option.map_eq_some_iff.mp hr
      obtain ⟨_,hspaces⟩ := Accounted.runEffects _ vm ha h1
      exact (runEffects hk _ vm (hs sp hsp) h h1).setSpace (hspaces ▸ hsp)
  | fault pm virt =>
    obtain ⟨⟨vm1,res⟩,h1,rfl⟩ := Option.map_eq_some_iff.mp hr
    exact fault hk _ _ _ _ _ h h1
  | write pm virt byte => exact h.write hk hr
  | fork pm =>
    obtain ⟨⟨vm1,child⟩,h1,rfl⟩ := Option.map_eq_some_iff.mp hr
    exact h.fork hk ha hs h1
  | create base brk => exact h.newPagemap ha hr
  | destroy pm => exact h.destroy hr
  | reuse scrap =>
    cases hr
    exact h.reuse scrap

theorem later (hk : 2 ^ 35 ≤ k) (ha : Accounted vm) (h : Held vm k pfn)
    (hr : Relation.ReflTransGen VM.Later vm vm') : Held vm' k pfn := by
  have hrun : Held vm' k pfn ∧ Accounted vm' := by
    induction hr with
    | refl => exact ⟨h,ha⟩
    | tail _ hs ih =>
      obtain ⟨op,hspare,hop⟩ := hs
      exact ⟨ih.1.step hk ih.2 hspare hop,ih.2.step hop⟩
  exact hrun.1

end Held

section Loss

variable {vm vm' : VM} {pm key k : Nat}

theorem lost_later (hl : vm.isLost k = true) :
    ∃ later, VM.Later vm later ∧ (later.entry kernelPm k).present = false := by
  refine ⟨vm.reuse fun _ => none,⟨.reuse fun _ => none,trivial,rfl⟩,?_⟩
  unfold VM.entry
  split_ifs
  · simp only [VM.reuse,half_kernel,Function.update_self,hl,if_true]
    rfl
  · rfl

theorem lent_later (ha : Accounted vm) {sp : Space} (hsp : vm.spaces pm = some sp)
    {t : KernelTable} (ht : t ∈ vm.lent pm) (hk : t.serves k = true) :
    ∃ later, Relation.ReflTransGen VM.Later vm later ∧ (later.entry kernelPm k).present = false := by
  obtain ⟨vm1,h1⟩ := destroy_returns ha hsp
  have hl : vm1.isLost k = true := by
    rw [VM.isLost,(destroy_exited h1).lost,List.any_append,Bool.or_eq_true,List.any_eq_true]
    exact .inl ⟨t,ht,hk⟩
  obtain ⟨later,h2,hp⟩ := lost_later hl
  exact ⟨later,.tail (.single ⟨.destroy pm,trivial,h1⟩) h2,hp⟩

theorem Held.iff_stays {pfn : Nat} (hk : 2 ^ 35 ≤ k) (ha : Accounted vm) : Held vm k pfn ↔
    ∀ later, Relation.ReflTransGen VM.Later vm later →
      (later.entry kernelPm k).present = true ∧ (later.entry kernelPm k).pfn = pfn := by
  constructor
  · exact fun h later hl => (h.later hk ha hl).entry
  · intro stays
    refine ⟨stays vm .refl,?_,?_⟩
    · rw [Bool.eq_false_iff]
      intro hl
      obtain ⟨later,hs,hp⟩ := lost_later hl
      simp [(stays later (.single hs)).1] at hp
    · intro p sp hsp t ht
      by_contra hserve
      obtain ⟨later,hrun,hp⟩ := lent_later ha hsp ht (by simpa using hserve)
      simp [(stays later hrun).1] at hp

structure Richer (vm vm' : VM) (pm : Nat) : Prop where
  lent : ∀ t ∈ vm.lent pm, t ∈ vm'.lent pm
  table : ∀ key, vm.hasTable pm key = true → vm'.hasTable pm key = true
  alive : (∃ sp, vm.spaces pm = some sp) → ∃ sp, vm'.spaces pm = some sp

theorem Richer.trans {vm'' : VM} (h : Richer vm vm' pm) (h' : Richer vm' vm'' pm) :
    Richer vm vm'' pm where
  lent t ht := h'.lent t (h.lent t ht)
  table key ht := h'.table key (h.table key ht)
  alive ha := h'.alive (h.alive ha)

theorem createTables_richer (hr : vm.createTables pm key = some vm') : Richer vm vm' pm ∧
    (half pm key ≠ pm → vm.hasTable pm key = false → .pml1 (key / 2 ^ 9) ∈ vm'.lent pm) := by
  obtain ⟨g,_⟩ := VM.createTables_grows hr
  have same : (∀ t ∈ vm.lent pm, t ∈ vm'.lent pm) → Richer vm vm' pm := fun hl =>
    ⟨hl,g.table pm,by rw [g.spaces]; exact id⟩
  unfold VM.createTables at hr
  split_ifs at hr with ht
  · cases hr
    exact ⟨same fun _ hm => hm,by simp [ht]⟩
  obtain ⟨vm1,h1,rfl⟩ := Option.map_eq_some_iff.mp hr
  obtain ⟨hlent,_⟩ := allocPageTables_charges _ _ _ h1
  dsimp only at same ⊢
  split_ifs at same ⊢ with hh
  · exact ⟨same fun _ hm => hlent ▸ hm,fun hne => absurd hh hne⟩
  · rw [Function.update_self,hlent] at same ⊢
    refine ⟨same fun t hm => List.mem_append_right _ hm,fun _ _ => ?_⟩
    simp [VM.newTables]

theorem fault_opens (depth : Nat) : ∀ (vm vm' : VM) (virt : Nat) (res : Option Nat),
    VM.handlePageFault depth vm pm virt = some (vm',res) →
    ∃ vm1, vm.createTables pm (pageKey virt) = some vm1 ∧ Richer vm1 vm' pm := by
  induction depth with
  | zero =>
    intro vm vm' virt res hr
    simp [VM.handlePageFault] at hr
  | succ depth ih =>
    intro vm vm' virt res hr
    have space (vm1 : VM) (sp : Space) : Richer vm1 (vm1.setSpace pm (some sp)) pm :=
      ⟨fun _ ht => ht,fun _ ht => ht,fun _ => ⟨sp,Function.update_self ..⟩⟩
    have slot (vm1 : VM) (e : Pte) : Richer vm1 (vm1.setEntry pm (pageKey virt) e) pm :=
      ⟨fun _ ht => ht,fun _ ht => ht,fun ha => ha⟩
    cases handlePageFault_faulted depth hr with
    | present h1 _ => exact ⟨_,h1,fun _ ht => ht,fun _ ht => ht,fun ha => ha⟩
    | unmapped h1 _ _ | untyped h1 _ _ _ => exact ⟨_,h1,space _ _⟩
    | direct h1 _ _ _ _ | mirrored h1 _ _ _ _ _ => exact ⟨_,h1,(space _ _).trans (slot _ _)⟩
    | filled h1 _ _ _ _ ha =>
      obtain ⟨_,rfl⟩ := VM.allocPage_eq ha
      refine ⟨_,h1,(space _ _).trans ⟨fun _ ht => ht,fun _ ht => ht,fun ha => ha⟩⟩
    | nested h1 _ _ _ _ _ h2 he =>
      obtain ⟨vm3,h3,hi⟩ := ih _ _ _ _ h2
      have hn := ((space _ _).trans (createTables_richer h3).1).trans hi
      refine ⟨_,h1,?_⟩
      rcases he with rfl | rfl
      · exact hn
      · exact hn.trans (slot _ _)

end Loss

end SabaOS.Mem
