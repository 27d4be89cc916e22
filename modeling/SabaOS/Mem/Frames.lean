import Mathlib.Tactic.SplitIfs
import SabaOS.Mem.Vm

namespace SabaOS.Mem
open SabaOS.Klib SabaOS.Lib

def pageAddr (key : Nat) : Nat :=
  if key < 2 ^ 35 then key * pageSize else key * pageSize + 0xFFFF000000000000

abbrev Owning := Nat → Nat → Option Nat

structure Linked (vm : VM) (own : Owning) : Prop where
  placed : ∀ pm key id, own pm key = some id → half pm key = pm ∧ key < 2 ^ 36
  owned : ∀ pm key id, own pm key = some id → (vm.entry pm key).present = true ∧
    vm.chains.link (vm.entry pm key).pfn = some (.range pm id) ∧
    (vm.pages (vm.entry pm key).pfn).mappedAddr = pageAddr key
  listed : ∀ pfn pm id, vm.chains.link pfn = some (.range pm id) →
    ∃ key, own pm key = some id ∧ (vm.entry pm key).pfn = pfn
  free : ∀ pfn, (vm.pages pfn).free = true ↔ vm.chains.link pfn = some .freelist
  managed : ∀ pfn, vm.chains.link pfn ≠ none → findPage vm.regions pfn = some (some pfn)

theorem half_user {pm key : Nat} (h : key < 2 ^ 35) : half pm key = pm := if_pos h

theorem half_kernel {key : Nat} : half kernelPm key = kernelPm := ite_self kernelPm

theorem pageKey_user {virt : Nat} (h : virt < 2 ^ 47) : pageKey virt = virt / pageSize := by
  simp only [pageKey,pageSize]
  omega

theorem pageKey_lt {virt : Nat} (h : virt < 2 ^ 47) : pageKey virt < 2 ^ 35 := by
  rw [pageKey_user h]
  simp only [pageSize]
  omega

theorem pageKey_mul {virt : Nat} (h : virt < 2 ^ 47) :
    pageKey virt * pageSize = alignDown virt pageSize := by
  have hps : pageSize = 4096 := rfl
  rw [pageKey_user h,alignDown,hps]
  split_ifs <;> omega

theorem pageAddr_inj {k k' : Nat} (hk : k < 2 ^ 36) (hk' : k' < 2 ^ 36)
    (h : pageAddr k = pageAddr k') : k = k' := by
  unfold pageAddr at h
  simp only [pageSize] at h
  split_ifs at h <;> omega

namespace VM

variable {vm vm' : VM} {pm key pfn : Nat} {e : Pte}

theorem reuse_eq {scrap : Nat → Option Pte} (h : vm.lost = []) : vm.reuse scrap = vm := by
  have hl (key : Nat) : vm.isLost key = false := by simp [isLost,h]
  simp [reuse,hl]

theorem hasTable_of_present (h : (vm.entry pm key).present = true) :
    vm.hasTable pm key = true := by
  by_contra hn
  rw [entry,if_neg hn] at h
  exact absurd h (by decide)

theorem entry_setEntry (vm : VM) (pm key : Nat) (e : Pte) (ht : vm.hasTable pm key = true)
    (pm' key' : Nat) :
    (vm.setEntry pm key e).entry pm' key' =
      if half pm' key' = half pm key ∧ key' = key then e else vm.entry pm' key' := by
  have htab : (vm.setEntry pm key e).hasTable pm' key' = vm.hasTable pm' key' := rfl
  unfold entry
  rw [htab]
  by_cases hk : half pm' key' = half pm key ∧ key' = key
  · obtain ⟨h1,rfl⟩ := hk
    have ht' : vm.hasTable pm' key' = true := by
      rw [hasTable,h1]
      exact ht
    simp [ht',setEntry,h1]
  · rw [if_neg hk]
    by_cases hh : half pm' key' = half pm key
    · have hne : key' ≠ key := fun h => hk ⟨hh,h⟩
      simp [setEntry,hh,Function.update_of_ne hne]
    · simp [setEntry,Function.update_of_ne hh]

theorem allocPage_eq (h : vm.allocPage = some (vm',pfn)) :
    vm.chains.link pfn = some .freelist ∧
    vm' = { vm.setPage pfn { vm.pages pfn with free := false } with
      chains := vm.chains.unlink pfn } := by
  unfold allocPage at h
  split at h
  · simp at h
  · rename_i p l hl
    split_ifs at h
    cases h
    exact ⟨(vm.chains.mem_iff _ _).mp (by simp [hl]),rfl⟩

structure Grows (vm vm' : VM) : Prop where
  regions : vm'.regions = vm.regions
  spaces : vm'.spaces = vm.spaces
  files : vm'.files = vm.files
  nextPm : vm'.nextPm = vm.nextPm
  entry : ∀ pm key, vm'.entry pm key = vm.entry pm key
  table : ∀ pm key, vm.hasTable pm key = true → vm'.hasTable pm key = true
  used : ∀ pfn, vm.chains.link pfn ≠ some .freelist →
    vm'.chains.link pfn = vm.chains.link pfn ∧ vm'.pages pfn = vm.pages pfn ∧
    vm'.mem pfn = vm.mem pfn
  unused : ∀ pfn, vm.chains.link pfn = some .freelist →
    (vm'.chains.link pfn = some .freelist ∧ vm'.pages pfn = vm.pages pfn) ∨
    ((∃ pm, vm'.chains.link pfn = some (.tables pm)) ∧ (vm'.pages pfn).free = false)

theorem Grows.refl (vm : VM) : Grows vm vm where
  regions := rfl
  spaces := rfl
  files := rfl
  nextPm := rfl
  entry _ _ := rfl
  table _ _ h := h
  used _ _ := ⟨rfl,rfl,rfl⟩
  unused _ h := .inl ⟨h,rfl⟩

theorem Grows.trans {vm'' : VM} (h : Grows vm vm') (h' : Grows vm' vm'') : Grows vm vm'' where
  regions := h'.regions.trans h.regions
  spaces := h'.spaces.trans h.spaces
  files := h'.files.trans h.files
  nextPm := h'.nextPm.trans h.nextPm
  entry pm key := (h'.entry pm key).trans (h.entry pm key)
  table pm key ht := h'.table pm key (h.table pm key ht)
  used pfn hu := by
    obtain ⟨e1,e2,e3⟩ := h.used pfn hu
    obtain ⟨f1,f2,f3⟩ := h'.used pfn (e1 ▸ hu)
    exact ⟨f1.trans e1,f2.trans e2,f3.trans e3⟩
  unused pfn hf := by
    rcases h.unused pfn hf with ⟨e1,e2⟩ | ⟨⟨pm,e1⟩,e2⟩
    · rcases h'.unused pfn e1 with ⟨f1,f2⟩ | f
      · exact .inl ⟨f1,f2.trans e2⟩
      · exact .inr f
    · obtain ⟨f1,f2,_⟩ := h'.used pfn (by simp [e1])
      exact .inr ⟨⟨pm,f1.trans e1⟩,f2 ▸ e2⟩

theorem allocPageForPageTable_grows (h : vm.allocPageForPageTable pm = some vm') :
    Grows vm vm' ∧ vm'.tables = vm.tables ∧ vm'.ptes = vm.ptes := by
  obtain ⟨⟨vm1,p⟩,ha,rfl⟩ := Option.map_eq_some_iff.mp h
  obtain ⟨hf,rfl⟩ := allocPage_eq ha
  refine ⟨⟨rfl,rfl,rfl,rfl,fun _ _ => rfl,fun _ _ ht => ht,?_,?_⟩,rfl,rfl⟩
  · intro q hq
    have hne : q ≠ p := fun h => hq (h ▸ hf)
    simp [fill,setPage,hne]
  · intro q hq
    by_cases hp : q = p
    · subst hp
      exact .inr ⟨⟨pm,by simp [fill,setPage]⟩,by simp [fill,setPage]⟩
    · exact .inl (by simp [fill,setPage,hp,hq])

theorem allocPageTables_grows (n : Nat) : ∀ vm : VM, vm.allocPageTables pm n = some vm' →
    Grows vm vm' ∧ vm'.tables = vm.tables ∧ vm'.ptes = vm.ptes := by
  induction n with
  | zero =>
    intro vm h
    cases h
    exact ⟨.refl _,rfl,rfl⟩
  | succ n ih =>
    intro vm h
    obtain ⟨vm1,h1,h2⟩ := Option.bind_eq_some_iff.mp h
    obtain ⟨g1,t1,p1⟩ := allocPageForPageTable_grows h1
    obtain ⟨g2,t2,p2⟩ := ih vm1 h2
    exact ⟨g1.trans g2,t2.trans t1,p2.trans p1⟩

theorem hasTable_of_tables (ht : vm'.tables =
    Function.update vm.tables (half pm key) (key / 512 :: vm.tables (half pm key))) (pm' key' : Nat) :
    vm'.hasTable pm' key' =
      ((half pm' key' = half pm key ∧ key' / 512 = key / 512) ∨ vm.hasTable pm' key') := by
  by_cases hh : half pm' key' = half pm key <;> simp [hasTable,ht,hh]

theorem createTables_grows (h : vm.createTables pm key = some vm') :
    Grows vm vm' ∧ vm'.hasTable pm key = true := by
  unfold createTables at h
  split_ifs at h with ht
  · cases h
    exact ⟨.refl _,ht⟩
  obtain ⟨vm1,h1,rfl⟩ := Option.map_eq_some_iff.mp h
  obtain ⟨g,t,p⟩ := allocPageTables_grows _ _ h1
  have htab := @hasTable_of_tables vm { vm1 with
    tables := Function.update vm1.tables (half pm key) (key / 512 :: vm1.tables (half pm key))
    ptes := Function.update vm1.ptes (half pm key) fun k =>
      if k / 512 = key / 512 then Pte.zero else vm1.ptes (half pm key) k
    lent := if half pm key = pm then vm1.lent
      else Function.update vm1.lent pm (newTables (vm1.tables (half pm key)) key ++ vm1.lent pm) }
    pm key (by rw [t])
  refine ⟨⟨g.regions,g.spaces,g.files,g.nextPm,?_,?_,g.used,g.unused⟩,?_⟩
  · intro pm' key'
    unfold entry
    simp only [htab]
    by_cases hn : half pm' key' = half pm key ∧ key' / 512 = key / 512
    · have hno : vm.hasTable pm' key' = false := by
        simpa [hasTable,hn] using ht
      simp [hn,hno]
    · by_cases hh : half pm' key' = half pm key
      · have hne : key' / 512 ≠ key / 512 := fun he => hn ⟨hh,he⟩
        simp [hh,hne,p]
      · simp [hh,p]
  · intro pm' key' ht'
    rw [htab]
    exact .inr ht'
  · rw [htab]
    exact .inl ⟨rfl,rfl⟩

end VM

def Owning.set (own : Owning) (pm key : Nat) (o : Option Nat) : Owning := fun pm' key' =>
  if pm' = pm ∧ key' = key then o else own pm' key'

theorem Owning.set_self {own : Owning} {pm key : Nat} (h : own pm key = none) :
    own.set pm key none = own := by
  funext pm' key'
  unfold Owning.set
  split_ifs with hc
  · rw [hc.1,hc.2,h]
  · rfl

structure VM.Links (vm vm' : VM) (pm key : Nat) (e : Pte) (pfn : Nat) (link : Option ListId)
    (page : Page) : Prop where
  regions : vm'.regions = vm.regions
  entry : ∀ pm' key', vm'.entry pm' key' =
    if half pm' key' = half pm key ∧ key' = key then e else vm.entry pm' key'
  link : ∀ q, vm'.chains.link q = if q = pfn then link else vm.chains.link q
  page : ∀ q, vm'.pages q = if q = pfn then page else vm.pages q

namespace Linked

variable {vm vm' : VM} {own : Owning} (h : Linked vm own)
include h

theorem unique {pm pm' key key' id id' : Nat} (h1 : own pm key = some id)
    (h2 : own pm' key' = some id') (he : (vm.entry pm key).pfn = (vm.entry pm' key').pfn) :
    pm = pm' ∧ key = key' ∧ id = id' := by
  obtain ⟨_,l1,a1⟩ := h.owned pm key id h1
  obtain ⟨_,l2,a2⟩ := h.owned pm' key' id' h2
  rw [he,l2] at l1
  rw [he,a2] at a1
  have hk := pageAddr_inj (h.placed _ _ _ h2).2 (h.placed _ _ _ h1).2 a1
  cases l1
  exact ⟨rfl,hk.symm,rfl⟩

theorem grow (g : VM.Grows vm vm') : Linked vm' own where
  placed := h.placed
  owned pm key id ho := by
    obtain ⟨h1,h2,h3⟩ := h.owned pm key id ho
    obtain ⟨e1,e2,_⟩ := g.used (vm.entry pm key).pfn (by simp [h2])
    rw [g.entry]
    exact ⟨h1,e1.trans h2,by rw [e2]; exact h3⟩
  listed pfn pm id hl := by
    by_cases hf : vm.chains.link pfn = some .freelist
    · rcases g.unused pfn hf with ⟨e1,_⟩ | ⟨⟨_,e1⟩,_⟩ <;> simp [e1] at hl
    · obtain ⟨e1,_⟩ := g.used pfn hf
      simp only [g.entry]
      exact h.listed pfn pm id (e1 ▸ hl)
  free pfn := by
    by_cases hf : vm.chains.link pfn = some .freelist
    · rcases g.unused pfn hf with ⟨e1,e2⟩ | ⟨⟨_,e1⟩,e2⟩
      · simp [e1,e2,(h.free pfn).mpr hf]
      · simp [e1,e2]
    · obtain ⟨e1,e2,_⟩ := g.used pfn hf
      rw [e1,e2]
      exact h.free pfn
  managed pfn hl := by
    rw [g.regions]
    by_cases hf : vm.chains.link pfn = some .freelist
    · exact h.managed pfn (by simp [hf])
    · obtain ⟨e1,_⟩ := g.used pfn hf
      exact h.managed pfn (e1 ▸ hl)

variable {pm key pfn id : Nat} {e : Pte} {page : Page} (hk : half pm key = pm ∧ key < 2 ^ 36)
  (hp : (vm.chains.link pfn = some .freelist ∧ own pm key = none) ∨
    (∃ id, own pm key = some id) ∧ (vm.entry pm key).pfn = pfn)
include hk hp

theorem entry_other {pm' key' id' : Nat} {link : Option ListId}
    (l : VM.Links vm vm' pm key e pfn link page) (hne : ¬ (pm' = pm ∧ key' = key))
    (ho : own pm' key' = some id') :
    vm'.entry pm' key' = vm.entry pm' key' ∧ (vm.entry pm' key').pfn ≠ pfn := by
  refine ⟨?_,fun he => ?_⟩
  · rw [l.entry,(h.placed _ _ _ ho).1,hk.1,if_neg hne]
  · rcases hp with ⟨hf,_⟩ | ⟨⟨id0,h0⟩,hpf⟩
    · have := (h.owned _ _ _ ho).2.1
      simp [he,hf] at this
    · obtain ⟨h1,h2,_⟩ := h.unique ho h0 (he.trans hpf.symm)
      exact hne ⟨h1,h2⟩

theorem listed_other {q pm' id' : Nat} {link : Option ListId}
    (l : VM.Links vm vm' pm key e pfn link page) (hq : q ≠ pfn)
    (hl : vm.chains.link q = some (.range pm' id')) :
    ∃ key', own pm' key' = some id' ∧ ¬ (pm' = pm ∧ key' = key) ∧
      (vm'.entry pm' key').pfn = q := by
  obtain ⟨key',ho,hpf⟩ := h.listed q pm' id' hl
  have hne : ¬ (pm' = pm ∧ key' = key) := by
    rintro ⟨rfl,rfl⟩
    rcases hp with ⟨_,h0⟩ | ⟨_,hpf'⟩
    · simp [h0] at ho
    · exact hq (hpf.symm.trans hpf')
  exact ⟨key',ho,hne,by rw [(h.entry_other hk hp l hne ho).1]; exact hpf⟩

omit hk in
theorem managed_pfn : findPage vm.regions pfn = some (some pfn) := by
  rcases hp with ⟨hf,_⟩ | ⟨⟨id,ho⟩,rfl⟩
  · exact h.managed pfn (by simp [hf])
  · exact h.managed _ (by simp [(h.owned _ _ _ ho).2.1])

theorem take (l : VM.Links vm vm' pm key e pfn (some (.range pm id)) page) (he : e.pfn = pfn)
    (hpr : e.present = true) (hpg : page = ⟨false,pageAddr key⟩) :
    Linked vm' (own.set pm key (some id)) where
  placed pm' key' id' ho := by
    unfold Owning.set at ho
    split_ifs at ho with hc
    · exact hc.1 ▸ hc.2 ▸ hk
    · exact h.placed _ _ _ ho
  owned pm' key' id' ho := by
    unfold Owning.set at ho
    split_ifs at ho with hc
    · obtain ⟨rfl,rfl⟩ := hc
      cases ho
      rw [l.entry,if_pos ⟨rfl,rfl⟩,he,l.link,if_pos rfl,l.page,if_pos rfl,hpg]
      exact ⟨hpr,rfl,rfl⟩
    · obtain ⟨e1,e2⟩ := h.entry_other hk hp l hc ho
      rw [e1,l.link,if_neg e2,l.page,if_neg e2]
      exact h.owned _ _ _ ho
  listed q pm' id' hl := by
    rw [l.link] at hl
    split_ifs at hl with hq
    · cases hl
      refine ⟨key,by simp [Owning.set],?_⟩
      rw [l.entry,if_pos ⟨rfl,rfl⟩,he,hq]
    · obtain ⟨key',h1,h2,h3⟩ := h.listed_other hk hp l hq hl
      exact ⟨key',by simpa [Owning.set,h2] using h1,h3⟩
  free q := by
    rw [l.link,l.page]
    split_ifs
    · simp [hpg]
    · exact h.free q
  managed q hl := by
    rw [l.regions]
    rw [l.link] at hl
    split_ifs at hl with hq
    · exact hq ▸ h.managed_pfn hp
    · exact h.managed q hl

theorem release (l : VM.Links vm vm' pm key e pfn (some .freelist) page)
    (hpg : page = ⟨true,0⟩) : Linked vm' (own.set pm key none) where
  placed pm' key' id' ho := by
    unfold Owning.set at ho
    split_ifs at ho
    exact h.placed _ _ _ ho
  owned pm' key' id' ho := by
    unfold Owning.set at ho
    split_ifs at ho with hc
    obtain ⟨e1,e2⟩ := h.entry_other hk hp l hc ho
    rw [e1,l.link,if_neg e2,l.page,if_neg e2]
    exact h.owned _ _ _ ho
  listed q pm' id' hl := by
    rw [l.link] at hl
    split_ifs at hl with hq
    · cases hl
    · obtain ⟨key',h1,h2,h3⟩ := h.listed_other hk hp l hq hl
      exact ⟨key',by simpa [Owning.set,h2] using h1,h3⟩
  free q := by
    rw [l.link,l.page]
    split_ifs
    · simp [hpg]
    · exact h.free q
  managed q hl := by
    rw [l.regions]
    rw [l.link] at hl
    split_ifs at hl with hq
    · exact hq ▸ h.managed_pfn hp
    · exact h.managed q hl

omit hp in
theorem setForeign (hn : own pm key = none) (hr : vm'.regions = vm.regions)
    (hen : ∀ pm' key', vm'.entry pm' key' =
      if half pm' key' = half pm key ∧ key' = key then e else vm.entry pm' key')
    (hc : vm'.chains = vm.chains) (hg : vm'.pages = vm.pages) : Linked vm' own := by
  have other {pm' key' id' : Nat} (ho : own pm' key' = some id') :
      vm'.entry pm' key' = vm.entry pm' key' := by
    rw [hen,(h.placed _ _ _ ho).1,hk.1,if_neg]
    rintro ⟨rfl,rfl⟩
    simp [hn] at ho
  refine ⟨h.placed,?_,?_,?_,?_⟩
  · intro pm' key' id' ho
    rw [other ho,hc,hg]
    exact h.owned _ _ _ ho
  · intro q pm' id' hl
    obtain ⟨key',h1,h2⟩ := h.listed q pm' id' (hc ▸ hl)
    exact ⟨key',h1,by rw [other h1]; exact h2⟩
  · rw [hc,hg]
    exact h.free
  · rw [hc,hr]
    exact h.managed

end Linked

end SabaOS.Mem
