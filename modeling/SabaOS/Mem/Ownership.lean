import SabaOS.Mem.Fates
import SabaOS.Mem.Protect

namespace SabaOS.Mem

section Ownership

open SabaOS.Klib SabaOS.Lib

structure Mirrors (vm : VM) (map pfn : Nat) : Prop where
  kernel : 2 ^ 35 ≤ map
  present : (vm.entry kernelPm map).present = true
  same : (vm.entry kernelPm map).pfn = pfn
  linked : ∃ id, vm.chains.link pfn = some (.range kernelPm id)

structure Sound (vm : VM) (own : Owning) (pm : Nat) (l : List MappedRange) (n : Nat) : Prop where
  ranges : RangesOk l n
  bound : ∀ r ∈ l, r.base + r.length ≤ 2 ^ 47
  cover : ∀ key id, own pm key = some id → ∃ r ∈ l, r.id = id ∧ r.covers (key * pageSize)
  foreign : ∀ key, key < 2 ^ 35 → (vm.entry pm key).present = true → own pm key = none →
    ∃ r ∈ l, r.covers (key * pageSize) ∧
      ((r.type = .direct ∧ (vm.entry pm key).pfn = directPfn r (key * pageSize) ∧
        findPage vm.regions (vm.entry pm key).pfn = some none) ∨
      (r.type = .directVirtual ∧
        Mirrors vm (pageKey (r.backing (key * pageSize))) (vm.entry pm key).pfn))
  flags : ∀ key, key < 2 ^ 35 → (vm.entry pm key).present = true → ∀ r ∈ l,
    r.covers (key * pageSize) → (vm.entry pm key).flags = r.pageFlags
  marked : ∀ r ∈ l, r.pageFlags &&& pagePresent ≠ 0

def Unmirrored (vm : VM) (own : Owning) (pm : Nat) (l : List MappedRange)
    (touched : MappedRange → Nat → Prop) : Prop :=
  ∀ key, key < 2 ^ 35 → ∀ r ∈ l, r.covers (key * pageSize) → r.type = .directVirtual →
    (vm.entry pm key).present = true → own pm key = none → ¬ touched r (key * pageSize)

theorem Mirrors.ran {vm vm' : VM} {pm map pfn : Nat} {own own' : Owning} {f : Nat → Fate}
    (h : Mirrors vm map pfn) (hpm : pm ≠ kernelPm) (r : Ran vm vm' pm own own' f) :
    Mirrors vm' map pfn := by
  have he : vm'.entry kernelPm map = vm.entry kernelPm map := by
    refine r.entries kernelPm map fun hc => ?_
    have := h.kernel
    omega
  obtain ⟨id,hl⟩ := h.linked
  have hlink := (r.links pfn (by simp [hl]) (fun id' => by simp [hl,Ne.symm hpm])).1
  exact ⟨h.kernel,he ▸ h.present,he ▸ h.same,id,hlink.trans hl⟩

section Step

variable {vm vm' : VM} {own own' : Owning} {pm : Nat} {l : List MappedRange} {n : Nat}

theorem Sound.present_covered (h : Sound vm own pm l n) {key : Nat} (hk : key < 2 ^ 35)
    (hp : (vm.entry pm key).present = true) : ∃ r ∈ l, r.covers (key * pageSize) := by
  cases ho : own pm key with
  | some id =>
    obtain ⟨r,hr,_,hv⟩ := h.cover key id ho
    exact ⟨r,hr,hv⟩
  | none =>
    obtain ⟨r,hr,hv,_⟩ := h.foreign key hk hp ho
    exact ⟨r,hr,hv⟩

theorem Sound.other {f : Nat → Fate} {pm' : Nat} (h : Sound vm own pm' l n)
    (r : Ran vm vm' pm own own' f) (hpm : pm ≠ kernelPm) (hne : pm' ≠ pm) :
    Sound vm' own' pm' l n := by
  have ho (key : Nat) : own' pm' key = own pm' key := r.others pm' key fun hc => hne hc.1
  have he {key : Nat} (hk : key < 2 ^ 35) : vm'.entry pm' key = vm.entry pm' key :=
    r.entries pm' key fun hc => hne ((half_user hk).symm.trans hc.1)
  refine ⟨h.ranges,h.bound,?_,?_,?_,h.marked⟩
  · intro key id hid
    exact h.cover key id (ho key ▸ hid)
  · intro key hk hp hn
    rw [he hk] at hp ⊢
    obtain ⟨x,hx,hv,hd | ⟨ht,hm⟩⟩ := h.foreign key hk hp (ho key ▸ hn)
    · exact ⟨x,hx,hv,.inl (r.regions ▸ hd)⟩
    · exact ⟨x,hx,hv,.inr ⟨ht,hm.ran hpm r⟩⟩
  · intro key hk hp
    rw [he hk] at hp ⊢
    exact h.flags key hk hp

theorem PageFate.touched {q : Request} {after : List MappedRange} {virt : Nat} {r : MappedRange}
    {f : Fate} (h : PageFate q n after virt r f) (hr : r.Ok) (hf : f ≠ .stay) :
    Touched q r virt := by
  cases h with
  | stay => exact absurd rfl hf
  | drop hin hd =>
    refine .inl ⟨hin,fun hx => ?_⟩
    rcases hd with ⟨_,hn⟩ | hn
    · exact hn hx.1
    · exact hr.typed (hx.1.2.2.2.symm.trans hn)
  | split _ _ _ _ hs hge => exact .inr ⟨hs,hge⟩
  | moved _ _ _ _ hin _ hx => exact .inl ⟨hin,hx⟩

section AddRange

variable {q : Request} (hl : Linked vm own) (h : Sound vm own pm l n) (hpm : pm ≠ kernelPm)
  (hq : q.Ok) (hqb : q.base + q.length ≤ 2 ^ 47) (hres : q.resolveOverlap = true)
include hl h hpm hq hqb hres

theorem addRange_ran (hm : Unmirrored vm own pm l (Touched q))
    (hr : vm.runEffects pm (addRange q l n).1.effects = some vm') :
    ∃ own', Ran vm vm' pm own own' fun key => fates key (addRange q l n).1.effects := by
  have ho := (addRange_outcome h.ranges hq hres).1
  refine runEffects_ran hpm _ vm own hl (ho.fits h.ranges hq h.bound hqb) ?_
    (ho.retires h.ranges h.cover) hr
  intro key hk hf hp hn
  obtain ⟨r,hrl,hv,⟨_,_,hd⟩ | ⟨ht,_⟩⟩ := h.foreign key hk hp hn
  · exact hd
  · exact absurd ((ho.fate h.ranges hq hrl hv).touched (h.ranges.each r hrl) hf)
      (hm key hk r hrl hv ht hp hn)

omit hl in
theorem addRange_sound (hl' : Linked vm own)
    (hfl : q.type ≠ .none → q.pageFlags &&& pagePresent ≠ 0)
    (r : Ran vm vm' pm own own' fun key => fates key (addRange q l n).1.effects) :
    Sound vm' own' pm (addRange q l n).1.rangeList (addRange q l n).1.nextId := by
  have ho := (addRange_outcome h.ranges hq hres).1
  have hok := ho.rangesOk h.ranges hq
  have fate {key : Nat} {x : MappedRange} (hx : x ∈ l) (hv : x.covers (key * pageSize)) :=
    ho.fate h.ranges hq hx hv
  refine ⟨hok,ho.within h.ranges hq h.bound hqb,?_,?_,?_,?_⟩
  · intro key id hid
    have hk : key < 2 ^ 35 := by
      by_contra hge
      have := (r.linked.placed _ _ _ hid).1
      rw [half,if_neg hge] at this
      exact hpm this.symm
    rcases r.owner hl' hk hid with ⟨hf,ho'⟩ | ⟨y,hf,hid',hp⟩
    · obtain ⟨x,hx,rfl,hv⟩ := h.cover key id ho'
      have hpf := fate hx hv
      rw [hf] at hpf
      cases hpf with
      | stay hy hyv hyr =>
        obtain ⟨b,len,rfl⟩ := hyr
        exact ⟨_,hy,rfl,hyv⟩
    · obtain ⟨x,hx,hv⟩ := h.present_covered hk hp
      have hpf := fate hx hv
      rw [hf] at hpf
      cases hpf with
      | split hy hyv hyr =>
        obtain ⟨b,len,rfl⟩ := hyr
        exact ⟨_,hy,hid',hyv⟩
      | moved hy hyv => exact ⟨_,hy,hid',hyv⟩
  · intro key hk hp hn
    rcases (r.fated key hk).cases with ⟨ha,he,_⟩ | ⟨hf,he,hoe⟩ | ⟨_,_,he,_⟩ | ⟨_,_,_,_,_,_,hoe⟩
    · simp [he,ha] at hp
    · rw [he] at hp ⊢
      obtain ⟨x,hx,hv,hd⟩ := h.foreign key hk hp (hoe ▸ hn)
      have hpf := fate hx hv
      rw [hf] at hpf
      cases hpf with
      | stay hy hyv hyr =>
        obtain ⟨b,len,rfl⟩ := hyr
        refine ⟨_,hy,hyv,?_⟩
        rcases hd with hd | ⟨ht,hm⟩
        · exact .inl (r.regions ▸ hd)
        · exact .inr ⟨ht,hm.ran hpm r⟩
    · rw [he] at hp
      exact absurd hp (by decide)
    · simp [hoe] at hn
  · intro key hk hp y hy hyv
    rcases (r.fated key hk).cases with ⟨ha,he,_⟩ | ⟨hf,he,_⟩ | ⟨_,_,he,_⟩ | ⟨z,hf,hp',_,hfl,_,_⟩
    · simp [he,ha] at hp
    · rw [he] at hp ⊢
      obtain ⟨x,hx,hv⟩ := h.present_covered hk hp
      have hpf := fate hx hv
      rw [hf] at hpf
      cases hpf with
      | stay hx' hxv' hxr =>
        obtain rfl := hok.eq_of_covers hy hx' hyv hxv'
        obtain ⟨b,len,rfl⟩ := hxr
        exact h.flags key hk hp x hx hv
    · rw [he] at hp
      exact absurd hp (by decide)
    · obtain ⟨x,hx,hv⟩ := h.present_covered hk hp'
      have hpf := fate hx hv
      rw [hf] at hpf
      rw [hfl]
      cases hpf with
      | split hx' hxv' hxr =>
        obtain rfl := hok.eq_of_covers hy hx' hyv hxv'
        obtain ⟨b,len,rfl⟩ := hxr
        rfl
      | moved hx' hxv' => rw [hok.eq_of_covers hy hx' hyv hxv']
  · intro x hx
    rcases ho.flags h.ranges hq x hx with ⟨y,hy,he⟩ | ⟨ht,he⟩ <;> rw [he]
    · exact h.marked y hy
    · exact hfl ht

end AddRange

end Step

end Ownership

section Fault

open SabaOS.Klib SabaOS.Lib

section Faulted

variable (depth : Nat) (vm : VM) (pm virt : Nat)

inductive Faulted : VM → Option Nat → Prop
  | present {vm1 : VM} : vm.createTables pm (pageKey virt) = some vm1 →
      (vm1.entry pm (pageKey virt)).present = true → Faulted vm1 none
  | unmapped {vm1 : VM} {sp : Space} : vm.createTables pm (pageKey virt) = some vm1 →
      vm1.spaces pm = some sp → (sp.addrToRange (vm1.outerRanges pm) virt).2 = none →
      Faulted (vm1.setSpace pm (some (sp.addrToRange (vm1.outerRanges pm) virt).1)) none
  | filled {vm1 vm2 : VM} {sp : Space} {owner : Owner} {r : MappedRange} {pfn : Nat}
      {bytes : Nat → UInt8} : vm.createTables pm (pageKey virt) = some vm1 →
      (vm1.entry pm (pageKey virt)).present = false → vm1.spaces pm = some sp →
      (sp.addrToRange (vm1.outerRanges pm) virt).2 = some (owner,r) →
      (r.type = .anonymous ∧ bytes = fun _ => 0) ∨ (r.type = .file ∧
        bytes = fun i => vm2.files (r.file.getD 0) (r.backing (alignDown virt pageSize) + i)) →
      (vm1.setSpace pm (some (sp.addrToRange (vm1.outerRanges pm) virt).1)).allocPage =
        some (vm2,pfn) →
      Faulted (((vm2.adopt (VM.listOwner pm owner) r.id pfn (alignDown virt pageSize)).fill pfn
        bytes).setEntry pm (pageKey virt) ⟨pfn,r.pageFlags⟩) (some pfn)
  | direct {vm1 : VM} {sp : Space} {owner : Owner} {r : MappedRange} :
      vm.createTables pm (pageKey virt) = some vm1 →
      (vm1.entry pm (pageKey virt)).present = false → vm1.spaces pm = some sp →
      (sp.addrToRange (vm1.outerRanges pm) virt).2 = some (owner,r) → r.type = .direct →
      Faulted ((vm1.setSpace pm (some (sp.addrToRange (vm1.outerRanges pm) virt).1)).setEntry pm
        (pageKey virt) ⟨directPfn r (alignDown virt pageSize),r.pageFlags⟩)
        (some (directPfn r (alignDown virt pageSize)))
  | mirrored {vm1 : VM} {sp : Space} {owner : Owner} {r : MappedRange} :
      vm.createTables pm (pageKey virt) = some vm1 →
      (vm1.entry pm (pageKey virt)).present = false → vm1.spaces pm = some sp →
      (sp.addrToRange (vm1.outerRanges pm) virt).2 = some (owner,r) → r.type = .directVirtual →
      vm1.hasTable pm (pageKey (r.backing (alignDown virt pageSize))) = true →
      Faulted ((vm1.setSpace pm (some (sp.addrToRange (vm1.outerRanges pm) virt).1)).setEntry pm
        (pageKey virt)
        ⟨(vm1.entry pm (pageKey (r.backing (alignDown virt pageSize)))).pfn,r.pageFlags⟩)
        (some (vm1.entry pm (pageKey (r.backing (alignDown virt pageSize)))).pfn)
  | nested {vm1 vm2 vm' : VM} {sp : Space} {owner : Owner} {r : MappedRange}
      {inner res : Option Nat} : vm.createTables pm (pageKey virt) = some vm1 →
      (vm1.entry pm (pageKey virt)).present = false → vm1.spaces pm = some sp →
      (sp.addrToRange (vm1.outerRanges pm) virt).2 = some (owner,r) → r.type = .directVirtual →
      vm1.hasTable pm (pageKey (r.backing (alignDown virt pageSize))) = false →
      VM.handlePageFault depth
        (vm1.setSpace pm (some (sp.addrToRange (vm1.outerRanges pm) virt).1)) pm
        (r.backing (alignDown virt pageSize)) = some (vm2,inner) →
      vm' = vm2 ∨ vm' = vm2.setEntry pm (pageKey virt)
        ⟨(vm2.entry pm (pageKey (r.backing (alignDown virt pageSize)))).pfn,r.pageFlags⟩ →
      Faulted vm' res
  | untyped {vm1 : VM} {sp : Space} {owner : Owner} {r : MappedRange} :
      vm.createTables pm (pageKey virt) = some vm1 → vm1.spaces pm = some sp →
      (sp.addrToRange (vm1.outerRanges pm) virt).2 = some (owner,r) → r.type = .none →
      Faulted (vm1.setSpace pm (some (sp.addrToRange (vm1.outerRanges pm) virt).1)) none

variable {vm pm virt}

theorem handlePageFault_faulted (depth : Nat) {vm' : VM} {res : Option Nat}
    (h : VM.handlePageFault (depth + 1) vm pm virt = some (vm',res)) :
    Faulted depth vm pm virt vm' res := by
  rw [VM.handlePageFault] at h
  obtain ⟨vm1,h1,h⟩ := Option.bind_eq_some_iff.mp h
  split_ifs at h with hp
  · cases h
    exact .present h1 hp
  have hp' : (vm1.entry pm (pageKey virt)).present = false := by simpa using hp
  split at h
  · simp at h
  · rename_i sp hsp
    dsimp only at h
    split at h
    · rename_i hf
      cases h
      exact .unmapped h1 hsp hf
    · rename_i owner r hf
      split at h
      · rename_i ht
        obtain ⟨⟨vm2,p⟩,ha,he⟩ := Option.map_eq_some_iff.mp h
        cases he
        exact .filled h1 hp' hsp hf (.inl ⟨ht,rfl⟩) ha
      · rename_i ht
        cases h
        exact .direct h1 hp' hsp hf ht
      · rename_i ht
        by_cases htab : vm1.hasTable pm (pageKey (r.backing (alignDown virt pageSize))) = true
        · have htab' : (vm1.setSpace pm (some (sp.addrToRange (vm1.outerRanges pm) virt).1)).hasTable
              pm (pageKey (r.backing (alignDown virt pageSize))) = true := htab
          simp only [htab',if_true,Option.bind_some] at h
          cases h
          exact .mirrored h1 hp' hsp hf ht htab
        · have htab' : ¬ (vm1.setSpace pm (some (sp.addrToRange (vm1.outerRanges pm) virt).1)).hasTable
              pm (pageKey (r.backing (alignDown virt pageSize))) = true := htab
          rw [if_neg htab'] at h
          obtain ⟨vm2,h2,h⟩ := Option.bind_eq_some_iff.mp h
          obtain ⟨⟨vm3,inner⟩,h3,rfl⟩ := Option.map_eq_some_iff.mp h2
          refine .nested h1 hp' hsp hf ht (by simpa using htab) h3 ?_
          split_ifs at h <;> cases h
          · exact .inr rfl
          · exact .inl rfl
      · rename_i ht
        obtain ⟨⟨vm2,p⟩,ha,he⟩ := Option.map_eq_some_iff.mp h
        cases he
        exact .filled h1 hp' hsp hf (.inr ⟨ht,rfl⟩) ha
      · rename_i ht
        cases h
        exact .untyped h1 hsp hf ht

end Faulted

end Fault

end SabaOS.Mem
