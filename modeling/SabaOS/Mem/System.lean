import SabaOS.Mem.Ownership
import SabaOS.Mem.ProtectRun

namespace SabaOS.Mem
open SabaOS.Klib SabaOS.Lib

inductive Op where
  | call (pm : Nat) (c : Call)
  | fault (pm virt : Nat)
  | write (pm virt : Nat) (byte : UInt8)
  | fork (pm : Nat)
  | create (mmapAnonBase brk : Nat)
  | destroy (pm : Nat)
  | reuse (scrap : Nat → Option Pte)

def VM.step (vm : VM) : Op → Option VM
  | .call pm c => vm.syscall pm c
  | .fault pm virt => (vm.pageFault pm virt).map (·.1)
  | .write pm virt byte => vm.write pm virt byte
  | .fork pm => (vm.fork pm).map (·.1)
  | .create mmapAnonBase brk => vm.newPagemap mmapAnonBase brk
  | .destroy pm => vm.destroy pm
  | .reuse scrap => some (vm.reuse scrap)

structure KernelSound (vm : VM) (own : Owning) (l : List MappedRange) (n : Nat) : Prop where
  ranges : RangesOk l n
  above : ∀ r ∈ l, kernelBase ≤ r.base
  marked : ∀ r ∈ l, r.pageFlags &&& pagePresent ≠ 0
  types : ∀ r ∈ l, r.type = .anonymous ∨ r.type = .direct
  cover : ∀ key id, own kernelPm key = some id → ∃ r ∈ l, r.id = id ∧ r.covers (pageAddr key)
  filled : ∀ key, key < 2 ^ 36 → (vm.entry kernelPm key).present = true → ∀ r ∈ l,
    r.type = .anonymous → r.covers (pageAddr key) → own kernelPm key = some r.id
  lower : ∀ key, key < 2 ^ 35 → (vm.entry kernelPm key).present = false

structure Good (vm : VM) (own : Owning) : Prop where
  linked : Linked vm own
  live : ∀ pm key id, own pm key = some id → ∃ sp, vm.spaces pm = some sp
  sound : ∀ pm sp, pm ≠ kernelPm → vm.spaces pm = some sp →
    Sound vm own pm sp.rangeList sp.nextId
  kernel : ∀ sp, vm.spaces kernelPm = some sp → KernelSound vm own sp.rangeList sp.nextId
  fresh : kernelPm < vm.nextPm ∧ ∀ pm, vm.nextPm ≤ pm → vm.spaces pm = none

structure VM.Alike (vm vm' : VM) : Prop where
  regions : vm'.regions = vm.regions
  entry : ∀ pm key, vm'.entry pm key = vm.entry pm key
  link : ∀ pfn, vm'.chains.link pfn = vm.chains.link pfn
  pages : ∀ pfn, vm'.pages pfn = vm.pages pfn

section Alike

variable {vm vm' : VM} {own : Owning} (a : VM.Alike vm vm')
include a

theorem Linked.alike (h : Linked vm own) : Linked vm' own where
  placed := h.placed
  owned pm key id ho := by
    rw [a.entry,a.link,a.pages]
    exact h.owned pm key id ho
  listed pfn pm id hl := by
    simp only [a.entry]
    exact h.listed pfn pm id (a.link pfn ▸ hl)
  free pfn := by
    rw [a.link,a.pages]
    exact h.free pfn
  managed pfn hl := by
    rw [a.regions]
    exact h.managed pfn (a.link pfn ▸ hl)

theorem Mirrors.alike {map pfn : Nat} (h : Mirrors vm map pfn) : Mirrors vm' map pfn where
  kernel := h.kernel
  present := by rw [a.entry]; exact h.present
  same := by rw [a.entry]; exact h.same
  linked := by rw [a.link]; exact h.linked

theorem Sound.alike {pm : Nat} {l : List MappedRange} {n : Nat} (h : Sound vm own pm l n) :
    Sound vm' own pm l n where
  ranges := h.ranges
  bound := h.bound
  cover := h.cover
  foreign key hk hp hn := by
    rw [a.entry,a.regions] at *
    obtain ⟨r,hr,hv,hd | ⟨ht,hm⟩⟩ := h.foreign key hk hp hn
    · exact ⟨r,hr,hv,.inl hd⟩
    · exact ⟨r,hr,hv,.inr ⟨ht,hm.alike a⟩⟩
  flags key hk hp := by
    rw [a.entry] at *
    exact h.flags key hk hp
  marked := h.marked

theorem KernelSound.alike {l : List MappedRange} {n : Nat} (h : KernelSound vm own l n) :
    KernelSound vm' own l n :=
  ⟨h.ranges,h.above,h.marked,h.types,h.cover,fun key => by rw [a.entry]; exact h.filled key,
    fun key => by rw [a.entry]; exact h.lower key⟩

theorem Good.alike (h : Good vm own) (hs : vm'.spaces = vm.spaces)
    (hn : vm'.nextPm = vm.nextPm) : Good vm' own where
  linked := h.linked.alike a
  live := hs ▸ h.live
  sound pm sp hpm hsp := (h.sound pm sp hpm (hs ▸ hsp)).alike a
  kernel sp hsp := (h.kernel sp (hs ▸ hsp)).alike a
  fresh := by rw [hs,hn]; exact h.fresh

end Alike

section Grow

variable {vm vm' : VM} {own : Owning} (g : VM.Grows vm vm')
include g

theorem Mirrors.grow {map pfn : Nat} (h : Mirrors vm map pfn) : Mirrors vm' map pfn where
  kernel := h.kernel
  present := by rw [g.entry]; exact h.present
  same := by rw [g.entry]; exact h.same
  linked := by
    obtain ⟨id,hl⟩ := h.linked
    exact ⟨id,(g.used pfn (by simp [hl])).1.trans hl⟩

theorem Sound.grow {pm : Nat} {l : List MappedRange} {n : Nat} (h : Sound vm own pm l n) :
    Sound vm' own pm l n where
  ranges := h.ranges
  bound := h.bound
  cover := h.cover
  foreign key hk hp hn := by
    rw [g.entry,g.regions] at *
    obtain ⟨r,hr,hv,hd | ⟨ht,hm⟩⟩ := h.foreign key hk hp hn
    · exact ⟨r,hr,hv,.inl hd⟩
    · exact ⟨r,hr,hv,.inr ⟨ht,hm.grow g⟩⟩
  flags key hk hp := by
    rw [g.entry] at *
    exact h.flags key hk hp
  marked := h.marked

theorem KernelSound.grow {l : List MappedRange} {n : Nat} (h : KernelSound vm own l n) :
    KernelSound vm' own l n :=
  ⟨h.ranges,h.above,h.marked,h.types,h.cover,fun key => by rw [g.entry]; exact h.filled key,
    fun key => by rw [g.entry]; exact h.lower key⟩

theorem Good.grow (h : Good vm own) : Good vm' own where
  linked := h.linked.grow g
  live := g.spaces ▸ h.live
  sound pm sp hpm hsp := (h.sound pm sp hpm (g.spaces ▸ hsp)).grow g
  kernel sp hsp := (h.kernel sp (g.spaces ▸ hsp)).grow g
  fresh := by rw [g.spaces,g.nextPm]; exact h.fresh

end Grow

def MirrorSafe (vm : VM) (pm : Nat) (l : List MappedRange)
    (touched : MappedRange → Nat → Prop) : Prop :=
  ∀ key, key < 2 ^ 35 → ∀ r ∈ l, r.covers (key * pageSize) → r.type = .directVirtual →
    (vm.entry pm key).present = true →
    (∀ id, vm.chains.link (vm.entry pm key).pfn ≠ some (.range pm id)) →
    ¬ touched r (key * pageSize)

structure CallSafe (vm : VM) (pm : Nat) (sp : Space) (c : Call) : Prop where
  request : ∀ q, sp.callRequest c = some q → q.Ok ∧ q.base + q.length ≤ 2 ^ 47 ∧
    MirrorSafe vm pm sp.rangeList (Touched q)
  mprotect : ∀ addr length prot, c = .mprotect addr length prot → addr % pageSize = 0 →
    addr + alignUp length pageSize ≤ 2 ^ 47 ∧ MirrorSafe vm pm sp.rangeList
      (ProtectTouched addr (addr + alignUp length pageSize) (mmapProtToPageFlags prot))
  madvise : ∀ addr length advice, c = .madvise addr length advice → addr % pageSize = 0 →
    Space.Advice.decode advice = .dontneed → addr + alignUp length pageSize ≤ 2 ^ 47 ∧
    MirrorSafe vm pm sp.rangeList
      fun _ virt => addr ≤ virt ∧ virt < addr + alignUp length pageSize

section Call

variable {vm vm' : VM} {own : Owning} {pm : Nat} {sp : Space}

theorem MirrorSafe.unmirrored {l : List MappedRange} {n : Nat}
    {touched : MappedRange → Nat → Prop} (hm : MirrorSafe vm pm l touched)
    (h : Sound vm own pm l n) (hpm : pm ≠ kernelPm) : Unmirrored vm own pm l touched := by
  intro key hk r hr hv ht hp hn
  refine hm key hk r hr hv ht hp fun id hid => ?_
  obtain ⟨x,hx,hxv,⟨htd,_⟩ | ⟨_,hmir⟩⟩ := h.foreign key hk hp hn
  · obtain rfl := h.ranges.eq_of_covers hr hx hv hxv
    simp [ht] at htd
  · obtain ⟨id',hid'⟩ := hmir.linked
    rw [hid] at hid'
    cases hid'
    exact hpm rfl

theorem Good.outer (hg : Good vm own) (hpm : pm ≠ kernelPm) :
    ∀ r ∈ vm.outerRanges pm, 2 ^ 47 ≤ r.base := by
  intro r hr
  rw [VM.outerRanges,if_neg hpm,VM.ranges] at hr
  cases hk : vm.spaces kernelPm with
  | none => simp [hk] at hr
  | some ksp =>
    have := (hg.kernel ksp hk).above r (by simpa [hk] using hr)
    simp only [kernelBase] at this
    omega

theorem Good.ran {vm1 : VM} {own' : Owning} {f : Nat → Fate} {sp' : Space} (hg : Good vm own)
    (hpm : pm ≠ kernelPm) (hsp : vm.spaces pm = some sp) (r : Ran vm vm1 pm own own' f)
    (hs : Sound vm1 own' pm sp'.rangeList sp'.nextId) :
    Good (vm1.setSpace pm (some sp')) own' := by
  have a : VM.Alike vm1 (vm1.setSpace pm (some sp')) :=
    ⟨rfl,fun _ _ => rfl,fun _ => rfl,fun _ => rfl⟩
  have hspaces (pm' : Nat) : (vm1.setSpace pm (some sp')).spaces pm' =
      if pm' = pm then some sp' else vm.spaces pm' := by
    rw [VM.setSpace,r.spaces]
    exact Function.update_apply ..
  refine ⟨r.linked.alike a,?_,?_,?_,?_⟩
  · intro pm' key id ho
    rw [hspaces]
    split_ifs with h
    · exact ⟨sp',rfl⟩
    · exact hg.live pm' key id (r.others pm' key (fun hc => h hc.1) ▸ ho)
  · intro pm' sp'' hpm' hsp''
    rw [hspaces] at hsp''
    split_ifs at hsp'' with h
    · cases hsp''
      exact h ▸ hs.alike a
    · exact ((hg.sound pm' sp'' hpm' hsp'').other r hpm h).alike a
  · intro ksp hk
    rw [hspaces,if_neg (Ne.symm hpm)] at hk
    have h := hg.kernel ksp hk
    have hown (key : Nat) : own' kernelPm key = own kernelPm key :=
      r.others kernelPm key fun hc => hpm hc.1.symm
    have hent (key : Nat) : vm1.entry kernelPm key = vm.entry kernelPm key := by
      refine r.entries kernelPm key fun hc => hpm ?_
      rw [← hc.1,half_user hc.2]
    refine KernelSound.alike a ⟨h.ranges,h.above,h.marked,h.types,?_,?_,?_⟩
    · intro key id ho
      exact h.cover key id (hown key ▸ ho)
    · intro key
      rw [hown,hent]
      exact h.filled key
    · intro key
      rw [hent]
      exact h.lower key
  · refine ⟨r.nextPm ▸ hg.fresh.1,fun pm' hle => ?_⟩
    have hle' : vm.nextPm ≤ pm' := r.nextPm ▸ hle
    rw [hspaces,if_neg]
    · exact hg.fresh.2 pm' hle'
    · rintro rfl
      simp [hg.fresh.2 _ hle'] at hsp

theorem madvise_sound {addr length : Nat} (hl : Linked vm own)
    (h : Sound vm own pm sp.rangeList sp.nextId) (hpm : pm ≠ kernelPm)
    (ha : addr % pageSize = 0) (hb : addr + alignUp length pageSize ≤ 2 ^ 47)
    (hm : Unmirrored vm own pm sp.rangeList
      fun _ virt => addr ≤ virt ∧ virt < addr + alignUp length pageSize)
    (hr : vm.runEffects pm [.invalidatePages addr (alignUp length pageSize) none] = some vm') :
    ∃ own' f, Ran vm vm' pm own own' f ∧ Sound vm' own' pm sp.rangeList sp.nextId := by
  have hfate (key : Nat) : fates key [.invalidatePages addr (alignUp length pageSize) none] =
      if addr ≤ key * pageSize ∧ key * pageSize < addr + alignUp length pageSize then .drop
      else .stay := rfl
  obtain ⟨own',r⟩ := runEffects_ran hpm _ vm own hl
    (by simpa using ⟨Nat.dvd_of_mod_eq_zero ha,alignUp_dvd length,hb⟩)
    (by
      intro key hk hf hp hn
      obtain ⟨x,hx,hxv,⟨_,_,hd⟩ | ⟨ht,_⟩⟩ := h.foreign key hk hp hn
      · exact hd
      · refine absurd ?_ (hm key hk x hx hxv ht hp hn)
        by_contra hc
        exact hf ((hfate key).trans (if_neg hc)))
    (by
      intro pre x post he
      match pre,he with
      | [],he => simp at he
      | _ :: _,he => simp at he) hr
  refine ⟨own',_,r,h.ranges,h.bound,?_,?_,?_,h.marked⟩
  · intro key id hid
    have hk : key < 2 ^ 35 := by
      by_contra hge
      have := (r.linked.placed _ _ _ hid).1
      rw [half,if_neg hge] at this
      exact hpm this.symm
    rcases r.owner hl hk hid with ⟨_,ho⟩ | ⟨x,hf,_⟩
    · exact h.cover key id ho
    · rw [hfate] at hf
      split_ifs at hf
  · intro key hk hp hn
    rcases (r.fated key hk).cases with ⟨ha,he,_⟩ | ⟨_,he,ho⟩ | ⟨_,_,he,_⟩ | ⟨_,_,_,_,_,_,ho⟩
    · simp [he,ha] at hp
    · rw [he] at hp ⊢
      obtain ⟨x,hx,hxv,hd | ⟨ht,hmir⟩⟩ := h.foreign key hk hp (ho ▸ hn)
      · exact ⟨x,hx,hxv,.inl (r.regions ▸ hd)⟩
      · exact ⟨x,hx,hxv,.inr ⟨ht,hmir.ran hpm r⟩⟩
    · rw [he] at hp
      exact absurd hp (by decide)
    · simp [ho] at hn
  · intro key hk hp x hx hxv
    rcases (r.fated key hk).cases with ⟨ha,he,_⟩ | ⟨_,he,_⟩ | ⟨_,_,he,_⟩ | ⟨y,hf,_⟩
    · simp [he,ha] at hp
    · rw [he] at hp ⊢
      exact h.flags key hk hp x hx hxv
    · rw [he] at hp
      exact absurd hp (by decide)
    · rw [hfate] at hf
      split_ifs at hf

theorem runEffects_sound (hg : Good vm own) (hpm : pm ≠ kernelPm) (hsp : vm.spaces pm = some sp)
    {c : Call} (hc : CallSafe vm pm sp c)
    (hr : vm.runEffects pm (sp.syscall (vm.outerRanges pm) c).2 = some vm') :
    ∃ own' f, Ran vm vm' pm own own' f ∧
      Sound vm' own' pm (sp.syscall (vm.outerRanges pm) c).1.rangeList
        (sp.syscall (vm.outerRanges pm) c).1.nextId := by
  have h := hg.sound pm sp hpm hsp
  cases hq : sp.callRequest c with
  | some q =>
    obtain ⟨e1,e2,e3⟩ := Space.syscall_of_request (vm.outerRanges pm) hq
    obtain ⟨hqok,hqb,hm⟩ := hc.request q hq
    obtain ⟨hres,_,hfl⟩ := Space.callRequest_resolves hq
    rw [e3] at hr
    rw [e1,e2]
    obtain ⟨own',r⟩ := addRange_ran hg.linked h hpm hqok hqb hres (hm.unmirrored h hpm) hr
    exact ⟨own',_,r,addRange_sound h hpm hqok hqb hres hg.linked hfl r⟩
  | none =>
    have idle (he : (sp.syscall (vm.outerRanges pm) c).2 = [])
        (hnp : ∀ addr length prot, c ≠ .mprotect addr length prot) :
        ∃ own' f, Ran vm vm' pm own own' f ∧
          Sound vm' own' pm (sp.syscall (vm.outerRanges pm) c).1.rangeList
            (sp.syscall (vm.outerRanges pm) c).1.nextId := by
      rw [he] at hr
      cases hr
      obtain ⟨e1,e2⟩ := Space.syscall_without_request (vm.outerRanges pm) hq hnp
      rw [e1,e2]
      exact ⟨own,_,Ran.refl hg.linked,h⟩
    cases c with
    | mprotect addr length prot =>
      by_cases ha : addr % pageSize = 0
      · obtain ⟨hb,hm⟩ := hc.mprotect addr length prot rfl ha
        obtain ⟨own',f,last,hp⟩ := mprotect_protecting hg.linked h hpm ha hb (hg.outer hpm)
          (hm.unmirrored h hpm) hr
        exact ⟨own',f,hp.ran,hp.sound⟩
      · simp only [Space.syscall,Space.syscallMprotect,ne_eq,ha,not_false_eq_true,if_true] at hr ⊢
        cases hr
        exact ⟨own,_,Ran.refl hg.linked,h⟩
    | madvise addr length advice =>
      by_cases ha : addr % pageSize = 0
      · by_cases hd : Space.Advice.decode advice = .dontneed
        · obtain ⟨hb,hm⟩ := hc.madvise addr length advice rfl ha hd
          simp only [Space.syscall,Space.syscallMadvise,ne_eq,ha,not_true_eq_false,if_false,hd]
            at hr ⊢
          exact madvise_sound hg.linked h hpm ha hb (hm.unmirrored h hpm) hr
        · refine idle ?_ (by simp)
          simp only [Space.syscall,Space.syscallMadvise,ne_eq,ha,not_true_eq_false,if_false]
          split <;> first | rfl | (rename_i h; exact absurd h hd)
      · exact idle (by simp [Space.syscall,Space.syscallMadvise,ha]) (by simp)
    | _ => exact idle (Space.effects_without_request hq (by simp) (by simp)) (by simp)

theorem Good.syscall {c : Call} (hg : Good vm own) (hpm : pm ≠ kernelPm)
    (hsp : vm.spaces pm = some sp) (hc : CallSafe vm pm sp c) (hr : vm.syscall pm c = some vm') :
    ∃ own', Good vm' own' := by
  simp only [VM.syscall,hsp] at hr
  obtain ⟨vm1,h1,rfl⟩ := Option.map_eq_some_iff.mp hr
  obtain ⟨own',f,r,hs⟩ := runEffects_sound hg hpm hsp hc h1
  exact ⟨own',hg.ran hpm hsp r hs⟩

end Call

structure FaultSafe (vm : VM) (pm virt : Nat) : Prop where
  placed : (pm ≠ kernelPm ∧ virt < 2 ^ 47) ∨ (pm = kernelPm ∧ kernelBase ≤ virt ∧ virt < 2 ^ 64)
  direct : pm ≠ kernelPm → ∀ r ∈ vm.ranges pm, r.covers virt → r.type = .direct →
    findPage vm.regions (directPfn r (alignDown virt pageSize)) = some none
  mirror : pm ≠ kernelPm → ∀ r ∈ vm.ranges pm, r.covers virt → r.type = .directVirtual →
    Mirrors vm (pageKey (r.backing (alignDown virt pageSize)))
      (vm.entry kernelPm (pageKey (r.backing (alignDown virt pageSize)))).pfn

section Fault

variable {vm vm' : VM} {own : Owning} {pm virt : Nat} {sp : Space}

theorem FaultSafe.key (h : FaultSafe vm pm virt) : half pm (pageKey virt) = pm ∧
    pageKey virt < 2 ^ 36 ∧ pageAddr (pageKey virt) = alignDown virt pageSize ∧
    (pm ≠ kernelPm → pageKey virt < 2 ^ 35) := by
  have hps : pageSize = 4096 := rfl
  have hd : alignDown virt pageSize = virt / 4096 * 4096 := by
    simp only [alignDown,hps]
    split_ifs <;> omega
  rw [hd]
  rcases h.placed with ⟨hpm,hv⟩ | ⟨hpm,h1,h2⟩
  · have hk : pageKey virt < 2 ^ 35 := by
      rw [pageKey_user hv,hps]
      omega
    refine ⟨half_user hk,by omega,?_,fun _ => hk⟩
    rw [pageAddr,if_pos hk,pageKey_user hv,hps]
  · have hk : ¬ pageKey virt < 2 ^ 35 := by
      simp only [pageKey,hps,kernelBase] at *
      omega
    refine ⟨by rw [half,if_neg hk,hpm],by simp only [pageKey]; omega,?_,fun h => absurd hpm h⟩
    rw [pageAddr,if_neg hk]
    simp only [pageKey,hps,kernelBase] at *
    omega

theorem covers_alignDown {r : MappedRange} (hr : r.Ok) (hv : r.covers virt) :
    r.covers (alignDown virt pageSize) := by
  have hps : pageSize = 4096 := rfl
  have hd : alignDown virt pageSize = virt / 4096 * 4096 := by
    simp only [alignDown,hps]
    split_ifs <;> omega
  obtain ⟨a1,_⟩ := hr.aligned
  obtain ⟨v1,v2⟩ := hv
  rw [hps] at a1
  rw [hd]
  constructor <;> omega

theorem Good.rangesOk (hg : Good vm own) (hsp : vm.spaces pm = some sp) :
    RangesOk sp.rangeList sp.nextId := by
  by_cases hpm : pm = kernelPm
  · exact (hg.kernel sp (hpm ▸ hsp)).ranges
  · exact (hg.sound pm sp hpm hsp).ranges

theorem Good.marked (hg : Good vm own) (hsp : vm.spaces pm = some sp) {r : MappedRange}
    (hr : r ∈ sp.rangeList) : r.pageFlags &&& pagePresent ≠ 0 := by
  by_cases hpm : pm = kernelPm
  · exact (hg.kernel sp (hpm ▸ hsp)).marked r hr
  · exact (hg.sound pm sp hpm hsp).marked r hr

theorem Good.user (hg : Good vm own) (hsp : vm.spaces pm = some sp) {r : MappedRange}
    (hr : r ∈ sp.rangeList) (ht : r.type = .directVirtual) : pm ≠ kernelPm := by
  rintro rfl
  rcases (hg.kernel sp hsp).types r hr with h | h <;> simp [h] at ht

theorem Good.found {owner : Owner} {r : MappedRange} (hg : Good vm own) (hs : FaultSafe vm pm virt)
    (hf : (sp.addrToRange (vm.outerRanges pm) virt).2 = some (owner,r)) :
    owner = .own ∧ r ∈ sp.rangeList ∧ r.covers virt := by
  obtain ⟨hc,ho,hk⟩ := addrToRange_covers hf
  cases owner with
  | own => exact ⟨rfl,ho rfl,hc⟩
  | kernel =>
    have hr := hk rfl
    rcases hs.placed with ⟨hpm,hv⟩ | ⟨hpm,_⟩
    · have h1 := hg.outer hpm r hr
      have h2 : r.base ≤ virt := hc.1
      omega
    · rw [VM.outerRanges,if_pos hpm] at hr
      simp at hr

theorem Good.setCache {sp' : Space} (hg : Good vm own) (hsp : vm.spaces pm = some sp)
    (h1 : sp'.rangeList = sp.rangeList) (h2 : sp'.nextId = sp.nextId) :
    Good (vm.setSpace pm (some sp')) own := by
  have a : VM.Alike vm (vm.setSpace pm (some sp')) :=
    ⟨rfl,fun _ _ => rfl,fun _ => rfl,fun _ => rfl⟩
  have hspaces (pm' : Nat) : (vm.setSpace pm (some sp')).spaces pm' =
      if pm' = pm then some sp' else vm.spaces pm' := Function.update_apply ..
  refine ⟨hg.linked.alike a,?_,?_,?_,?_⟩
  · intro pm' key id ho
    rw [hspaces]
    split_ifs
    · exact ⟨sp',rfl⟩
    · exact hg.live pm' key id ho
  · intro pm' sp'' hpm' hsp''
    rw [hspaces] at hsp''
    split_ifs at hsp'' with h
    · cases hsp''
      subst h
      rw [h1,h2]
      exact (hg.sound pm' sp hpm' hsp).alike a
    · exact (hg.sound pm' sp'' hpm' hsp'').alike a
  · intro ksp hk
    rw [hspaces] at hk
    split_ifs at hk with h
    · cases hk
      rw [h1,h2]
      exact (hg.kernel sp (h ▸ hsp)).alike a
    · exact (hg.kernel ksp hk).alike a
  · refine ⟨hg.fresh.1,fun pm' hle => ?_⟩
    rw [hspaces,if_neg]
    · exact hg.fresh.2 pm' hle
    · rintro rfl
      have := hg.fresh.2 _ hle
      simp [hsp] at this

theorem Good.place {key : Nat} {e : Pte} {o : Option Nat} {r : MappedRange} (hg : Good vm own)
    (hsp : vm.spaces pm = some sp) (hk : half pm key = pm ∧ key < 2 ^ 36)
    (hnp : (vm.entry pm key).present = false) (hl : Linked vm' (own.set pm key o))
    (hen : ∀ pm' key', vm'.entry pm' key' =
      if half pm' key' = half pm key ∧ key' = key then e else vm.entry pm' key')
    (hlink : ∀ q a b, vm.chains.link q = some (.range a b) →
      vm'.chains.link q = some (.range a b))
    (hreg : vm'.regions = vm.regions) (hspaces : vm'.spaces = vm.spaces)
    (hnext : vm'.nextPm = vm.nextPm) (hr : r ∈ sp.rangeList) (hc : r.covers (pageAddr key))
    (hfl : e.flags = r.pageFlags)
    (ho : o = some r.id ∨ o = none ∧ r.type ≠ .anonymous ∧ (pm ≠ kernelPm →
      (r.type = .direct ∧ e.pfn = directPfn r (pageAddr key) ∧
        findPage vm.regions e.pfn = some none) ∨
      (r.type = .directVirtual ∧ Mirrors vm (pageKey (r.backing (pageAddr key))) e.pfn))) :
    Good vm' (own.set pm key o) := by
  have mirrors {map pfn : Nat} (h : Mirrors vm map pfn) : Mirrors vm' map pfn := by
    have he : vm'.entry kernelPm map = vm.entry kernelPm map := by
      rw [hen,if_neg]
      rintro ⟨h1,rfl⟩
      have hp := h.present
      rw [hk.1] at h1
      have hpm : pm = kernelPm := by
        rw [← h1,half,if_neg (Nat.not_lt.mpr h.kernel)]
      rw [← hpm,hnp] at hp
      simp at hp
    obtain ⟨id,hid⟩ := h.linked
    exact ⟨h.kernel,by rw [he]; exact h.present,by rw [he]; exact h.same,id,hlink _ _ _ hid⟩
  have other {pm' key' : Nat} (hne : ¬ (pm' = pm ∧ key' = key)) (hh : half pm' key' = pm') :
      vm'.entry pm' key' = vm.entry pm' key' := by
    rw [hen,hh,hk.1,if_neg hne]
  have hset {pm' key' : Nat} (hne : ¬ (pm' = pm ∧ key' = key)) :
      own.set pm key o pm' key' = own pm' key' := if_neg hne
  have hself : own.set pm key o pm key = o := if_pos ⟨rfl,rfl⟩
  have hself' : vm'.entry pm key = e := by rw [hen,if_pos ⟨rfl,rfl⟩]
  refine ⟨hl,?_,?_,?_,by rw [hspaces,hnext]; exact hg.fresh⟩
  · intro pm' key' id hid
    rw [hspaces]
    by_cases hne : pm' = pm ∧ key' = key
    · exact ⟨sp,hne.1 ▸ hsp⟩
    · exact hg.live pm' key' id (hset hne ▸ hid)
  · intro pm' sp' hpm' hsp'
    rw [hspaces] at hsp'
    have h := hg.sound pm' sp' hpm' hsp'
    have haddr {key' : Nat} (hk' : key' < 2 ^ 35) : pageAddr key' = key' * pageSize := if_pos hk'
    refine ⟨h.ranges,h.bound,?_,?_,?_,h.marked⟩
    · intro key' id hid
      by_cases hne : pm' = pm ∧ key' = key
      · obtain ⟨rfl,rfl⟩ := hne
        rw [hself] at hid
        have hk' : key' < 2 ^ 35 := by
          by_contra hge
          rw [half,if_neg hge] at hk
          exact hpm' hk.1.symm
        rcases ho with ho | ⟨ho,_⟩
        · rw [ho] at hid
          cases hid
          rw [hsp] at hsp'
          cases hsp'
          exact ⟨r,hr,rfl,haddr hk' ▸ hc⟩
        · simp [ho] at hid
      · exact h.cover key' id (hset hne ▸ hid)
    · intro key' hk' hp hn
      by_cases hne : pm' = pm ∧ key' = key
      · obtain ⟨rfl,rfl⟩ := hne
        rw [hself] at hn
        rw [hsp] at hsp'
        cases hsp'
        rcases ho with ho | ⟨_,_,ho⟩
        · simp [ho] at hn
        · replace ho := ho hpm'
          rw [haddr hk'] at ho hc
          rw [hself',hreg]
          refine ⟨r,hr,hc,?_⟩
          rcases ho with ho | ⟨ht,hm⟩
          · exact .inl ho
          · exact .inr ⟨ht,mirrors hm⟩
      · rw [other hne (half_user hk')] at hp ⊢
        obtain ⟨x,hx,hv,hd | ⟨ht,hm⟩⟩ := h.foreign key' hk' hp (hset hne ▸ hn)
        · exact ⟨x,hx,hv,.inl (hreg ▸ hd)⟩
        · exact ⟨x,hx,hv,.inr ⟨ht,mirrors hm⟩⟩
    · intro key' hk' hp x hx hv
      by_cases hne : pm' = pm ∧ key' = key
      · obtain ⟨rfl,rfl⟩ := hne
        rw [hsp] at hsp'
        cases hsp'
        rw [hself',hfl]
        rw [haddr hk'] at hc
        rw [h.ranges.eq_of_covers hr hx hc hv]
      · rw [other hne (half_user hk')] at hp ⊢
        exact h.flags key' hk' hp x hx hv
  · intro ksp hks
    rw [hspaces] at hks
    have h := hg.kernel ksp hks
    refine ⟨h.ranges,h.above,h.marked,h.types,?_,?_,?_⟩
    · intro key' id hid
      by_cases hne : kernelPm = pm ∧ key' = key
      · obtain ⟨rfl,rfl⟩ := hne
        rw [hself] at hid
        rcases ho with ho | ⟨ho,_⟩
        · rw [ho] at hid
          cases hid
          rw [hsp] at hks
          cases hks
          exact ⟨r,hr,rfl,hc⟩
        · simp [ho] at hid
      · exact h.cover key' id (hset hne ▸ hid)
    · intro key' hk' hp x hx ht hv
      by_cases hne : kernelPm = pm ∧ key' = key
      · obtain ⟨rfl,rfl⟩ := hne
        rw [hsp] at hks
        cases hks
        obtain rfl := h.ranges.eq_of_covers hx hr hv hc
        rcases ho with ho | ⟨_,hta,_⟩
        · exact hself.trans ho
        · exact absurd ht hta
      · rw [other hne (by rw [half]; split_ifs <;> rfl)] at hp
        rw [hset hne]
        exact h.filled key' hk' hp x hx ht hv
    · intro key' hk'
      rw [other ?_ (half_user hk')]
      · exact h.lower key' hk'
      · rintro ⟨rfl,rfl⟩
        rw [hsp] at hks
        cases hks
        have habove := (h.above r hr).trans hc.1
        have hps : pageSize = 4096 := rfl
        simp only [pageAddr,if_pos hk',hps,kernelBase] at habove
        omega

theorem FaultSafe.grow {vm1 : VM} (hs : FaultSafe vm pm virt) (g : VM.Grows vm vm1) :
    FaultSafe vm1 pm virt where
  placed := hs.placed
  direct hpm r hr := by
    rw [VM.ranges,g.spaces] at hr
    rw [g.regions]
    exact hs.direct hpm r hr
  mirror hpm r hr hc ht := by
    rw [VM.ranges,g.spaces] at hr
    rw [g.entry]
    exact (hs.mirror hpm r hr hc ht).grow g

theorem Good.not_owned (hg : Good vm own) (pm : Nat) {key : Nat} (hnp : (vm.entry pm key).present = false) :
    own pm key = none := by
  cases ho : own pm key with
  | none => rfl
  | some id =>
    have := (hg.linked.owned _ _ _ ho).1
    simp [hnp] at this

theorem fill_links {vm1 vm2 : VM} (pm' id addr : Nat) {key pfn : Nat} (bytes : Nat → UInt8)
    (flags : UInt64) (ha : vm1.allocPage = some (vm2,pfn)) (ht : vm1.hasTable pm key = true) :
    VM.Links vm1 (((vm2.adopt pm' id pfn addr).fill pfn bytes).setEntry pm key ⟨pfn,flags⟩) pm
      key ⟨pfn,flags⟩ pfn (some (.range pm' id)) ⟨false,addr⟩ := by
  obtain ⟨_,rfl⟩ := VM.allocPage_eq ha
  refine ⟨rfl,?_,?_,?_⟩
  · exact fun pm' key' => VM.entry_setEntry _ _ _ _ ht pm' key'
  · intro q
    by_cases hq : q = pfn <;> simp [VM.setEntry,VM.adopt,VM.fill,VM.setPage,hq]
  · intro q
    by_cases hq : q = pfn <;> simp [VM.setEntry,VM.adopt,VM.fill,VM.setPage,hq]

theorem Good.faulted {res : Option Nat} (hg : Good vm own) (hs : FaultSafe vm pm virt)
    {depth : Nat} (h : Faulted depth vm pm virt vm' res) : ∃ own', Good vm' own' := by
  obtain ⟨hh,hk36,haddr,_⟩ := hs.key
  cases h with
  | present h1 _ => exact ⟨own,hg.grow (VM.createTables_grows h1).1⟩
  | unmapped h1 hsp hf =>
    obtain ⟨e1,e2⟩ := addrToRange_ranges _ _ _
    exact ⟨own,(hg.grow (VM.createTables_grows h1).1).setCache hsp e1 e2⟩
  | @filled vm1 vm2 sp owner r pfn bytes h1 hnp hsp hf hty ha =>
    obtain ⟨g,htab⟩ := VM.createTables_grows h1
    have hg1 := hg.grow g
    obtain ⟨rfl,hr,hc⟩ := hg1.found (hs.grow g) hf
    obtain ⟨e1,e2⟩ := addrToRange_ranges sp (vm1.outerRanges pm) virt
    have hgc := hg1.setCache hsp e1 e2
    have hl := fill_links pm r.id (alignDown virt pageSize) bytes r.pageFlags ha htab
    obtain ⟨hfree,hvm2⟩ := VM.allocPage_eq ha
    have hc' : r.covers (pageAddr (pageKey virt)) :=
      haddr ▸ covers_alignDown ((hg1.rangesOk hsp).each r hr) hc
    refine ⟨_,hgc.place (Function.update_self ..) ⟨hh,hk36⟩ hnp
      (hgc.linked.take ⟨hh,hk36⟩ (.inl ⟨hfree,hgc.not_owned pm hnp⟩) hl rfl
        (present_of_flags _ (hg1.marked hsp hr)) (by rw [haddr])) hl.entry ?_ hl.regions
      (by rw [hvm2]; rfl) (by rw [hvm2]; rfl) (e1 ▸ hr) hc' rfl (.inl rfl)⟩
    intro q a b hq
    refine (hl.link q).trans ?_
    rw [if_neg]
    · exact hq
    · rintro rfl
      simp [hfree] at hq
  | @direct vm1 sp owner r h1 hnp hsp hf hty =>
    obtain ⟨g,htab⟩ := VM.createTables_grows h1
    have hg1 := hg.grow g
    obtain ⟨rfl,hr,hc⟩ := hg1.found (hs.grow g) hf
    obtain ⟨e1,e2⟩ := addrToRange_ranges sp (vm1.outerRanges pm) virt
    have hgc := hg1.setCache hsp e1 e2
    have hc' : r.covers (pageAddr (pageKey virt)) :=
      haddr ▸ covers_alignDown ((hg1.rangesOk hsp).each r hr) hc
    have hno := hgc.not_owned pm hnp
    have hset : own.set pm (pageKey virt) none = own := Owning.set_self hno
    have hen := VM.entry_setEntry (vm1.setSpace pm
      (some (sp.addrToRange (vm1.outerRanges pm) virt).1)) pm (pageKey virt)
      (⟨directPfn r (alignDown virt pageSize),r.pageFlags⟩) htab
    have hfp (hpm : pm ≠ kernelPm) :
        findPage vm1.regions (directPfn r (alignDown virt pageSize)) = some none :=
      (hs.grow g).direct hpm r (by simpa [VM.ranges,hsp] using hr) hc hty
    exact ⟨_,hgc.place (o := none) (Function.update_self ..) ⟨hh,hk36⟩ hnp
      (by rw [hset]; exact hgc.linked.setForeign ⟨hh,hk36⟩ hno rfl hen rfl rfl) hen
      (fun _ _ _ hq => hq) rfl rfl rfl (e1 ▸ hr) hc' rfl
      (.inr ⟨rfl,by simp [hty],fun hpm => .inl ⟨hty,by rw [haddr],hfp hpm⟩⟩)⟩
  | @mirrored vm1 sp owner r h1 hnp hsp hf hty hmap =>
    obtain ⟨g,htab⟩ := VM.createTables_grows h1
    have hg1 := hg.grow g
    obtain ⟨rfl,hr,hc⟩ := hg1.found (hs.grow g) hf
    obtain ⟨e1,e2⟩ := addrToRange_ranges sp (vm1.outerRanges pm) virt
    have hgc := hg1.setCache hsp e1 e2
    have hc' : r.covers (pageAddr (pageKey virt)) :=
      haddr ▸ covers_alignDown ((hg1.rangesOk hsp).each r hr) hc
    have hno := hgc.not_owned pm hnp
    have hset : own.set pm (pageKey virt) none = own := Owning.set_self hno
    have hpm := hg1.user hsp hr hty
    have hmir := (hs.grow g).mirror hpm r (by simpa [VM.ranges,hsp] using hr) hc hty
    have hsame : vm1.entry pm (pageKey (r.backing (alignDown virt pageSize))) =
        vm1.entry kernelPm (pageKey (r.backing (alignDown virt pageSize))) := by
      have hge := Nat.not_lt.mpr hmir.kernel
      simp only [VM.entry,VM.hasTable,half,if_neg hge]
    have hen := VM.entry_setEntry (vm1.setSpace pm
      (some (sp.addrToRange (vm1.outerRanges pm) virt).1)) pm (pageKey virt)
      (⟨(vm1.entry pm (pageKey (r.backing (alignDown virt pageSize)))).pfn,r.pageFlags⟩) htab
    refine ⟨_,hgc.place (o := none) (Function.update_self ..) ⟨hh,hk36⟩ hnp
      (by rw [hset]; exact hgc.linked.setForeign ⟨hh,hk36⟩ hno rfl hen rfl rfl) hen
      (fun _ _ _ hq => hq) rfl rfl rfl (e1 ▸ hr) hc' rfl (.inr ⟨rfl,by simp [hty],fun _ => .inr ⟨hty,?_⟩⟩)⟩
    rw [haddr,hsame]
    refine Mirrors.alike ?_ hmir
    exact ⟨rfl,fun _ _ => rfl,fun _ => rfl,fun _ => rfl⟩
  | @nested vm1 _ _ sp owner r _ _ h1 _ hsp hf hty hmap =>
    obtain ⟨g,_⟩ := VM.createTables_grows h1
    obtain ⟨rfl,hr,hc⟩ := (hg.grow g).found (hs.grow g) hf
    have hpm := (hg.grow g).user hsp hr hty
    have hmir := (hs.grow g).mirror hpm r (by simpa [VM.ranges,hsp] using hr) hc hty
    have ht := VM.hasTable_of_present hmir.present
    have hge := Nat.not_lt.mpr hmir.kernel
    simp only [VM.hasTable,half,if_neg hge] at ht hmap
    simp [ht] at hmap
  | @untyped vm1 sp owner r h1 hsp hf hty =>
    obtain ⟨g,_⟩ := VM.createTables_grows h1
    obtain ⟨rfl,hr,_⟩ := (hg.grow g).found (hs.grow g) hf
    exact absurd hty (((hg.grow g).rangesOk hsp).each r hr).typed

end Fault

end SabaOS.Mem
