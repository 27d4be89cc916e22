import Mathlib.Logic.Relation
import SabaOS.Mem.Fork

namespace SabaOS.Mem

section Reach

open SabaOS.Klib SabaOS.Lib

structure Booted (vm : VM) : Prop where
  alone : kernelPm < vm.nextPm ∧ ∀ pm, pm ≠ kernelPm → vm.spaces pm = none
  unlisted : ∀ pfn pm id, vm.chains.link pfn ≠ some (.range pm id)
  free : ∀ pfn, (vm.pages pfn).free = true ↔ vm.chains.link pfn = some .freelist
  managed : ∀ pfn, vm.chains.link pfn ≠ none → findPage vm.regions pfn = some (some pfn)
  ranges : ∀ sp, vm.spaces kernelPm = some sp → RangesOk sp.rangeList sp.nextId
  kernel : ∀ r ∈ vm.ranges kernelPm, kernelBase ≤ r.base ∧ r.pageFlags &&& pagePresent ≠ 0 ∧
    (r.type = .anonymous ∨ r.type = .direct)
  unfilled : ∀ r ∈ vm.ranges kernelPm, r.type = .anonymous → ∀ key, key < 2 ^ 36 →
    r.covers (pageAddr key) → (vm.entry kernelPm key).present = false
  lower : ∀ key, key < 2 ^ 35 → (vm.entry kernelPm key).present = false

def VM.faultPm (pm virt : Nat) : Nat := if virt ≥ kernelBase then kernelPm else pm

def StepSafe (vm : VM) : Op → Prop
  | .call pm c => pm ≠ kernelPm ∧ ∀ sp, vm.spaces pm = some sp → CallSafe vm pm sp c
  | .fault pm virt => FaultSafe vm (VM.faultPm pm virt) virt
  | .write pm virt _ => (vm.entry pm (pageKey virt)).present = false →
      FaultSafe vm (VM.faultPm pm virt) virt
  | .fork pm => pm ≠ kernelPm
  | .create _ _ => True
  | .destroy pm => pm ≠ kernelPm ∧ vm.lent pm = []
  | .reuse _ => vm.lost = []

def SafeStep (vm vm' : VM) : Prop := ∃ op, StepSafe vm op ∧ vm.step op = some vm'

section Step

variable {vm vm' start : VM} {own : Owning} {pm virt : Nat}

theorem Booted.good (h : Booted vm) : Good vm fun _ _ => none := by
  refine ⟨⟨by simp,by simp,?_,h.free,h.managed⟩,by simp,?_,?_,h.alone.1,?_⟩
  · exact fun pfn pm id hl => absurd hl (h.unlisted pfn pm id)
  · intro pm sp hpm hsp
    simp [h.alone.2 pm hpm] at hsp
  · intro sp hsp
    have hk := h.kernel
    have hu := h.unfilled
    simp only [VM.ranges,hsp,Option.elim] at hk hu
    refine ⟨h.ranges sp hsp,fun r hr => (hk r hr).1,fun r hr => (hk r hr).2.1,
      fun r hr => (hk r hr).2.2,by simp,?_,h.lower⟩
    intro key hlt hp r hr ht hv
    simp [hu r hr ht key hlt hv] at hp
  · intro pm hle
    exact h.alone.2 pm (by have := h.alone.1; omega)

theorem Good.pageFault {res : Option Nat} (hg : Good vm own)
    (hs : FaultSafe vm (VM.faultPm pm virt) virt) (h : vm.pageFault pm virt = some (vm',res)) :
    ∃ own', Good vm' own' :=
  hg.faulted hs (handlePageFault_faulted 63 h)

theorem Good.write {byte : UInt8} (hg : Good vm own)
    (hs : (vm.entry pm (pageKey virt)).present = false → FaultSafe vm (VM.faultPm pm virt) virt)
    (h : vm.write pm virt byte = some vm') : ∃ own', Good vm' own' := by
  obtain ⟨⟨vm1,res⟩,ha,rfl⟩ := Option.map_eq_some_iff.mp h
  have hg1 : ∃ own1, Good vm1 own1 := by
    unfold VM.access at ha
    dsimp only at ha
    split_ifs at ha with hp
    · cases ha
      exact ⟨own,hg⟩
    · exact hg.pageFault (hs (by simpa using hp)) ha
  obtain ⟨own1,hg1⟩ := hg1
  refine ⟨own1,?_⟩
  cases res with
  | none => exact hg1
  | some pfn =>
    dsimp only
    split_ifs
    · exact hg1
    · refine Good.alike ?_ hg1 rfl rfl
      exact ⟨rfl,fun _ _ => rfl,fun _ => rfl,fun _ => rfl⟩

theorem Good.step {op : Op} (hg : Good vm own) (hs : StepSafe vm op) (h : vm.step op = some vm') :
    ∃ own', Good vm' own' := by
  cases op with
  | call pm c =>
    obtain ⟨hpm,hc⟩ := hs
    cases hsp : vm.spaces pm with
    | none => simp [VM.step,VM.syscall,hsp] at h
    | some sp => exact hg.syscall hpm hsp (hc sp hsp) h
  | fault pm virt =>
    obtain ⟨⟨vm1,res⟩,h1,rfl⟩ := Option.map_eq_some_iff.mp h
    exact hg.pageFault hs h1
  | write pm virt byte => exact hg.write hs h
  | fork pm =>
    obtain ⟨⟨vm1,child⟩,h1,rfl⟩ := Option.map_eq_some_iff.mp h
    cases hsp : vm.spaces pm with
    | none => simp [VM.fork,hsp] at h1
    | some sp =>
      obtain ⟨_,own',c⟩ := fork_copying hg hs hsp h1
      exact ⟨own',c.good⟩
  | create base brk => exact ⟨own,(newPagemap_good hg h).1⟩
  | destroy pm => exact ⟨_,hg.destroy hs.1 h⟩
  | reuse scrap =>
    cases h
    rw [vm.reuse_eq hs]
    exact ⟨own,hg⟩

theorem reach_good (hb : Booted start) (h : Relation.ReflTransGen SafeStep start vm) :
    ∃ own, Good vm own := by
  induction h with
  | refl => exact ⟨_,hb.good⟩
  | tail _ hs ih =>
    obtain ⟨own,hg⟩ := ih
    obtain ⟨op,hsafe,hstep⟩ := hs
    exact hg.step hsafe hstep

end Step

-- The direct windows of the kernel half map every frame of the machine, free ones included.
def VM.ranged (vm : VM) (key : Nat) : Prop :=
  key < 2 ^ 35 ∨ key < 2 ^ 36 ∧
    ∃ r ∈ vm.ranges kernelPm, r.type = .anonymous ∧ r.covers (pageAddr key)

structure FramesOwned (vm : VM) : Prop where
  used : ∀ pm sp key, vm.spaces pm = some sp → vm.ranged key → (vm.entry pm key).present = true →
    (vm.pages (vm.entry pm key).pfn).free = false
  owned : ∀ pm sp r key, vm.spaces pm = some sp → r ∈ sp.rangeList → r.ownsPages →
    key < 2 ^ 36 → r.covers (pageAddr key) → (vm.entry pm key).present = true →
    (vm.pages (vm.entry pm key).pfn).mappedAddr = pageAddr key ∧
    ∀ list, (vm.entry pm key).pfn ∈ vm.chains.lists list ↔ list = .range pm r.id
  listed : ∀ pfn pm id, pfn ∈ vm.chains.lists (.range pm id) → ∃ sp r key,
    vm.spaces pm = some sp ∧ r ∈ sp.rangeList ∧ r.id = id ∧ r.covers (vm.pages pfn).mappedAddr ∧
    (vm.pages pfn).mappedAddr = pageAddr key ∧ (vm.entry pm key).present = true ∧
    (vm.entry pm key).pfn = pfn

section Frames

variable {vm : VM} {own : Owning}

theorem Good.owner_of_covers {pm key : Nat} {sp : Space} {r : MappedRange} (hg : Good vm own)
    (hsp : vm.spaces pm = some sp) (hr : r ∈ sp.rangeList) (ht : r.ownsPages)
    (hk : key < 2 ^ 36) (hv : r.covers (pageAddr key)) (hp : (vm.entry pm key).present = true) :
    own pm key = some r.id := by
  by_cases hpm : pm = kernelPm
  · subst hpm
    have h := hg.kernel sp hsp
    refine h.filled key hk hp r hr ?_ hv
    rcases h.types r hr with h | h
    · exact h
    · rcases ht with ht | ht <;> simp [h] at ht
  · have h := hg.sound pm sp hpm hsp
    have hb := h.bound r hr
    have hlt : key < 2 ^ 35 := by
      by_contra hge
      have hps : pageSize = 4096 := rfl
      have hcov := hv.2
      rw [(h.ranges.each r hr).endAddr_eq,pageAddr,if_neg hge,hps] at hcov
      omega
    rw [pageAddr,if_pos hlt] at hv
    cases ho : own pm key with
    | some id =>
      obtain ⟨x,hx,rfl,hxv⟩ := h.cover key id ho
      rw [h.ranges.eq_of_covers hr hx hv hxv]
    | none =>
      obtain ⟨x,hx,hxv,hd⟩ := h.foreign key hlt hp ho
      obtain rfl := h.ranges.eq_of_covers hr hx hv hxv
      rcases hd with ⟨hd,_⟩ | ⟨hd,_⟩ <;> rcases ht with ht | ht <;> simp [hd] at ht

theorem Good.not_free {pm key : Nat} {sp : Space} (hg : Good vm own)
    (hsp : vm.spaces pm = some sp) (hr : vm.ranged key) (hp : (vm.entry pm key).present = true) :
    (vm.pages (vm.entry pm key).pfn).free = false := by
  have used {pm' id : Nat} (hl : vm.chains.link (vm.entry pm key).pfn = some (.range pm' id)) :
      (vm.pages (vm.entry pm key).pfn).free = false := by
    rw [Bool.eq_false_iff]
    intro hf
    simp [(hg.linked.free _).mp hf] at hl
  by_cases hk : key < 2 ^ 35
  · by_cases hpm : pm = kernelPm
    · subst hpm
      simp [(hg.kernel sp hsp).lower key hk] at hp
    · cases ho : own pm key with
      | some id => exact used (hg.linked.owned _ _ _ ho).2.1
      | none =>
        obtain ⟨x,_,_,⟨_,_,hd⟩ | ⟨_,hm⟩⟩ := (hg.sound pm sp hpm hsp).foreign key hk hp ho
        · rw [Bool.eq_false_iff]
          intro hf
          have hl := (hg.linked.free _).mp hf
          have hm := hg.linked.managed (vm.entry pm key).pfn (by simp [hl])
          simp [hm] at hd
        · obtain ⟨id,hid⟩ := hm.linked
          exact used hid
  · obtain ⟨hk36,r,hr,ht,hv⟩ := hr.resolve_left hk
    have he : vm.entry kernelPm key = vm.entry pm key := by
      simp only [VM.entry,VM.hasTable,half,if_neg hk]
    cases hks : vm.spaces kernelPm with
    | none => simp [VM.ranges,hks] at hr
    | some ksp =>
      have ho := hg.owner_of_covers hks (by simpa [VM.ranges,hks] using hr) (.inl ht) hk36 hv
        (he ▸ hp)
      exact used (he ▸ (hg.linked.owned _ _ _ ho).2.1)

theorem Good.framesOwned (hg : Good vm own) : FramesOwned vm := by
  refine ⟨fun pm sp key => hg.not_free,?_,?_⟩
  · intro pm sp r key hsp hr ht hk hv hp
    obtain ⟨_,hl,ha⟩ := hg.linked.owned _ _ _ (hg.owner_of_covers hsp hr ht hk hv hp)
    refine ⟨ha,fun list => ?_⟩
    rw [vm.chains.mem_iff,hl,Option.some.injEq,eq_comm]
  · intro pfn pm id hm
    obtain ⟨key,ho,rfl⟩ := hg.linked.listed pfn pm id ((vm.chains.mem_iff _ _).mp hm)
    obtain ⟨hp,_,ha⟩ := hg.linked.owned _ _ _ ho
    obtain ⟨hh,hk⟩ := hg.linked.placed _ _ _ ho
    obtain ⟨sp,hsp⟩ := hg.live _ _ _ ho
    have hcover : ∃ r ∈ sp.rangeList, r.id = id ∧ r.covers (pageAddr key) := by
      by_cases hpm : pm = kernelPm
      · subst hpm
        exact (hg.kernel sp hsp).cover key id ho
      · have hlt : key < 2 ^ 35 := by
          by_contra hge
          rw [half,if_neg hge] at hh
          exact hpm hh.symm
        rw [pageAddr,if_pos hlt]
        exact (hg.sound pm sp hpm hsp).cover key id ho
    obtain ⟨r,hr,hid,hv⟩ := hcover
    exact ⟨sp,r,key,hsp,hr,hid,by rw [ha]; exact hv,ha,hp,rfl⟩

theorem frames_owned {start : VM} (hb : Booted start)
    (h : Relation.ReflTransGen SafeStep start vm) : FramesOwned vm := by
  obtain ⟨own,hg⟩ := reach_good hb h
  exact hg.framesOwned

end Frames

def VM.runOps (vm : VM) : List Op → Option VM
  | [] => some vm
  | op :: ops => (vm.step op).bind fun vm => vm.runOps ops

theorem VM.runOps_reaches (ops : List Op) : ∀ vm vm' : VM, vm.runOps ops = some vm' →
    Relation.ReflTransGen (fun vm vm' => ∃ op, VM.step vm op = some vm') vm vm' := by
  induction ops with
  | nil =>
    intro vm vm' h
    cases h
    exact .refl
  | cons op ops ih =>
    intro vm vm' h
    obtain ⟨vm1,h1,h2⟩ := Option.bind_eq_some_iff.mp h
    exact .head ⟨op,h1⟩ (ih vm1 vm' h2)

def memfdWindow : MappedRange := ⟨0,kernelBase,kernelBase,0x1000,3,.anonymous,0,none,0⟩

def smallMachine : VM where
  regions := [⟨0,16⟩]
  pages pfn := ⟨decide (pfn ∈ List.range' 1 15),0⟩
  chains := Chains.only .freelist (List.range' 1 15) List.nodup_range'
  mem _ _ := 0
  files _ offset := UInt8.ofNat (offset / pageSize)
  tables _ := []
  ptes _ _ := Pte.zero
  spaces pm := if pm = kernelPm then some ⟨[memfdWindow],1,none,0,0⟩ else none
  nextPm := 1
  lent _ := []
  lost := []

theorem smallMachine_booted : Booted smallMachine := by
  have hentry (pm key : Nat) : (smallMachine.entry pm key).present = false := by
    simp [VM.entry,VM.hasTable,smallMachine]
    rfl
  refine ⟨⟨by decide,fun pm hpm => if_neg hpm⟩,?_,?_,?_,?_,?_,fun _ _ _ key _ _ => hentry _ key,
    fun key _ => hentry _ key⟩
  · intro pfn pm id
    simp only [smallMachine,Chains.only]
    split_ifs <;> simp
  · intro pfn
    simp only [smallMachine,Chains.only]
    split_ifs with h <;> simp [h]
  · intro pfn h
    have hmem : pfn ∈ List.range' 1 15 := by
      by_contra hn
      exact h (if_neg hn)
    clear h
    revert pfn
    decide
  · intro sp hsp
    cases hsp
    refine ⟨by decide,by decide,?_,?_⟩
    · intro r hr
      obtain rfl := List.mem_singleton.mp hr
      exact ⟨by decide,by decide,by decide⟩
    · intro a ha b hb hne
      obtain rfl := List.mem_singleton.mp ha
      exact absurd (List.mem_singleton.mp hb).symm hne
  · intro r hr
    obtain rfl := List.mem_singleton.mp hr
    decide

def mapPage : Call := .mmap 0x10000 0x1000 3 (mapPrivate ||| mapFixed ||| mapAnonymous) none 0

theorem callSafe_of_request {vm : VM} {pm : Nat} {sp : Space} {c : Call} {q : Request}
    (hq : sp.callRequest c = some q) (hok : q.Ok) (hb : q.base + q.length ≤ 2 ^ 47)
    (h : ∀ r ∈ sp.rangeList, r.type ≠ .directVirtual) : CallSafe vm pm sp c := by
  refine ⟨fun q' hq' => ?_,fun _ _ _ hc => ?_,fun _ _ _ hc => ?_⟩
  · rw [hq] at hq'
    cases hq'
    exact ⟨hok,hb,fun key _ r hr _ ht => absurd ht (h r hr)⟩
  · simp [hc,Space.callRequest] at hq
  · simp [hc,Space.callRequest] at hq

theorem callSafe_unmirrored {vm : VM} {pm : Nat} {c : Call} (q : Request)
    (h : ∀ r ∈ vm.ranges pm, r.type ≠ .directVirtual) (hok : q.Ok)
    (hb : q.base + q.length ≤ 2 ^ 47) (hq : ∀ sp : Space, sp.callRequest c = some q) (sp : Space)
    (hsp : vm.spaces pm = some sp) : CallSafe vm pm sp c :=
  callSafe_of_request (hq sp) hok hb (by simpa [VM.ranges,hsp] using h)

def oneProcess : VM := (smallMachine.step (.create 0x100000000 0)).get (by decide +kernel)

def pageMapped : VM := (oneProcess.step (.call 1 mapPage)).get (by decide +kernel)

def pageFilled : VM := (pageMapped.step (.fault 1 0x10000)).get (by decide +kernel)

theorem oneProcess_reached : Relation.ReflTransGen SafeStep smallMachine oneProcess :=
  .single ⟨.create 0x100000000 0,trivial,(Option.some_get _).symm⟩

theorem pageFilled_reached : Relation.ReflTransGen SafeStep smallMachine pageFilled := by
  refine (oneProcess_reached.tail ⟨.call 1 mapPage,⟨by decide,?_⟩,(Option.some_get _).symm⟩).tail
    ⟨.fault 1 0x10000,⟨.inl ⟨by decide,by decide⟩,?_,?_⟩,(Option.some_get _).symm⟩
  · exact callSafe_unmirrored
      (anonymousRequest 0x10000 0x1000 (mmapProtToPageFlags 3) false) (by decide +kernel) ⟨by decide,by decide⟩ (by decide) fun _ => rfl
  · intro _ r hr _ ht
    have : ∀ r ∈ pageMapped.ranges 1, r.type = .anonymous := by decide +kernel
    simp [this r hr] at ht
  · intro _ r hr _ ht
    have : ∀ r ∈ pageMapped.ranges 1, r.type = .anonymous := by decide +kernel
    simp [this r hr] at ht

theorem frames_owned_filled :
    (pageFilled.entry 1 0x10).present = true ∧ FramesOwned pageFilled :=
  ⟨by decide +kernel,frames_owned smallMachine_booted pageFilled_reached⟩

def memfdFile : FileDescription := ⟨3,true,true,.memfd kernelBase⟩

def unmapMemfd : List Op :=
  [.create 0x100000000 0,.fault kernelPm kernelBase,
    .call 1 (.mmap 0x10000 0x1000 3 (mapShared ||| mapFixed) (some memfdFile) 0),
    .fault 1 0x10000,.call 1 (.munmap 0x10000 0x1000)]

def memfdUnmapped : VM := (smallMachine.runOps unmapMemfd).get (by decide +kernel)

theorem frames_freed_under_memfd : Booted smallMachine ∧
    Relation.ReflTransGen (fun vm vm' => ∃ op, VM.step vm op = some vm') smallMachine
      memfdUnmapped ∧ ¬ FramesOwned memfdUnmapped := by
  refine ⟨smallMachine_booted,VM.runOps_reaches unmapMemfd _ _ (Option.some_get _).symm,?_⟩
  intro h
  have hf := h.used kernelPm ((memfdUnmapped.spaces kernelPm).get (by decide +kernel)) (2 ^ 35)
    (Option.some_get _).symm
    (.inr ⟨by decide,memfdWindow,by decide +kernel,rfl,by decide +kernel⟩) (by decide +kernel)
  revert hf
  decide +kernel

end Reach

section KernelHalf

open SabaOS.Klib SabaOS.Lib

structure KernelKept (vm vm' : VM) : Prop where
  entries : ∀ pm key, 2 ^ 35 ≤ key → vm'.entry pm key = vm.entry pm key
  ranges : vm'.spaces kernelPm = vm.spaces kernelPm
  frames : ∀ pfn list, (∃ id, list = .range kernelPm id) ∨ list = .tables kernelPm →
    pfn ∈ vm.chains.lists list →
    pfn ∈ vm'.chains.lists list ∧ vm'.pages pfn = vm.pages pfn ∧ vm'.mem pfn = vm.mem pfn

def CallsBy (ok : VM → Space → Call → Prop) (pm : Nat) (vm vm' : VM) : Prop :=
  ∃ sp c, vm.spaces pm = some sp ∧ ok vm sp c ∧ vm.syscall pm c = some vm'

section Kept

variable {vm vm' vm'' start : VM} {own : Owning} {pm : Nat} {sp : Space} {c : Call}

theorem KernelKept.refl (vm : VM) : KernelKept vm vm where
  entries _ _ _ := rfl
  ranges := rfl
  frames _ _ _ h := ⟨h,rfl,rfl⟩

theorem KernelKept.trans (h : KernelKept vm vm') (h' : KernelKept vm' vm'') :
    KernelKept vm vm'' where
  entries pm key hk := (h'.entries pm key hk).trans (h.entries pm key hk)
  ranges := h'.ranges.trans h.ranges
  frames pfn list hl hm := by
    obtain ⟨e1,e2,e3⟩ := h.frames pfn list hl hm
    obtain ⟨f1,f2,f3⟩ := h'.frames pfn list hl e1
    exact ⟨f1,f2.trans e2,f3.trans e3⟩

theorem Good.syscall_keeps (hg : Good vm own) (hpm : pm ≠ kernelPm)
    (hsp : vm.spaces pm = some sp) (hc : CallSafe vm pm sp c) (hr : vm.syscall pm c = some vm') :
    KernelKept vm vm' := by
  simp only [VM.syscall,hsp] at hr
  obtain ⟨vm1,h1,rfl⟩ := Option.map_eq_some_iff.mp hr
  obtain ⟨own',f,r,_⟩ := runEffects_sound hg hpm hsp hc h1
  refine ⟨?_,?_,?_⟩
  · intro pm' key hk
    exact r.entries pm' key fun hc => by omega
  · rw [VM.setSpace,r.spaces]
    exact Function.update_of_ne (Ne.symm hpm) ..
  · intro pfn list hl hm
    have hlink := (vm.chains.mem_iff _ _).mp hm
    have hkept : vm1.chains.link pfn = vm.chains.link pfn ∧ vm1.pages pfn = vm.pages pfn := by
      refine r.links pfn ?_ fun id => ?_
      · rcases hl with ⟨_,rfl⟩ | rfl <;> simp [hlink]
      · rcases hl with ⟨_,rfl⟩ | rfl <;> simp [hlink,Ne.symm hpm]
    refine ⟨(vm1.chains.mem_iff _ _).mpr (hkept.1.trans hlink),hkept.2,?_⟩
    exact congrFun r.mem pfn

end Kept

def windowTouched : VM := (oneProcess.step (.fault kernelPm kernelBase)).get (by decide +kernel)

theorem windowTouched_reached : Relation.ReflTransGen SafeStep smallMachine windowTouched :=
  oneProcess_reached.tail ⟨.fault kernelPm kernelBase,
    ⟨.inr ⟨rfl,by decide,by decide⟩,fun h => absurd rfl h,fun h => absurd rfl h⟩,
    (Option.some_get _).symm⟩

def windowUnmapped : VM :=
  (windowTouched.syscall 1 (.munmap kernelBase 0x1000)).get (by decide +kernel)

end KernelHalf

end SabaOS.Mem
