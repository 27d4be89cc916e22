import SabaOS.Mem.Read

namespace SabaOS.Mem
open SabaOS.Klib SabaOS.Lib

def Call.freshByte (vm : VM) : Call → Nat → UInt8
  | .mmap addr _ _ flags (some fd) offset, virt =>
      if flagSet flags mapAnonymous then 0
      else vm.files fd.id (uadd (alignDown virt pageSize - addr) offset + virt % pageSize)
  | _, _ => 0

section Request

variable {sp : Space} {addr length prot flags offset : Nat} {fd : Option FileDescription}
  {q : Request}

theorem mmap_fixed_request (hfix : flagSet flags mapFixed = true)
    (hq : sp.callRequest (.mmap addr length prot flags fd offset) = some q) :
    q.base = addr ∧ q.length = alignUp length pageSize ∧ q.keepPages = false ∧
    (q.type = .anonymous → flagSet flags mapAnonymous = true) ∧
    (q.type = .file → flagSet flags mapAnonymous = false ∧
      ∃ d, fd = some d ∧ q.file = some d.id ∧ q.fileOffset = offset) := by
  simp only [Space.callRequest,Space.placeMmap,hfix,if_true] at hq
  split_ifs at hq
  unfold Space.mmapRequest at hq
  by_cases hanon : flagSet flags mapAnonymous = true
  · simp only [hanon,if_true,Except.toOption,Option.some.injEq] at hq
    subst hq
    exact ⟨rfl,rfl,by simp [anonymousRequest,hfix],fun _ => hanon,by simp [anonymousRequest]⟩
  · simp only [hanon,Bool.false_eq_true,if_false] at hq
    cases fd with
    | none => simp [Except.toOption] at hq
    | some d =>
      simp only at hq
      split_ifs at hq
      · simp [Except.toOption] at hq
      · simp [Except.toOption] at hq
      · unfold FileDescription.mmap at hq
        have hfile : fileRequest addr (alignUp length pageSize) (mmapProtToPageFlags prot) d.id
            offset = q → q.base = addr ∧ q.length = alignUp length pageSize ∧
            q.keepPages = false ∧ (q.type = .anonymous → flagSet flags mapAnonymous = true) ∧
            (q.type = .file → flagSet flags mapAnonymous = false ∧
              ∃ d', some d = some d' ∧ q.file = some d'.id ∧ q.fileOffset = offset) := by
          rintro rfl
          exact ⟨rfl,rfl,rfl,by simp [fileRequest],fun _ => ⟨by simpa using hanon,d,rfl,rfl,rfl⟩⟩
        cases hv : d.vnode with
        | tmpfs => exact hfile (by simpa [hv,Except.toOption] using hq)
        | memfd address =>
          simp only [hv] at hq
          split_ifs at hq
          · simp only [Except.toOption,Option.some.injEq] at hq
            subst hq
            exact ⟨rfl,rfl,rfl,by simp [mirrorRequest],by simp [mirrorRequest]⟩
          · exact hfile (by simpa [Except.toOption] using hq)
          · simp [Except.toOption] at hq
        | framebuffer phy =>
          simp only [hv,Except.toOption,Option.some.injEq] at hq
          subst hq
          exact ⟨rfl,rfl,rfl,by simp [directRequest],by simp [directRequest]⟩
        | other => simp [hv,Except.toOption] at hq

end Request

def Replaces (vm : VM) (pm : Nat) (sp : Space) (c : Call) (q : Request) : Prop :=
  ∀ key, key < 2 ^ 35 → q.inside (key * pageSize) → (vm.entry pm key).present = true →
    ∀ r ∈ sp.rangeList, r.covers (key * pageSize) → q.swallows r ∨
    ∀ i, i < pageSize → vm.mem (vm.entry pm key).pfn i = c.freshByte vm (key * pageSize + i)

def CutsNoWindow (vm : VM) (pm : Nat) (sp : Space) (q : Request) : Prop :=
  ∀ key, key < 2 ^ 35 → q.inside (key * pageSize) → (vm.entry pm key).present = true →
    ∀ r ∈ sp.rangeList, r.covers (key * pageSize) → r.type = .direct → q.swallows r

structure Fresh (vm vm' : VM) (pm : Nat) (c : Call) (q : Request) : Prop where
  reads : ∀ virt, q.inside virt → ∀ byte, vm'.read pm virt = some byte →
    byte = some (c.freshByte vm virt)
  returns : ∀ virt, q.inside virt → 4 ≤ vm'.frees → (vm'.read pm virt).isSome

section Fixed

variable {start vm vm' : VM} {own own' : Owning} {pm : Nat} {sp : Space} {q : Request}
  {addr length prot flags offset : Nat} {fd : Option FileDescription}

inductive FixedPage (vm vm' : VM) (pm : Nat) (sp : Space) (q : Request) (key : Nat) : Prop
  | dropped : (vm'.entry pm key).present = false →
      ((vm.entry pm key).present = true → ∀ r ∈ sp.rangeList, r.covers (key * pageSize) →
        q.swallows r) → FixedPage vm vm' pm sp q key
  | left {r : MappedRange} : (vm.entry pm key).present = true →
      (vm'.entry pm key).present = true → (vm'.entry pm key).pfn = (vm.entry pm key).pfn →
      r ∈ sp.rangeList → r.covers (key * pageSize) → ¬ q.swallows r → FixedPage vm vm' pm sp q key

theorem Request.Ok.inside_page {key i : Nat} (hq : q.Ok) (hin : q.inside (key * pageSize))
    (hi : i < pageSize) : q.inside (key * pageSize + i) := by
  obtain ⟨_,n,hn⟩ := hq.aligned
  obtain ⟨b,hb⟩ := hq.aligned.1
  obtain ⟨i1,i2⟩ := hin
  have hps : pageSize = 4096 := rfl
  unfold Request.inside
  rw [hps] at hn hb i1 i2 hi ⊢
  omega

theorem Request.Ok.place {virt : Nat} (hq : q.Ok) (hqb : q.base + q.length ≤ 2 ^ 47)
    (hin : q.inside virt) : pageKey virt < 2 ^ 35 ∧ q.inside (pageKey virt * pageSize) ∧
      pageKey virt * pageSize + virt % pageSize = virt := by
  obtain ⟨a1,a2⟩ := hq.aligned
  obtain ⟨i1,i2⟩ := hin
  have hps : pageSize = 4096 := rfl
  rw [pageKey_user (show virt < 2 ^ 47 by omega)]
  rw [hps] at a1 a2 ⊢
  exact ⟨by omega,⟨by omega,by omega⟩,by omega⟩

theorem read_present {key virt : Nat} (hv : pageKey virt = key)
    (hp : (vm.entry pm key).present = true) :
    vm.read pm virt = some (some (vm.mem (vm.entry pm key).pfn (virt % pageSize))) := by
  subst hv
  rw [VM.read,VM.access,if_pos hp]
  rfl

theorem fixed_page (h : Sound vm own pm sp.rangeList sp.nextId) (hq : q.Ok)
    (hres : q.resolveOverlap = true) (hkeep : q.keepPages = false) (hty : q.type ≠ .none)
    (hm : Unmirrored vm own pm sp.rangeList (Touched q)) (hcut : CutsNoWindow vm pm sp q)
    (r : Ran vm vm' pm own own' fun key => fates key (addRange q sp.rangeList sp.nextId).1.effects)
    {key : Nat} (hk : key < 2 ^ 35) (hin : q.inside (key * pageSize)) :
    FixedPage vm vm' pm sp q key := by
  have hout := (addRange_outcome h.ranges hq hres).1
  have hexact (x : MappedRange) : ¬ Exact q x := fun he => by simpa [hkeep] using he.1
  have fate {x : MappedRange} (hx : x ∈ sp.rangeList) (hv : x.covers (key * pageSize)) :
      (q.swallows x ∧ fates key (addRange q sp.rangeList sp.nextId).1.effects = .drop) ∨
      (¬ q.swallows x ∧ ∃ y, fates key (addRange q sp.rangeList sp.nextId).1.effects =
        .relink y) := by
    have hf := hout.fate h.ranges hq hx hv
    generalize fates key (addRange q sp.rangeList sp.nextId).1.effects = f at hf
    cases hf with
    | stay _ _ _ hnt => exact absurd (.inl ⟨hin,fun he => hexact x he.1⟩) hnt
    | drop _ hd =>
      rcases hd with ⟨hw,_⟩ | hn
      · exact .inl ⟨hw,rfl⟩
      · exact absurd hn hty
    | split _ _ _ hnin => exact absurd hin hnin
    | moved _ _ _ _ _ hw => exact .inr ⟨fun hs => hexact x (hw hs),_,rfl⟩
  rcases (r.fated key hk).cases with ⟨ha,he,_⟩ | ⟨hs,he,_⟩ | ⟨hd,hp,he,_⟩ | ⟨y,hf,hp,hp',_,hsame,_⟩
  · exact .dropped (by rw [he]; exact ha) fun hp => by simp [ha] at hp
  · have hnp : (vm.entry pm key).present = false := by
      rw [Bool.eq_false_iff]
      intro hp
      obtain ⟨x,hx,hxv⟩ := h.present_covered hk hp
      rcases fate hx hxv with ⟨_,hf⟩ | ⟨_,y,hf⟩ <;> simp [hs] at hf
    exact .dropped (by rw [he]; exact hnp) fun hp => by simp [hnp] at hp
  · refine .dropped (by rw [he]; rfl) fun _ x hx hxv => ?_
    rcases fate hx hxv with ⟨hw,_⟩ | ⟨_,y,hf⟩
    · exact hw
    · simp [hd] at hf
  · obtain ⟨x,hx,hxv⟩ := h.present_covered hk hp
    have hns : ¬ q.swallows x := by
      rcases fate hx hxv with ⟨_,hd⟩ | ⟨hns,_⟩
      · simp [hd] at hf
      · exact hns
    refine .left hp hp' (hsame fun ho => ?_) hx hxv hns
    obtain ⟨z,hz,hzv,⟨hzt,_⟩ | ⟨hzt,_⟩⟩ := h.foreign key hk hp ho
    · rw [h.ranges.eq_of_covers hz hx hzv hxv] at hzt
      exact hns (hcut key hk hin hp x hx hxv hzt)
    · exact hm key hk z hz hzv hzt hp ho (.inl ⟨hin,fun he => hexact z he.1⟩)

theorem fixed_absent_read (hpm : pm ≠ kernelPm) {sp' : Space} (hg' : Good vm' own')
    (hsp' : vm'.spaces pm = some sp') (hfiles : vm'.files = vm.files) (hqok : q.Ok)
    (hqb : q.base + q.length ≤ 2 ^ 47) (hfix : flagSet flags mapFixed = true)
    (hq : sp.callRequest (.mmap addr length prot flags fd offset) = some q)
    (hty : q.type = .anonymous ∨ q.type = .file) {virt : Nat} (hin : q.inside virt)
    {x : MappedRange} (hx : x ∈ sp'.rangeList) (hxv : x.covers virt)
    (htg : Target q sp.rangeList sp.nextId x)
    (hnp : (vm'.entry pm (pageKey virt)).present = false) :
    vm'.read pm virt = if vm'.faultCost pm virt ≤ vm'.frees then
      some (some ((Call.mmap addr length prot flags fd offset).freshByte vm virt)) else none := by
  obtain ⟨hbase,_,hkeep,hanon,hfile⟩ := mmap_fixed_request hfix hq
  have hv47 : virt < 2 ^ 47 := by
    have := hin.2
    omega
  have hranges : vm'.ranges pm = sp'.rangeList := by simp [VM.ranges,hsp']
  have hok' := (hg'.sound pm sp' hpm hsp').ranges
  have hxt : x.type = .anonymous ∨ x.type = .file := by
    rw [htg.same.1]
    exact hty
  have hsafe := hg'.faultSafe_private hpm hsp' hx hxt hv47 hxv
  rw [read_eq hg' hsp' hpm hv47 fun _ => hsafe]
  suffices hc : vm'.contents pm virt =
      some ((Call.mmap addr length prot flags fd offset).freshByte vm virt) by rw [hc]
  rw [VM.contents,hnp,hranges,find_covers hok' hx hxv]
  simp only [Bool.false_eq_true,if_false,Option.map_some,Option.some.injEq]
  unfold VM.backingByte
  rcases hty with hqt | hqt
  · have hxa : x.type = .anonymous := htg.same.1.trans hqt
    rw [hxa]
    cases fd with
    | none => rfl
    | some d => simp [Call.freshByte,hanon hqt]
  · have hxf : x.type = .file := htg.same.1.trans hqt
    obtain ⟨hna,d,rfl,hqf,hqo⟩ := hfile hqt
    rw [hxf]
    cases htg with
    | kept _ he => simpa [hkeep] using he.1
    | merged _ _ _ ha => simp [ha] at hqt
    | new =>
      simp only [Call.freshByte,hna,rangeOf,MappedRange.backing,hqt,hqf,hqo,hbase,
        Bool.false_eq_true,if_false,if_true,Option.getD_some]
      have hdown : addr ≤ alignDown virt pageSize ∧ alignDown virt pageSize ≤ virt := by
        have hps : pageSize = 4096 := rfl
        have hal := hqok.aligned.1
        have hin1 := hin.1
        rw [hbase,hps] at hal
        rw [hbase] at hin1
        simp only [alignDown,hps]
        split_ifs <;> omega
      rw [usub_of_le (by omega) hdown.1]
      exact congrFun (congrFun hfiles d.id) _

end Fixed

def mapTwoPages (addr : Nat) : Call :=
  .mmap addr 0x2000 3 (mapPrivate ||| mapFixed ||| mapAnonymous) none 0

def twoPages : VM := (oneProcess.step (.call 1 (mapTwoPages 0x10000))).get (by decide +kernel)

def secondWritten : VM := (twoPages.step (.write 1 0x11000 9)).get (by decide +kernel)

def wholeReplaced : VM := (secondWritten.syscall 1 (mapTwoPages 0x10000)).get (by decide +kernel)

def halfReplaced : VM := (secondWritten.syscall 1 (mapTwoPages 0x11000)).get (by decide +kernel)

theorem secondWritten_reached : Relation.ReflTransGen SafeStep smallMachine secondWritten := by
  refine (oneProcess_reached.tail ⟨.call 1 (mapTwoPages 0x10000),⟨by decide,?_⟩,
    (Option.some_get _).symm⟩).tail ⟨.write 1 0x11000 9,fun _ => ⟨.inl ⟨by decide,by decide⟩,?_,?_⟩,
    (Option.some_get _).symm⟩
  · exact callSafe_unmirrored
      (anonymousRequest 0x10000 0x2000 (mmapProtToPageFlags 3) false) (by decide +kernel) ⟨by decide,by decide⟩ (by decide) fun _ => rfl
  · intro _ r hr _ ht
    have : ∀ r ∈ twoPages.ranges 1, r.type = .anonymous := by decide +kernel
    simp [this r hr] at ht
  · intro _ r hr _ ht
    have : ∀ r ∈ twoPages.ranges 1, r.type = .anonymous := by decide +kernel
    simp [this r hr] at ht

end SabaOS.Mem
