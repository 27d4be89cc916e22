import SabaOS.Mem.Backing
import SabaOS.Mem.Read

namespace SabaOS.Mem
open SabaOS.Klib SabaOS.Lib

structure Retained (vm vm' : VM) (pm : Nat) : Prop where
  frames : ∀ key, key < 2 ^ 35 → (vm'.entry pm key).present = (vm.entry pm key).present ∧
    ((vm.entry pm key).present = true → (vm'.entry pm key).pfn = (vm.entry pm key).pfn)
  kernel : ∀ key, 2 ^ 35 ≤ key → vm'.entry kernelPm key = vm.entry kernelPm key
  tables : vm'.tables = vm.tables
  frees : vm'.frees = vm.frees
  mem : vm'.mem = vm.mem
  files : vm'.files = vm.files

section Ran

variable {vm vm' : VM} {pm : Nat} {own own' : Owning} {f : Nat → Fate}

theorem Linked.key_user (h : Linked vm own) (hpm : pm ≠ kernelPm) {key id : Nat}
    (ho : own pm key = some id) : key < 2 ^ 35 := by
  by_contra hge
  have := (h.placed _ _ _ ho).1
  rw [half,if_neg hge] at this
  exact hpm this.symm

theorem Ran.freelist (r : Ran vm vm' pm own own' f) (hl : Linked vm own) (hpm : pm ≠ kernelPm)
    (hkeep : ∀ key, key < 2 ^ 35 → (vm.entry pm key).present = true → f key ≠ .drop)
    (hlend : ∀ key, key < 2 ^ 35 → (vm.entry pm key).present = true → own pm key = none →
      f key = .stay) (pfn : Nat) :
    vm'.chains.link pfn = some .freelist ↔ vm.chains.link pfn = some .freelist := by
  constructor
  · intro h
    by_contra hn
    by_cases hp : ∃ id, vm.chains.link pfn = some (.range pm id)
    · obtain ⟨id,hid⟩ := hp
      obtain ⟨key,ho,rfl⟩ := hl.listed pfn pm id hid
      have hk := hl.key_user hpm ho
      have hpr := (hl.owned _ _ _ ho).1
      have hown : ∃ id', own' pm key = some id' ∧
          (vm'.entry pm key).pfn = (vm.entry pm key).pfn := by
        rcases (r.fated key hk).cases with ⟨ha,_⟩ | ⟨_,he,ho'⟩ | ⟨hd,_⟩ | ⟨x,_,_,_,_,hpf,ho'⟩
        · simp [hpr] at ha
        · exact ⟨id,ho'.trans ho,by rw [he]⟩
        · exact absurd hd (hkeep key hk hpr)
        · exact ⟨x.id,ho',hpf (by simp [ho])⟩
      obtain ⟨id',h1,h2⟩ := hown
      have hl' := (r.linked.owned _ _ _ h1).2.1
      simp [h2,h] at hl'
    · exact hn ((r.links pfn hn fun id hid => hp ⟨id,hid⟩).1 ▸ h)
  · intro h
    rcases r.pool pfn (.inl h) with h' | ⟨id,hid⟩
    · exact h'
    · obtain ⟨key,ho,rfl⟩ := r.linked.listed pfn pm id hid
      have hk := r.linked.key_user hpm ho
      have contra {id' : Nat} (h1 : own pm key = some id')
          (h2 : (vm'.entry pm key).pfn = (vm.entry pm key).pfn) : False := by
        have := (hl.owned _ _ _ h1).2.1
        simp [← h2,h] at this
      rcases (r.fated key hk).cases with ⟨_,he,ho'⟩ | ⟨_,he,ho'⟩ | ⟨_,_,_,ho'⟩ | ⟨x,hf,hp,_,_,hpf,_⟩
      · exact (contra (ho'.symm.trans ho) (by rw [he])).elim
      · exact (contra (ho'.symm.trans ho) (by rw [he])).elim
      · simp [ho] at ho'
      · cases hown : own pm key with
        | some id' => exact (contra hown (hpf (by simp [hown]))).elim
        | none =>
          rw [hlend key hk hp hown] at hf
          cases hf

theorem Ran.retained (r : Ran vm vm' pm own own' f) (hl : Linked vm own) (hpm : pm ≠ kernelPm)
    (hkeep : ∀ key, key < 2 ^ 35 → (vm.entry pm key).present = true → f key ≠ .drop)
    (hlend : ∀ key, key < 2 ^ 35 → (vm.entry pm key).present = true → own pm key = none →
      f key = .stay) : Retained vm vm' pm := by
  refine ⟨?_,?_,r.tables,?_,r.mem,r.files⟩
  · intro key hk
    rcases (r.fated key hk).cases with ⟨_,he,_⟩ | ⟨_,he,_⟩ | ⟨hd,hp,_⟩ | ⟨x,hf,hp,hp',_,hpf,_⟩
    · simp [he]
    · simp [he]
    · exact absurd hd (hkeep key hk hp)
    · refine ⟨by rw [hp,hp'],fun _ => hpf fun ho => ?_⟩
      rw [hlend key hk hp ho] at hf
      cases hf
  · exact fun key hk => r.entries kernelPm key fun hc => by omega
  · refine List.Perm.length_eq ((List.perm_ext_iff_of_nodup (vm'.chains.nodup _)
      (vm.chains.nodup _)).mpr fun pfn => ?_)
    rw [vm'.chains.mem_iff,vm.chains.mem_iff]
    exact r.freelist hl hpm hkeep hlend pfn

end Ran

def MappedRange.origin (r : MappedRange) : Origin :=
  ⟨r.type,r.file,r.originalBase,if r.type = .file then r.fileOffset else r.phyBase⟩

def provenance (l : List MappedRange) : Provenance := fun virt =>
  (l.find? fun r => r.covers virt).map MappedRange.origin

theorem tracks_provenance {l : List MappedRange} {n : Nat} (h : RangesOk l n) :
    Tracks l n (provenance l) := by
  refine ⟨h,?_,?_⟩
  · intro r hr v hv
    exact ⟨r.origin,by rw [provenance,find_covers h hr hv]; rfl,rfl,fun _ => ⟨rfl,rfl⟩⟩
  · intro v o ho
    obtain ⟨r,hr,_⟩ := Option.map_eq_some_iff.mp ho
    exact ⟨r,List.mem_of_find?_eq_some hr,by simpa using List.find?_some hr⟩

def SameBacking (l l' : List MappedRange) : Prop :=
  ∀ virt, (∀ r' ∈ l', r'.covers virt → ∃ r ∈ l, r.covers virt ∧ r'.type = r.type ∧
    (r.type ≠ .anonymous → r'.file = r.file ∧ r'.backing (alignDown virt pageSize) =
      r.backing (alignDown virt pageSize))) ∧
  ((∃ r ∈ l, r.covers virt) → ∃ r' ∈ l', r'.covers virt)

theorem sameBacking_of_tracks {l l' : List MappedRange} {n n' : Nat} (h : RangesOk l n)
    (h' : Tracks l' n' (provenance l)) : SameBacking l l' := by
  intro v
  constructor
  · intro r' hr' hv'
    obtain ⟨o,ho,_,_⟩ := h'.backed r' hr' v hv'
    obtain ⟨r,hr,rfl⟩ := Option.map_eq_some_iff.mp ho
    have hrl := List.mem_of_find?_eq_some hr
    have hrv : r.covers v := by simpa using List.find?_some hr
    have hd := covers_alignDown (h.each r hrl) hrv
    have hd' := covers_alignDown (h'.ranges.each r' hr') hv'
    obtain ⟨o,ho,h1,h2⟩ := h'.backed r' hr' _ hd'
    rw [provenance,find_covers h hrl hd] at ho
    cases ho
    exact ⟨r,hrl,hrv,h1,fun hna => h2 (by rw [h1]; exact hna)⟩
  · rintro ⟨r,hr,hv⟩
    exact h'.mapped v r.origin (by rw [provenance,find_covers h hr hv]; rfl)

theorem owner_iff {l : List MappedRange} {nextId virt : Nat} {r : MappedRange}
    (hok : RangesOk l nextId) (hr : r ∈ l) (hv : r.covers virt) :
    (∃ x ∈ l, x.covers virt ∧ (x.type = .anonymous ∨ x.type = .file)) ↔
      r.type = .anonymous ∨ r.type = .file := by
  constructor
  · intro h
    obtain ⟨x,hx,hxv,hxt⟩ := h
    obtain rfl := hok.eq_of_covers hr hx hv hxv
    exact hxt
  · exact fun h => ⟨r,hr,hv,h⟩

section Contents

variable {vm vm' : VM} {own own' : Owning} {pm virt : Nat} {sp sp' : Space}

theorem contents_eq (h : Retained vm vm' pm) (hsp : vm.spaces pm = some sp)
    (hsp' : vm'.spaces pm = some sp') (hok : RangesOk sp.rangeList sp.nextId)
    (hok' : RangesOk sp'.rangeList sp'.nextId) (hb : SameBacking sp.rangeList sp'.rangeList)
    (hv : virt < 2 ^ 47)
    (hm : ∀ r ∈ sp.rangeList, r.covers virt → r.type = .directVirtual →
      (vm.entry pm (pageKey virt)).present = false →
      2 ^ 35 ≤ pageKey (r.backing (alignDown virt pageSize))) :
    vm'.contents pm virt = vm.contents pm virt ∧ vm'.faultCost pm virt = vm.faultCost pm virt := by
  have hps : pageSize = 4096 := rfl
  have hk : pageKey virt < 2 ^ 35 := by
    rw [pageKey_user hv,hps]
    omega
  obtain ⟨h1,h2⟩ := h.frames _ hk
  have htab : vm'.tableCost pm (pageKey virt) = vm.tableCost pm (pageKey virt) := by
    unfold VM.tableCost VM.hasTable
    rw [h.tables]
  simp only [VM.contents,VM.faultCost,h1,h.mem,htab,VM.ranges,hsp,hsp',Option.elim]
  cases hp : (vm.entry pm (pageKey virt)).present with
  | true => simp [h2 hp]
  | false =>
    simp only [Bool.false_eq_true,if_false]
    obtain ⟨hb1,hb2⟩ := hb virt
    by_cases hc : ∃ r ∈ sp.rangeList, r.covers virt
    · obtain ⟨r',hr',hv'⟩ := hb2 hc
      obtain ⟨r,hr,hrv,ht,hbk⟩ := hb1 r' hr' hv'
      simp only [owner_iff hok' hr' hv',owner_iff hok hr hrv,ht,find_covers hok hr hrv,
        find_covers hok' hr' hv',Option.map_some,and_true]
      congr 1
      unfold VM.backingByte
      rw [ht]
      cases hty : r.type with
      | anonymous => rfl
      | file =>
        obtain ⟨b1,b2⟩ := hbk (by simp [hty])
        simp only [h.files,b1,b2]
      | direct =>
        obtain ⟨b1,b2⟩ := hbk (by simp [hty])
        simp only [directPfn,h.mem,b2]
      | directVirtual =>
        obtain ⟨b1,b2⟩ := hbk (by simp [hty])
        simp only [h.mem,b2,h.kernel _ (hm r hr hrv hty hp)]
      | none => rfl
    · have hn : ∀ r ∈ sp.rangeList, ¬ r.covers virt := fun r hr hrv => hc ⟨r,hr,hrv⟩
      have hn' : ∀ r ∈ sp'.rangeList, ¬ r.covers virt := by
        intro r' hr' hv'
        obtain ⟨r,hr,hrv,_⟩ := hb1 r' hr' hv'
        exact hn r hr hrv
      have hf (l : List MappedRange) (hl : ∀ r ∈ l, ¬ r.covers virt) :
          (l.find? fun r => r.covers virt) = none := by
        simpa [List.find?_eq_none] using hl
      have ho (l : List MappedRange) (hl : ∀ r ∈ l, ¬ r.covers virt) :
          ¬ ∃ x ∈ l, x.covers virt ∧ (x.type = .anonymous ∨ x.type = .file) := by
        intro hx
        obtain ⟨x,hx,hxv,_⟩ := hx
        exact hl x hx hxv
      simp only [hf _ hn,hf _ hn',ho _ hn,ho _ hn',if_false]
      exact ⟨rfl,trivial⟩

end Contents

section Flags

variable {kernel : List MappedRange} {sp : Space} {addr length : Nat}

theorem syscallMprotect_flags (prot : Nat) (hok : RangesOk sp.rangeList sp.nextId) (ha : addr % pageSize = 0)
    (hlt : addr + alignUp length pageSize < 2 ^ 64)
    (hk : ∀ r ∈ kernel, ∀ virt, addr ≤ virt → virt < addr + alignUp length pageSize →
      ¬ r.covers virt)
    (hcov : ∀ virt, addr ≤ virt → virt < addr + alignUp length pageSize →
      ∃ r ∈ sp.rangeList, r.covers virt) :
    let out := Space.syscallMprotect kernel sp addr length prot
    out.result = .ok 0 ∧ ∀ virt, ∀ x ∈ out.space.rangeList, x.covers virt →
      (addr ≤ virt ∧ virt < addr + alignUp length pageSize ∧
        x.pageFlags = mmapProtToPageFlags prot) ∨
      (¬ (addr ≤ virt ∧ virt < addr + alignUp length pageSize) ∧
        ∃ r ∈ sp.rangeList, r.covers virt ∧ r.pageFlags = x.pageFlags) := by
  have hda : pageSize ∣ addr := Nat.dvd_of_mod_eq_zero ha
  have hds : pageSize ∣ addr + alignUp length pageSize := Nat.dvd_add hda (alignUp_dvd length)
  unfold Space.syscallMprotect
  simp only [ha,ne_eq,not_true_eq_false,if_false,uadd_of_lt hlt]
  obtain ⟨last,⟨_,_,hle,_,hsub,hfl⟩,_,hres⟩ := protectLoop_rule kernel prot
    (P := fun current l n _ => pageSize ∣ current ∧ addr ≤ current ∧
      current ≤ addr + alignUp length pageSize ∧ RangesOk l n ∧
      (∀ virt, (∃ r ∈ sp.rangeList, r.covers virt) → ∃ x ∈ l, x.covers virt) ∧
      ∀ virt, ∀ x ∈ l, x.covers virt →
        (addr ≤ virt ∧ virt < current ∧ x.pageFlags = mmapProtToPageFlags prot) ∨
        (¬ (addr ≤ virt ∧ virt < current) ∧
          ∃ r ∈ sp.rangeList, r.covers virt ∧ r.pageFlags = x.pageFlags)) hlt
    (fun _ _ _ _ hp => hp.2.2.2.1) (by
      rintro current l n effects r ⟨hdc,hac,_,hl,hsub,hfl⟩ hr hc hs
      have hrok := hl.each r hr
      have hq := protectRequest_ok hrok hc hs hlt prot hdc hds
      have hout := (addRange_outcome hl hq rfl).1
      have hl' := hout.rangesOk hl hq
      have hend := hrok.endAddr_eq
      have hinside (v : Nat) := protectRequest_inside hrok hc hs hlt prot v
      refine ⟨?_,?_,by omega,hl',?_,?_⟩
      · rcases min_choice (r.base + r.length) (addr + alignUp length pageSize) with h | h <;> rw [h]
        · exact Nat.dvd_add hrok.aligned.1 hrok.aligned.2
        · exact hds
      · obtain ⟨c1,c2⟩ := hc
        omega
      · intro v hv
        by_cases hin : (Space.protectRequest r current
            (Space.protectLen r current (addr + alignUp length pageSize)) prot).inside v
        · obtain ⟨y,hy,hyv,_⟩ := (hout.inside hl hq hin).2 hrok.typed
          exact ⟨y,hy,hyv⟩
        · obtain ⟨x,hx,hxv⟩ := hsub v hv
          obtain ⟨y,hy,hyv,_⟩ := (hout.outside hl hq hin).2 x hx hxv
          exact ⟨y,hy,hyv⟩
      · intro v x hx hxv
        by_cases hin : (Space.protectRequest r current
            (Space.protectLen r current (addr + alignUp length pageSize)) prot).inside v
        · obtain ⟨y,hy,hyv,hyt⟩ := (hout.inside hl hq hin).2 hrok.typed
          obtain rfl := hl'.eq_of_covers hx hy hxv hyv
          obtain ⟨i1,i2,i3⟩ := (hinside v).mp hin
          exact .inl ⟨by omega,by omega,hyt.same.2⟩
        · obtain ⟨y,hy,hyv,heir⟩ := (hout.outside hl hq hin).1 x hx hxv
          have hnin := (hinside v).not.mp hin
          obtain ⟨c1,c2⟩ := hc
          rcases hfl v y hy hyv with ⟨f1,f2,f3⟩ | ⟨f1,z,hz,hzv,f2⟩
          · exact .inl ⟨f1,by omega,heir.same.2.1.trans f3⟩
          · exact .inr ⟨by omega,z,hz,hzv,f2.trans heir.same.2.1.symm⟩)
    (alignUp length pageSize + 1) addr sp []
    ⟨hda,le_rfl,by omega,hok,fun _ h => h,fun v x hx hxv => .inr ⟨by omega,x,hx,hxv,rfl⟩⟩
    hk (by omega)
  rcases hres with ⟨hr,hstop⟩ | ⟨_,hlast,hn⟩
  · obtain rfl : last = addr + alignUp length pageSize := by omega
    exact ⟨hr,hfl⟩
  · obtain ⟨x,hx,hxv⟩ := hsub last (hcov last (by omega) hlast)
    exact absurd hxv (hn x hx)

end Flags

structure ReprotectSafe (vm : VM) (pm : Nat) (sp : Space) (addr stop prot : Nat) : Prop where
  borrowed : ∀ key, key < 2 ^ 35 → ∀ r ∈ sp.rangeList, r.covers (key * pageSize) →
    (vm.entry pm key).present = true →
    (∀ id, vm.chains.link (vm.entry pm key).pfn ≠ some (.range pm id)) →
    ¬ ProtectTouched addr stop (mmapProtToPageFlags prot) r (key * pageSize)
  backing : ∀ virt, addr ≤ virt → virt < stop → ∀ r ∈ sp.rangeList, r.covers virt →
    r.Reprotectable addr stop

structure Reprotected (vm vm' : VM) (pm addr stop : Nat) (flags : UInt64) : Prop where
  reads : ∀ virt, virt < 2 ^ 47 →
    ((vm.entry pm (pageKey virt)).present = false → FaultSafe vm pm virt) →
    vm'.read pm virt = vm.read pm virt
  frames : ∀ key, key < 2 ^ 35 → (vm'.entry pm key).present = (vm.entry pm key).present ∧
    ((vm.entry pm key).present = true → (vm'.entry pm key).pfn = (vm.entry pm key).pfn)
  direct : ∀ virt, ∀ r' ∈ vm'.ranges pm, r'.covers virt → ∃ r ∈ vm.ranges pm, r.covers virt ∧
    r'.type = r.type ∧ (r.type = .direct → directPfn r' (alignDown virt pageSize) =
      directPfn r (alignDown virt pageSize)) ∧
    r'.pageFlags = if addr ≤ virt ∧ virt < stop then flags else r.pageFlags
  flags : ∀ key, key < 2 ^ 35 → (vm'.entry pm key).present = true → (vm'.entry pm key).flags =
    if addr ≤ key * pageSize ∧ key * pageSize < stop then flags else (vm.entry pm key).flags

section Mprotect

variable {start vm vm' : VM} {own : Owning} {pm addr length prot : Nat} {sp : Space}

theorem Sound.not_listed {l : List MappedRange} {n key : Nat} (h : Sound vm own pm l n)
    (hl : Linked vm own) (hpm : pm ≠ kernelPm) (hk : key < 2 ^ 35)
    (hp : (vm.entry pm key).present = true) (hn : own pm key = none) (id : Nat) :
    vm.chains.link (vm.entry pm key).pfn ≠ some (.range pm id) := by
  intro hid
  obtain ⟨x,_,_,⟨_,_,hd⟩ | ⟨_,hm⟩⟩ := h.foreign key hk hp hn
  · rw [hl.managed _ (by simp [hid])] at hd
    simp at hd
  · obtain ⟨id',hid'⟩ := hm.linked
    rw [hid] at hid'
    cases hid'
    exact hpm rfl

theorem ReprotectSafe.stays {f : Nat → Fate} {own' : Owning} {l : List MappedRange}
    {n last key : Nat} {vm1 : VM}
    (hs : ReprotectSafe vm pm sp addr (addr + alignUp length pageSize) prot)
    (h : Sound vm own pm sp.rangeList sp.nextId) (hl : Linked vm own) (hpm : pm ≠ kernelPm)
    (hp : Protecting vm vm1 pm own own' f sp.rangeList l n addr (addr + alignUp length pageSize)
      last (mmapProtToPageFlags prot))
    (hk : key < 2 ^ 35) (hpr : (vm.entry pm key).present = true) (hn : own pm key = none) :
    f key = .stay := by
  by_contra hf
  obtain ⟨x,hx,hxv,hd⟩ := h.foreign key hk hpr hn
  refine hs.borrowed key hk x hx hxv hpr (h.not_listed hl hpm hk hpr hn)
    (hp.touched key hk hpr hf x hx hxv fun ha => ?_)
  rcases hd with ⟨ht,_⟩ | ⟨ht,_⟩ <;> simp [ha] at ht

theorem mprotect_reprotects (hg : Good vm own) (hpm : pm ≠ kernelPm)
    (hsp : vm.spaces pm = some sp) (ha : addr % pageSize = 0)
    (hb : addr + alignUp length pageSize ≤ 2 ^ 47)
    (hcov : ∀ virt, addr ≤ virt → virt < addr + alignUp length pageSize →
      ∃ r ∈ sp.rangeList, r.covers virt)
    (hs : ReprotectSafe vm pm sp addr (addr + alignUp length pageSize) prot)
    (hr : vm.syscall pm (.mprotect addr length prot) = some vm') :
    Reprotected vm vm' pm addr (addr + alignUp length pageSize) (mmapProtToPageFlags prot) := by
  have h := hg.sound pm sp hpm hsp
  have hout := hg.outer hpm
  have hlt : addr + alignUp length pageSize < 2 ^ 64 := by omega
  have hker : ∀ r ∈ vm.outerRanges pm, ∀ virt, addr ≤ virt →
      virt < addr + alignUp length pageSize → ¬ r.covers virt := by
    intro r hr v _ h2 hv
    have h1 := hout r hr
    have h3 := hv.1
    omega
  simp only [VM.syscall,hsp,Space.syscall] at hr
  obtain ⟨vm1,h1,rfl⟩ := Option.map_eq_some_iff.mp hr
  obtain ⟨own',f,last,hp⟩ := mprotect_protecting hg.linked h hpm ha hb hout
    (fun key hk r hr hv _ hpr hn => hs.borrowed key hk r hr hv hpr
      (h.not_listed hg.linked hpm hk hpr hn)) h1
  have hret := hp.ran.retained hg.linked hpm hp.keeps fun key hk hpr hn =>
    hs.stays h hg.linked hpm hp hk hpr hn
  have hg' := hg.ran hpm hsp hp.ran hp.sound
  have hbs : sp.BackingSafe (vm.outerRanges pm) (.mprotect addr length prot) := by
    refine ⟨fun q hq => by simp [Space.callRequest] at hq,fun a b c he _ => ?_⟩
    cases he
    exact ⟨hlt,fun v v1 v2 => ⟨fun r hr => hker r hr v v1 v2,hs.backing v v1 v2⟩⟩
  have hback := sameBacking_of_tracks h.ranges
    (syscallMprotect_tracks (tracks_provenance h.ranges) hbs)
  obtain ⟨_,hfl⟩ := syscallMprotect_flags prot h.ranges ha hlt hker hcov
  generalize Space.syscallMprotect (vm.outerRanges pm) sp addr length prot = out at *
  have hsp' : (vm1.setSpace pm (some out.space)).spaces pm = some out.space :=
    Function.update_self ..
  have hret' : Retained vm (vm1.setSpace pm (some out.space)) pm :=
    ⟨hret.frames,hret.kernel,hret.tables,hret.frees,hret.mem,hret.files⟩
  have hranges : vm.ranges pm = sp.rangeList := by simp [VM.ranges,hsp]
  have hranges' : (vm1.setSpace pm (some out.space)).ranges pm = out.space.rangeList := by
    simp [VM.ranges,hsp']
  have hdirect : ∀ virt, ∀ r' ∈ out.space.rangeList, r'.covers virt → ∃ r ∈ sp.rangeList,
      r.covers virt ∧ r'.type = r.type ∧ (r.type ≠ .anonymous → r'.file = r.file ∧
        r'.backing (alignDown virt pageSize) = r.backing (alignDown virt pageSize)) ∧
      r'.pageFlags = if addr ≤ virt ∧ virt < addr + alignUp length pageSize then
        mmapProtToPageFlags prot else r.pageFlags := by
    intro v r' hr' hv'
    obtain ⟨r,hr,hv,ht,hb⟩ := (hback v).1 r' hr' hv'
    refine ⟨r,hr,hv,ht,hb,?_⟩
    rcases hfl v r' hr' hv' with ⟨f1,f2,f3⟩ | ⟨f1,x,hx,hxv,f2⟩
    · rw [if_pos ⟨f1,f2⟩,f3]
    · rw [if_neg f1,h.ranges.eq_of_covers hr hx hv hxv,f2]
  refine ⟨?_,hret'.frames,?_,?_⟩
  · intro v hv hsafe
    have hsafe' : ((vm1.setSpace pm (some out.space)).entry pm (pageKey v)).present = false →
        FaultSafe (vm1.setSpace pm (some out.space)) pm v := by
      intro hnp
      have hk : pageKey v < 2 ^ 35 := by
        have hps : pageSize = 4096 := rfl
        rw [pageKey_user hv,hps]
        omega
      obtain ⟨s1,s2,s3⟩ := hsafe ((hret'.frames _ hk).1 ▸ hnp)
      rw [hranges] at s2 s3
      refine ⟨s1,?_,?_⟩
      · intro _ r' hr' hv' ht
        obtain ⟨r,hr,hrv,hrt,hrb,_⟩ := hdirect v r' (hranges' ▸ hr') hv'
        rw [hrt] at ht
        have := s2 hpm r hr hrv ht
        rw [directPfn,(hrb (by simp [ht])).2]
        exact hp.ran.regions ▸ this
      · intro _ r' hr' hv' ht
        obtain ⟨r,hr,hrv,hrt,hrb,_⟩ := hdirect v r' (hranges' ▸ hr') hv'
        rw [hrt] at ht
        have hm := s3 hpm r hr hrv ht
        rw [(hrb (by simp [ht])).2]
        have he := hret'.kernel _ hm.kernel
        rw [he]
        refine Mirrors.alike ?_ (hm.ran hpm hp.ran)
        exact ⟨rfl,fun _ _ => rfl,fun _ => rfl,fun _ => rfl⟩
    obtain ⟨e1,e2⟩ := contents_eq hret' hsp hsp' h.ranges hp.sound.ranges hback hv
      fun r hr hrv ht hnp => ((hsafe hnp).mirror hpm r (hranges ▸ hr) hrv ht).kernel
    rw [read_eq hg' hsp' hpm hv hsafe',read_eq hg hsp hpm hv hsafe,e1,e2,hret'.frees]
  · intro v r' hr' hv'
    obtain ⟨r,hr,hv,ht,hb,hfl'⟩ := hdirect v r' (hranges' ▸ hr') hv'
    refine ⟨r,hranges ▸ hr,hv,ht,fun htd => ?_,hfl'⟩
    rw [directPfn,directPfn,(hb (by simp [htd])).2]
  · intro key hk hpr
    obtain ⟨r',hr',hv'⟩ := hp.sound.present_covered hk hpr
    obtain ⟨r,hr,hv,_,_,hfl'⟩ := hdirect _ r' hr' hv'
    have hpr0 : (vm.entry pm key).present = true := (hret'.frames key hk).1 ▸ hpr
    have e1 := hp.sound.flags key hk hpr r' hr' hv'
    have e2 := h.flags key hk hpr0 r hr hv
    rw [e2,← hfl']
    exact e1

theorem mprotect_nothing (hsp : vm.spaces pm = some sp) (ha : addr % pageSize = 0)
    (h0 : alignUp length pageSize = 0)
    (hr : vm.syscall pm (.mprotect addr length prot) = some vm') : vm' = vm := by
  have hle : ¬ addr < uadd addr 0 := by
    have := Nat.mod_le (addr + 0) (2 ^ 64)
    simp only [uadd]
    omega
  simp only [VM.syscall,hsp,Space.syscall,Space.syscallMprotect,ha,h0,ne_eq,not_true_eq_false,
    if_false,Space.protectLoop,hle,VM.runEffects,Option.map_some,Option.some.injEq] at hr
  rw [← hr,VM.setSpace,← hsp,Function.update_eq_self]

end Mprotect

def pageSpace : Space := (pageFilled.spaces 1).get (by decide +kernel)

def pageReadOnly : VM :=
  (pageFilled.syscall 1 (.mprotect 0x10000 0x1000 1)).get (by decide +kernel)

theorem pageSpace_range : ∀ r ∈ pageSpace.rangeList,
    r.base = 0x10000 ∧ r.endAddr = 0x11000 ∧ r.type = .anonymous := by
  decide +kernel

def framebufferFile : FileDescription := ⟨4,true,true,.framebuffer 0x100000⟩

def mapFramebuffer : Call :=
  .mmap 0x10000 0x1000 3 (mapShared ||| mapFixed) (some framebufferFile) 0

def screenMapped : VM := (oneProcess.step (.call 1 mapFramebuffer)).get (by decide +kernel)

def pixelWritten : VM := (screenMapped.step (.write 1 0x10000 7)).get (by decide +kernel)

def pixelLost : VM :=
  (pixelWritten.syscall 1 (.mprotect 0x10000 0x1000 1)).get (by decide +kernel)

theorem pixelWritten_reached : Relation.ReflTransGen SafeStep smallMachine pixelWritten := by
  refine (oneProcess_reached.tail ⟨.call 1 mapFramebuffer,⟨by decide,?_⟩,
    (Option.some_get _).symm⟩).tail ⟨.write 1 0x10000 7,fun _ => ⟨.inl ⟨by decide,by decide⟩,?_,?_⟩,
    (Option.some_get _).symm⟩
  · exact callSafe_unmirrored (directRequest 0x10000 0x1000
      (mmapProtToPageFlags 3 ||| pageWriteCombining) 0x100000) (by decide +kernel) ⟨by decide,by decide⟩ (by decide) fun _ => rfl
  · intro _
    decide +kernel
  · intro _ r hr _ ht
    have : ∀ r ∈ screenMapped.ranges 1, r.type = .direct := by decide +kernel
    simp [this r hr] at ht

end SabaOS.Mem
