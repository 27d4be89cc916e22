import SabaOS.Mem.Ownership

namespace SabaOS.Mem
open SabaOS.Klib SabaOS.Lib

def ProtectTouched (addr stop : Nat) (flags : UInt64) (r : MappedRange) (virt : Nat) : Prop :=
  (addr ≤ virt ∧ virt < stop ∧ ¬ (addr ≤ r.base ∧ r.endAddr ≤ stop ∧ r.pageFlags = flags)) ∨
  (r.base < addr ∧ stop < r.endAddr ∧ stop ≤ virt)

theorem VM.runEffects_append {vm vm' : VM} {pm : Nat} {a b : List Effect}
    (h : vm.runEffects pm (a ++ b) = some vm') :
    ∃ vm1, vm.runEffects pm a = some vm1 ∧ vm1.runEffects pm b = some vm' := by
  induction a generalizing vm with
  | nil => exact ⟨vm,rfl,h⟩
  | cons e a ih =>
    obtain ⟨vm1,h1,h2⟩ := Option.bind_eq_some_iff.mp h
    obtain ⟨vm2,h3,h4⟩ := ih h2
    exact ⟨vm2,Option.bind_eq_some_iff.mpr ⟨vm1,h1,h3⟩,h4⟩

section Iteration

variable {l : List MappedRange} {n : Nat} {r : MappedRange} {current stop prot : Nat}
  (hl : RangesOk l n) (hr : r ∈ l) (hc : r.covers current) (hs : current < stop)
  (hs' : stop < 2 ^ 64)
include hl hr hc hs hs'

theorem protectRequest_touched {x : MappedRange} {virt : Nat} (hx : x ∈ l) (hv : x.covers virt)
    (ht : Touched (Space.protectRequest r current (Space.protectLen r current stop) prot) x virt) :
    x = r ∧ current ≤ virt ∧
    ((virt < stop ∧ ¬ (r.base = current ∧ r.endAddr ≤ stop ∧
        r.pageFlags = mmapProtToPageFlags prot)) ∨
      (r.base < current ∧ stop < r.endAddr ∧ stop ≤ virt)) := by
  have hrok := hl.each r hr
  have hend := protectRequest_endAddr hrok hc hs hs' prot
  have he := hrok.endAddr_eq
  rcases ht with ⟨hin,hne⟩ | ⟨⟨ho,h1,h2⟩,hge⟩
  · have hxr := hl.eq_of_covers hx hr hv (covers_of_protectRequest hrok hc hs hs' hin)
    obtain ⟨i1,_,i2⟩ := (protectRequest_inside hrok hc hs hs' _ virt).mp hin
    subst hxr
    refine ⟨rfl,i1,.inl ⟨i2,fun hb => hne ⟨⟨rfl,hb.1.symm,?_,rfl⟩,hb.2.2⟩⟩⟩
    rw [hend]
    omega
  · have hxr := hl.eq_of_covers hx hr ⟨h1.le,ho.1⟩ hc
    subst hxr
    rw [hend] at h2 hge
    refine ⟨rfl,by omega,.inr ⟨h1,by omega,by omega⟩⟩

theorem protectRequest_keeps {f : Fate} {x : MappedRange} {virt : Nat} {after : List MappedRange}
    (hx : x ∈ l) (hv : x.covers virt)
    (h : PageFate (Space.protectRequest r current (Space.protectLen r current stop) prot) n after
      virt x f) : f ≠ .drop := by
  have hrok := hl.each r hr
  rintro rfl
  cases h with
  | drop hin hd =>
    rcases hd with ⟨hw,hne⟩ | hn
    · have hxr := hl.eq_of_covers hx hr hv (covers_of_protectRequest hrok hc hs hs' hin)
      subst hxr
      refine hne ⟨rfl,le_antisymm hw.1 hc.1,le_antisymm ?_ hw.2,rfl⟩
      rw [protectRequest_endAddr hrok hc hs hs',hrok.endAddr_eq]
      exact min_le_left _ _
    · exact hrok.typed hn

end Iteration

structure Protecting (vm vm1 : VM) (pm : Nat) (own own1 : Owning) (f : Nat → Fate)
    (l0 l : List MappedRange) (n addr stop current : Nat) (flags : UInt64) : Prop where
  ran : Ran vm vm1 pm own own1 f
  sound : Sound vm1 own1 pm l n
  keeps : ∀ key, key < 2 ^ 35 → (vm.entry pm key).present = true → f key ≠ .drop
  touched : ∀ key, key < 2 ^ 35 → (vm.entry pm key).present = true → f key ≠ .stay → ∀ r ∈ l0,
    r.covers (key * pageSize) → r.type ≠ .anonymous →
    ProtectTouched addr stop flags r (key * pageSize)
  types : ∀ virt, ∀ x ∈ l, x.covers virt → ∃ r ∈ l0, r.covers virt ∧ r.type = x.type
  ahead : (current = addr ∧ l = l0) ∨ ∀ virt, current ≤ virt → virt < stop → ∀ x ∈ l,
    x.covers virt → (x ∈ l0 ∧ current ≤ x.base) ∨ x.type = .anonymous

section Protecting

variable {vm vm1 vm2 : VM} {pm : Nat} {own own1 : Owning} {f : Nat → Fate}
  {l0 l : List MappedRange} {n0 n addr stop current prot : Nat} {r : MappedRange}

theorem Ran.present {g : Nat → Fate} {own' : Owning} {vm' : VM} {key : Nat}
    (h : Ran vm vm' pm own own' g) (hk : key < 2 ^ 35) (hp : (vm.entry pm key).present = true)
    (hd : g key ≠ .drop) : (vm'.entry pm key).present = true := by
  rcases (h.fated key hk).cases with ⟨_,he,_⟩ | ⟨_,he,_⟩ | ⟨hf,_⟩ | ⟨_,_,_,hp',_⟩
  · rwa [he]
  · rwa [he]
  · exact absurd hf hd
  · exact hp'

section Step

variable (h : Protecting vm vm1 pm own own1 f l0 l n addr stop current (mmapProtToPageFlags prot))
  (h0 : RangesOk l0 n0) (hr : r ∈ l) (hc : r.covers current) (hs : current < stop)
  (hs' : stop ≤ 2 ^ 47) (hac : addr ≤ current)
include h h0 hr hc hs hs' hac

theorem Protecting.touches {x r0 : MappedRange} {virt : Nat} (hx : x ∈ l) (hv : x.covers virt)
    (hr0 : r0 ∈ l0) (hv0 : r0.covers virt) (hna : r0.type ≠ .anonymous)
    (ht : Touched (Space.protectRequest r current (Space.protectLen r current stop) prot) x virt) :
    ProtectTouched addr stop (mmapProtToPageFlags prot) r0 virt := by
  obtain ⟨rfl,hcur,ht⟩ := protectRequest_touched h.sound.ranges hr hc hs (by omega) hx hv ht
  obtain ⟨y,hy,hyv,hty⟩ := h.types virt x hx hv
  obtain rfl := h0.eq_of_covers hr0 hy hv0 hyv
  have hbase : x ∈ l0 ∧ (current = addr ∨ current ≤ x.base) := by
    rcases h.ahead with ⟨he,rfl⟩ | ha
    · exact ⟨hx,.inl he⟩
    · rcases ha current le_rfl hs x hx hc with ⟨h1,h2⟩ | h1
      · exact ⟨h1,.inr h2⟩
      · exact absurd (hty.trans h1) hna
  obtain rfl := h0.eq_of_covers hr0 hbase.1 hv0 hv
  have hc1 := hc.1
  rcases ht with ⟨h1,h2⟩ | ⟨h1,h2,h3⟩
  · refine .inl ⟨by omega,h1,fun ⟨a1,a2,a3⟩ => h2 ⟨?_,a2,a3⟩⟩
    rcases hbase.2 with h | h <;> omega
  · refine .inr ⟨?_,h2,h3⟩
    rcases hbase.2 with h | h <;> omega

theorem Protecting.unmirrored
    (hm : Unmirrored vm own pm l0 (ProtectTouched addr stop (mmapProtToPageFlags prot))) :
    Unmirrored vm1 own1 pm l
      (Touched (Space.protectRequest r current (Space.protectLen r current stop) prot)) := by
  intro key hk x hx hv htd hp hn ht
  obtain ⟨r0,hr0,hv0,hty⟩ := h.types _ x hx hv
  have hpt := h.touches h0 hr hc hs hs' hac hx hv hr0 hv0 (by simp [hty,htd]) ht
  rcases (h.ran.fated key hk).cases with ⟨ha,he,_⟩ | ⟨_,he,ho⟩ | ⟨_,_,he,_⟩ | ⟨_,_,_,_,_,_,ho⟩
  · simp [he,ha] at hp
  · rw [he] at hp
    exact hm key hk r0 hr0 hv0 (hty.trans htd) hp (ho ▸ hn) hpt
  · rw [he] at hp
    exact absurd hp (by decide)
  · simp [ho] at hn

theorem Protecting.step (hpm : pm ≠ kernelPm) (hda : pageSize ∣ current) (hds : pageSize ∣ stop)
    (hm : Unmirrored vm own pm l0 (ProtectTouched addr stop (mmapProtToPageFlags prot)))
    (hrun : vm1.runEffects pm (addRange
      (Space.protectRequest r current (Space.protectLen r current stop) prot) l n).1.effects =
        some vm2) :
    let out := addRange (Space.protectRequest r current (Space.protectLen r current stop) prot) l n
    ∃ own2 g, Protecting vm vm2 pm own own2 g l0 out.1.rangeList out.1.nextId addr stop
      (min (r.base + r.length) stop) (mmapProtToPageFlags prot) := by
  have hrok := h.sound.ranges.each r hr
  have hs64 : stop < 2 ^ 64 := by omega
  have hq := protectRequest_ok hrok hc hs hs64 prot hda hds
  have hqb : current + Space.protectLen r current stop ≤ 2 ^ 47 := by
    have := protectLen_eq hrok hc hs hs64
    omega
  obtain ⟨own2,g⟩ := addRange_ran h.ran.linked h.sound hpm hq hqb rfl
    (h.unmirrored h0 hr hc hs hs' hac hm) hrun
  have hsound := addRange_sound h.sound hpm hq hqb rfl h.ran.linked
    (fun _ => Space.mmapProtToPageFlags_present prot) g
  have hout := (addRange_outcome h.sound.ranges hq rfl).1
  have fate {key : Nat} (hk : key < 2 ^ 35) (hp : (vm.entry pm key).present = true) :=
    h.sound.present_covered hk (h.ran.present hk hp (h.keeps key hk hp))
  refine ⟨own2,_,h.ran.trans g,hsound,?_,?_,?_,.inr ?_⟩
  · intro key hk hp hd
    obtain ⟨x,hx,hv⟩ := fate hk hp
    have hg := protectRequest_keeps h.sound.ranges hr hc hs hs64 hx hv
      (hout.fate h.sound.ranges hq hx hv)
    have hf := h.keeps key hk hp
    revert hd hf hg
    cases f key <;> cases fates key _ <;> simp [Fate.next]
  · intro key hk hp hne r0 hr0 hv0 hna
    by_cases hf : f key = .stay
    · obtain ⟨x,hx,hv⟩ := fate hk hp
      refine h.touches h0 hr hc hs hs' hac hx hv hr0 hv0 hna
        ((hout.fate h.sound.ranges hq hx hv).touched (h.sound.ranges.each x hx) fun hg => hne ?_)
      simp only [hf,hg]
      rfl
    · exact h.touched key hk hp hf r0 hr0 hv0 hna
  · intro v x hx hv
    by_cases hin : (Space.protectRequest r current (Space.protectLen r current stop) prot).inside v
    · obtain ⟨y,hy,hyv,hyt⟩ := (hout.inside h.sound.ranges hq hin).2 hrok.typed
      obtain rfl := hsound.ranges.eq_of_covers hx hy hv hyv
      obtain ⟨r0,h1,h2,h3⟩ := h.types v r hr (covers_of_protectRequest hrok hc hs hs64 hin)
      exact ⟨r0,h1,h2,h3.trans hyt.same.1.symm⟩
    · obtain ⟨y,hy,hyv,heir⟩ := (hout.outside h.sound.ranges hq hin).1 x hx hv
      obtain ⟨r0,h1,h2,h3⟩ := h.types v y hy hyv
      exact ⟨r0,h1,h2,h3.trans heir.same.1.symm⟩
  · intro v h1 h2 x hx hv
    obtain ⟨y,hy,hyv,hyb,hxy⟩ :=
      protectRange_ahead prot h.sound.ranges hr hc hs hs64 hda hds hx hv h1 h2
    rcases hxy with rfl | hxa
    · rcases h.ahead with ⟨_,rfl⟩ | ha
      · exact .inl ⟨hy,hyb⟩
      · have hcur : current ≤ v := by
          have := hrok.endAddr_eq
          obtain ⟨c1,c2⟩ := hc
          omega
        rcases ha v hcur h2 x hy hyv with ⟨h3,_⟩ | h3
        · exact .inl ⟨h3,hyb⟩
        · exact .inr h3
    · exact .inr hxa

end Step

theorem mprotect_protecting {kernel : List MappedRange} {sp : Space} {length : Nat} {vm' : VM}
    (hl : Linked vm own) (h : Sound vm own pm sp.rangeList sp.nextId) (hpm : pm ≠ kernelPm)
    (ha : addr % pageSize = 0) (hb : addr + alignUp length pageSize ≤ 2 ^ 47)
    (hk : ∀ r ∈ kernel, 2 ^ 47 ≤ r.base)
    (hm : Unmirrored vm own pm sp.rangeList
      (ProtectTouched addr (addr + alignUp length pageSize) (mmapProtToPageFlags prot)))
    (hrun : vm.runEffects pm (Space.syscallMprotect kernel sp addr length prot).effects =
      some vm') :
    let out := Space.syscallMprotect kernel sp addr length prot
    ∃ own' f last, Protecting vm vm' pm own own' f sp.rangeList out.space.rangeList
      out.space.nextId addr (addr + alignUp length pageSize) last (mmapProtToPageFlags prot) := by
  have hda : pageSize ∣ addr := Nat.dvd_of_mod_eq_zero ha
  have hds : pageSize ∣ addr + alignUp length pageSize := Nat.dvd_add hda (alignUp_dvd length)
  have hlt : addr + alignUp length pageSize < 2 ^ 64 := by omega
  have start : Protecting vm vm pm own own (fun _ => .stay) sp.rangeList sp.rangeList sp.nextId
      addr (addr + alignUp length pageSize) addr (mmapProtToPageFlags prot) :=
    ⟨Ran.refl hl,h,by simp,fun _ _ _ hne => absurd rfl hne,
      fun v x hx hv => ⟨x,hx,hv,rfl⟩,.inl ⟨rfl,rfl⟩⟩
  revert hrun
  unfold Space.syscallMprotect
  simp only [ha,ne_eq,not_true_eq_false,if_false,uadd_of_lt hlt]
  intro hrun
  obtain ⟨last,⟨_,_,_,hP⟩,_⟩ := protectLoop_rule kernel prot
    (P := fun current l n effects => pageSize ∣ current ∧ addr ≤ current ∧ RangesOk l n ∧
      ∀ vm1, vm.runEffects pm effects = some vm1 → ∃ own1 f, Protecting vm vm1 pm own own1 f
        sp.rangeList l n addr (addr + alignUp length pageSize) current
        (mmapProtToPageFlags prot)) hlt
    (fun _ _ _ _ hp => hp.2.2.1) (by
      rintro current l n effects r ⟨hdc,hac,hok,hP⟩ hr hc hs
      have hrok := hok.each r hr
      have hq := protectRequest_ok hrok hc hs hlt prot hdc hds
      have hnext : current ≤ min (r.base + r.length) (addr + alignUp length pageSize) := by
        have := hrok.endAddr_eq
        obtain ⟨c1,c2⟩ := hc
        omega
      refine ⟨?_,hac.trans hnext,(addRange_outcome hok hq rfl).1.rangesOk hok hq,?_⟩
      · rcases min_choice (r.base + r.length) (addr + alignUp length pageSize) with h | h <;> rw [h]
        · exact Nat.dvd_add hrok.aligned.1 hrok.aligned.2
        · exact hds
      · intro vm2 hrun2
        obtain ⟨vm1,h1,h2⟩ := VM.runEffects_append hrun2
        obtain ⟨own1,f,hp⟩ := hP vm1 h1
        exact hp.step h.ranges hr hc hs hb hac hpm hdc hds hm h2)
    (alignUp length pageSize + 1) addr sp []
    ⟨hda,le_rfl,h.ranges,fun vm1 h1 => by cases h1; exact ⟨own,_,start⟩⟩
    (fun r hr v _ hv hc => by
      have := hk r hr
      have := hc.1
      omega) (by omega)
  obtain ⟨own',f,hp⟩ := hP vm' hrun
  exact ⟨own',f,last,hp⟩

end Protecting

end SabaOS.Mem
