import SabaOS.Mem.AddRange
import SabaOS.Mem.Space

namespace SabaOS.Mem
open SabaOS.Klib SabaOS.Lib

theorem alignUp_dvd (i : Nat) : pageSize ∣ alignUp i pageSize := by
  unfold alignUp
  split_ifs with h <;> simp only [pageSize] at * <;> omega

theorem addrToRange_ranges (sp : Space) (kernel : List MappedRange) (virt : Nat) :
    (sp.addrToRange kernel virt).1.rangeList = sp.rangeList ∧
    (sp.addrToRange kernel virt).1.nextId = sp.nextId := by
  unfold Space.addrToRange
  split
  · exact ⟨rfl,rfl⟩
  · split <;> exact ⟨rfl,rfl⟩

theorem addrToRange_covers {sp : Space} {kernel : List MappedRange} {virt : Nat}
    {found : Owner × MappedRange} (h : (sp.addrToRange kernel virt).2 = some found) :
    found.2.covers virt ∧ (found.1 = .own → found.2 ∈ sp.rangeList) ∧
    (found.1 = .kernel → found.2 ∈ kernel) := by
  unfold Space.addrToRange at h
  split at h
  · rename_i r hr
    cases h
    obtain ⟨hc,hv⟩ := Option.filter_eq_some_iff.mp hr
    refine ⟨by simpa using hv,?_⟩
    unfold Space.cachedRange at hc
    split at hc
    · simp at hc
    · obtain ⟨x,hx,rfl⟩ := Option.map_eq_some_iff.mp hc
      exact ⟨fun _ => (Keyed.lookup_mem hx).1,nofun⟩
    · obtain ⟨x,hx,rfl⟩ := Option.map_eq_some_iff.mp hc
      exact ⟨nofun,fun _ => (Keyed.lookup_mem hx).1⟩
  · split at h
    · rename_i r hr
      cases h
      unfold Space.searchRange at hr
      split at hr
      · rename_i x hx
        cases hr
        exact ⟨by simpa using List.find?_some hx,fun _ => List.mem_of_find?_eq_some hx,nofun⟩
      · obtain ⟨x,hx,rfl⟩ := Option.map_eq_some_iff.mp hr
        exact ⟨by simpa using List.find?_some hx,nofun,fun _ => List.mem_of_find?_eq_some hx⟩
    · simp at h

theorem addrToRange_own (sp : Space) {kernel : List MappedRange} {virt : Nat}
    (hk : ∀ r ∈ kernel, ¬ r.covers virt) :
    (∃ r ∈ sp.rangeList, r.covers virt ∧ (sp.addrToRange kernel virt).2 = some (.own,r)) ∨
    ((sp.addrToRange kernel virt).2 = none ∧ ∀ r ∈ sp.rangeList, ¬ r.covers virt) := by
  cases h : (sp.addrToRange kernel virt).2 with
  | some found =>
    obtain ⟨hc,ho,hkr⟩ := addrToRange_covers h
    obtain ⟨owner,r⟩ := found
    cases owner with
    | own => exact .inl ⟨r,ho rfl,hc,rfl⟩
    | kernel => exact absurd hc (hk r (hkr rfl))
  | none =>
    refine .inr ⟨rfl,fun r hr hc => ?_⟩
    unfold Space.addrToRange at h
    split at h
    · simp at h
    · split at h
      · simp at h
      · rename_i hs
        unfold Space.searchRange at hs
        split at hs
        · simp at hs
        · rename_i hf
          simpa [hc] using List.find?_eq_none.mp hf r hr

section Protect

variable {r : MappedRange} {current stop prot : Nat}

theorem protectLen_eq (hr : r.Ok) (hc : r.covers current) (hs : current < stop)
    (hs' : stop < 2 ^ 64) :
    current + Space.protectLen r current stop = min (r.base + r.length) stop := by
  have h1 := hr.endAddr_eq
  have h2 := hr.bounded
  obtain ⟨_,c2⟩ := hc
  simp only [Space.protectLen,uadd,usub,h1] at *
  split_ifs <;> omega

variable (hr : r.Ok) (hc : r.covers current) (hs : current < stop) (hs' : stop < 2 ^ 64)
include hr hc hs hs'

theorem protectRequest_inside (prot virt : Nat) :
    (Space.protectRequest r current (Space.protectLen r current stop) prot).inside virt ↔
      current ≤ virt ∧ virt < r.base + r.length ∧ virt < stop := by
  have h := protectLen_eq hr hc hs hs'
  change current ≤ virt ∧ virt < current + Space.protectLen r current stop ↔ _
  omega

theorem protectRequest_ok (prot : Nat) (ha : pageSize ∣ current) (hb : pageSize ∣ stop) :
    (Space.protectRequest r current (Space.protectLen r current stop) prot).Ok := by
  have h := protectLen_eq hr hc hs hs'
  have h2 := hr.bounded
  obtain ⟨a1,a2⟩ := hr.aligned
  refine ⟨?_,ha,?_⟩
  · change current + Space.protectLen r current stop < 2 ^ 64
    omega
  · change pageSize ∣ Space.protectLen r current stop
    simp only [pageSize] at *
    omega

theorem protectLen_pos : 0 < Space.protectLen r current stop := by
  have h := protectLen_eq hr hc hs hs'
  have h1 := hr.endAddr_eq
  obtain ⟨_,c2⟩ := hc
  omega

theorem uadd_protectLen :
    uadd current (Space.protectLen r current stop) = min (r.base + r.length) stop := by
  have h := protectLen_eq hr hc hs hs'
  rw [uadd_of_lt (by omega),h]

theorem protectRequest_endAddr (prot : Nat) :
    (Space.protectRequest r current (Space.protectLen r current stop) prot).endAddr =
      min (r.base + r.length) stop :=
  uadd_protectLen hr hc hs hs'

theorem covers_of_protectRequest {virt : Nat}
    (hv : (Space.protectRequest r current (Space.protectLen r current stop) prot).inside virt) :
    r.covers virt := by
  obtain ⟨h1,h2,_⟩ := (protectRequest_inside hr hc hs hs' _ virt).mp hv
  obtain ⟨c1,_⟩ := hc
  exact ⟨by omega,by rw [hr.endAddr_eq]; omega⟩

theorem overlaps_protectRequest :
    (Space.protectRequest r current (Space.protectLen r current stop) prot).overlaps r := by
  have h := protectLen_eq hr hc hs hs'
  have hp := protectLen_pos hr hc hs hs'
  obtain ⟨c1,c2⟩ := hc
  refine ⟨c2,?_⟩
  rw [protectRequest_endAddr hr ⟨c1,c2⟩ hs hs']
  omega

end Protect

section Ahead

variable {l : List MappedRange} {n : Nat} {r : MappedRange} {current stop : Nat} (prot : Nat)

theorem protectRange_ahead (ht : RangesOk l n) (hr : r ∈ l) (hc : r.covers current)
    (hs : current < stop) (hs' : stop < 2 ^ 64) (ha : pageSize ∣ current) (hb : pageSize ∣ stop)
    {x : MappedRange} {virt : Nat}
    (hx : x ∈ (addRange (Space.protectRequest r current (Space.protectLen r current stop) prot)
      l n).1.rangeList) (hxv : x.covers virt) (h1 : min (r.base + r.length) stop ≤ virt)
    (h2 : virt < stop) :
    ∃ y ∈ l, y.covers virt ∧ min (r.base + r.length) stop ≤ y.base ∧
      (x = y ∨ x.type = .anonymous) := by
  have hrok := ht.each r hr
  have hq := protectRequest_ok hrok hc hs hs' prot ha hb
  have hv : ¬ (Space.protectRequest r current (Space.protectLen r current stop) prot).inside
      virt := by
    rw [protectRequest_inside hrok hc hs hs']
    omega
  obtain ⟨y,hy,hyv,z,hz,hxz⟩ := ((addRange_outcome ht hq rfl).1.outside ht hq hv).1 x hx hxv
  have hre := hrok.endAddr_eq
  have hbase : min (r.base + r.length) stop ≤ y.base := by
    by_contra hlt
    obtain ⟨c1,c2⟩ := hc
    obtain ⟨v1,v2⟩ := hyv
    have hcov : r.covers (max y.base current) := by constructor <;> omega
    have hycov : y.covers (max y.base current) := by constructor <;> omega
    obtain rfl := ht.eq_of_covers hy hr hycov hcov
    omega
  refine ⟨y,hy,hyv,hbase,?_⟩
  have hno : ¬ (Space.protectRequest r current (Space.protectLen r current stop) prot).overlaps
      y := by
    rintro ⟨_,o2⟩
    rw [protectRequest_endAddr hrok hc hs hs'] at o2
    omega
  rw [pieces_of_not_overlaps hno,List.mem_singleton] at hz
  subst hz
  rcases hxz with rfl | ⟨hg,han,rfl⟩
  · exact .inl rfl
  · exact .inr ((mergedRange_same _ z).2.1.trans ((mergeable_iff.mp hg).1.symm.trans han))

end Ahead

section Loop

variable {stop : Nat}
  {P : Nat → List MappedRange → Nat → List Effect → Prop}

-- The invariant rule of the loop of `syscall_mprotect`: below the kernel's ranges `addr_to_range`
-- returns the range of the process that covers `current`, and every iteration moves `current`.
theorem protectLoop_rule (kernel : List MappedRange) (prot : Nat) (hs : stop < 2 ^ 64)
    (hok : ∀ current l n effects, P current l n effects → RangesOk l n)
    (hstep : ∀ current l n effects r, P current l n effects → r ∈ l → r.covers current →
      current < stop →
      let out := addRange
        (Space.protectRequest r current (Space.protectLen r current stop) prot) l n
      P (min (r.base + r.length) stop) out.1.rangeList out.1.nextId (effects ++ out.1.effects)) :
    ∀ fuel current sp effects, P current sp.rangeList sp.nextId effects →
      (∀ r ∈ kernel, ∀ virt, current ≤ virt → virt < stop → ¬ r.covers virt) →
      stop - current < fuel →
      let out := Space.protectLoop kernel stop prot fuel current sp effects
      ∃ last, P last out.space.rangeList out.space.nextId out.effects ∧ current ≤ last ∧
        ((out.result = .ok 0 ∧ stop ≤ last) ∨ (out.result = .error .enomem ∧ last < stop ∧
          ∀ r ∈ out.space.rangeList, ¬ r.covers last)) := by
  intro fuel
  induction fuel with
  | zero =>
    intro current sp effects _ _ hf
    omega
  | succ fuel ih =>
    intro current sp effects hp hk hf
    simp only [Space.protectLoop]
    by_cases hlt : current < stop
    · rw [if_pos hlt]
      obtain ⟨e1,e2⟩ := addrToRange_ranges sp kernel current
      rcases addrToRange_own sp fun r hr => hk r hr current le_rfl hlt with
        ⟨r,hr,hc,h⟩ | ⟨h,hn⟩
      · obtain ⟨sp',found,hsp⟩ : ∃ a b, sp.addrToRange kernel current = (a,b) := ⟨_,_,rfl⟩
        simp only [hsp] at e1 e2 h ⊢
        subst h
        have hrok := (hok _ _ _ _ hp).each r hr
        have hmin := protectLen_eq hrok hc hlt hs
        have hpos := protectLen_pos hrok hc hlt hs
        dsimp only
        rw [uadd_protectLen hrok hc hlt hs]
        have hp' := hstep current sp.rangeList sp.nextId effects r hp hr hc hlt
        obtain ⟨last,h1,h2,h3⟩ := ih (min (r.base + r.length) stop)
          (sp'.addRange (Space.protectRequest r current (Space.protectLen r current stop) prot)).space
          (effects ++ (sp'.addRange (Space.protectRequest r current
            (Space.protectLen r current stop) prot)).effects)
          (by simp only [Space.addRange,e1,e2]; exact hp')
          (fun x hx v hv => hk x hx v (by omega)) (by omega)
        exact ⟨last,h1,by omega,h3⟩
      · obtain ⟨sp',found,hsp⟩ : ∃ a b, sp.addrToRange kernel current = (a,b) := ⟨_,_,rfl⟩
        simp only [hsp] at e1 e2 h ⊢
        subst h
        refine ⟨current,?_,le_rfl,.inr ⟨rfl,hlt,?_⟩⟩
        · simpa only [e1,e2] using hp
        · simpa only [e1] using hn
    · rw [if_neg hlt]
      exact ⟨current,hp,le_rfl,.inl ⟨rfl,by omega⟩⟩

end Loop

end SabaOS.Mem
