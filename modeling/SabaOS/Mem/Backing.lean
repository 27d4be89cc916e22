import Mathlib.Logic.Relation
import SabaOS.Mem.Protect

namespace SabaOS.Mem
open SabaOS.Klib SabaOS.Lib

structure Origin where
  type : RangeType
  file : Option Nat
  base : Nat
  offset : Nat
  deriving DecidableEq, Repr

def Origin.backing (o : Origin) (pageVirt : Nat) : Nat := uadd (usub pageVirt o.base) o.offset

def Request.origin (q : Request) : Origin :=
  ⟨q.type,q.file,q.base,if q.type = .file then q.fileOffset else q.phyBase⟩

abbrev Provenance := Nat → Option Origin

def Provenance.record (spec : Provenance) (q : Request) : Provenance := fun virt =>
  if q.inside virt then
    if q.type = .none then none else some q.origin
  else spec virt

def MappedRange.Matches (r : MappedRange) (o : Origin) (virt : Nat) : Prop :=
  r.type = o.type ∧ (r.type ≠ .anonymous → r.file = o.file ∧ r.backing virt = o.backing virt)

def MappedRange.Steady (r : MappedRange) : Prop :=
  r.type = .anonymous ∨ (r.base = r.originalBase ∧ (r.type ≠ .file → r.phyBase ≠ 0))

instance (r : MappedRange) : Decidable r.Steady := inferInstanceAs (Decidable (_ ∨ _))

structure Tracks (l : List MappedRange) (n : Nat) (spec : Provenance) : Prop where
  ranges : RangesOk l n
  backed : ∀ r ∈ l, ∀ virt, r.covers virt → ∃ o, spec virt = some o ∧ r.Matches o virt
  mapped : ∀ virt o, spec virt = some o → ∃ r ∈ l, r.covers virt

theorem splitPart_backing {q : Request} {r : MappedRange} {id virt : Nat} (hq : q.Ok) (hr : r.Ok)
    (hs : Splits q r) (hst : r.Steady) (ht : r.type ≠ .anonymous) :
    (splitPart q id r).backing virt = r.backing virt := by
  obtain ⟨hb,hp⟩ := hst.resolve_left ht
  have h1 := hq.endAddr_eq
  have h2 := hr.endAddr_eq
  have h3 := hq.bounded
  have h4 := hr.bounded
  obtain ⟨_,s1,s2⟩ := hs
  unfold MappedRange.backing
  have ht' : (splitPart q id r).type = r.type := rfl
  have ho : (splitPart q id r).originalBase = q.endAddr := rfl
  have hf : (splitPart q id r).fileOffset = uadd r.fileOffset (usub q.endAddr r.base) := rfl
  have hph : (splitPart q id r).phyBase =
      if r.phyBase ≠ 0 then uadd r.phyBase (usub q.endAddr r.base) else 0 := rfl
  rw [ht',ho,hf,hph]
  by_cases hfile : r.type = .file
  · simp only [hfile,if_true,uadd,usub,← hb]
    omega
  · simp only [hfile,if_false,if_pos (hp hfile),uadd,usub,← hb]
    omega

theorem heir_matches {q : Request} {n virt : Nat} {r x : MappedRange} {o : Origin} (hq : q.Ok)
    (hr : r.Ok) (h : Heir q n r x) (hs : Splits q r → r.Steady)
    (hm : r.Matches o virt) : x.Matches o virt := by
  obtain ⟨ht,_,hf⟩ := h.same
  refine ⟨ht.trans hm.1,fun hna => ?_⟩
  obtain ⟨mf,mb⟩ := hm.2 (ht ▸ hna)
  refine ⟨hf.trans mf,?_⟩
  rw [← mb]
  obtain ⟨y,hy,rfl | ⟨hg,hqa,rfl⟩⟩ := h
  · rcases mem_pieces hy with ⟨_,rfl⟩ | ⟨_,_,_,rfl⟩ | ⟨_,_,_,rfl⟩ | ⟨hsp,rfl | rfl⟩
    · rfl
    · rfl
    · rfl
    · rfl
    · exact splitPart_backing hq hr hsp (hs hsp) (ht ▸ hna)
  · exact absurd ((mergedRange_same q y).2.1.trans ((mergeable_iff.mp hg).1.symm.trans hqa)) hna

section Tracks

variable {l : List MappedRange} {n : Nat} {spec spec' : Provenance} {q : Request}

theorem addRange_tracks (ht : Tracks l n spec) (hq : q.Ok) (hr : q.resolveOverlap = true)
    (hsplit : ∀ r ∈ l, Splits q r → r.Steady)
    (hout : ∀ virt, ¬ q.inside virt → spec' virt = spec virt)
    (hnone : q.type = .none → ∀ virt, q.inside virt → spec' virt = none)
    (hin : q.type ≠ .none → ∀ virt, q.inside virt → ∀ x, Target q l n x → x.covers virt →
      ∃ o, spec' virt = some o ∧ x.Matches o virt) :
    Tracks (addRange q l n).1.rangeList (addRange q l n).1.nextId spec' := by
  have h := (addRange_outcome ht.ranges hq hr).1
  have hok := h.rangesOk ht.ranges hq
  refine ⟨hok,?_,?_⟩
  · intro x hx v hxv
    by_cases hv : q.inside v
    · by_cases hqt : q.type = .none
      · exact absurd hxv ((h.inside ht.ranges hq hv).1 hqt x hx)
      · obtain ⟨y,hy,hyv,hyt⟩ := (h.inside ht.ranges hq hv).2 hqt
        rw [hok.eq_of_covers hx hy hxv hyv]
        exact hin hqt v hv y hyt hyv
    · obtain ⟨r,hrl,hrv,heir⟩ := (h.outside ht.ranges hq hv).1 x hx hxv
      obtain ⟨o,ho,hm⟩ := ht.backed r hrl v hrv
      exact ⟨o,(hout v hv).trans ho,
        heir_matches hq (ht.ranges.each r hrl) heir (hsplit r hrl) hm⟩
  · intro v o ho
    by_cases hv : q.inside v
    · by_cases hqt : q.type = .none
      · simp [hnone hqt v hv] at ho
      · obtain ⟨y,hy,hyv,_⟩ := (h.inside ht.ranges hq hv).2 hqt
        exact ⟨y,hy,hyv⟩
    · obtain ⟨r,hrl,hrv⟩ := ht.mapped v o ((hout v hv) ▸ ho)
      obtain ⟨x,hx,hxv,_⟩ := (h.outside ht.ranges hq hv).2 r hrl hrv
      exact ⟨x,hx,hxv⟩

theorem addRange_records (ht : Tracks l n spec) (hq : q.Ok) (hr : q.resolveOverlap = true)
    (hk : q.keepPages = true → q.type = .anonymous)
    (hsplit : ∀ r ∈ l, Splits q r → r.Steady) :
    Tracks (addRange q l n).1.rangeList (addRange q l n).1.nextId (spec.record q) := by
  refine addRange_tracks ht hq hr hsplit ?_ ?_ ?_
  · intro v hv
    exact if_neg hv
  · intro hqt v hv
    simp only [Provenance.record]
    rw [if_pos hv,if_pos hqt]
  · intro hqt v hv x htg _
    refine ⟨q.origin,?_,htg.same.1,fun hna => ?_⟩
    · simp only [Provenance.record]
      rw [if_pos hv,if_neg hqt]
    · cases htg with
      | kept _ he => exact absurd (he.2.2.2.symm.trans (hk he.1)) hna
      | @merged r y _ _ hg ha =>
        exact absurd ((mergedRange_same q y).2.1.trans ((mergeable_iff.mp hg).1.symm.trans ha)) hna
      | new => exact ⟨rfl,rfl⟩

end Tracks

def MappedRange.Reprotectable (r : MappedRange) (current stop : Nat) : Prop :=
  r.type = .anonymous ∨ (current ≤ r.base ∧ r.base + r.length ≤ stop) ∨
    (r.base = r.originalBase ∧ (r.type ≠ .file → r.base < current → r.phyBase ≠ 0))

section Protect

variable {l : List MappedRange} {n : Nat} {spec : Provenance} {r : MappedRange}
  {current stop : Nat} (prot : Nat)

theorem protectRange_matches {o : Origin} {virt id : Nat} (hr : r.Ok) (hc : r.covers current)
    (hs : current < stop) (hs' : stop < 2 ^ 64) (hre : r.Reprotectable current stop)
    (hx : ¬ Exact (Space.protectRequest r current (Space.protectLen r current stop) prot) r)
    (hm : r.Matches o virt) :
    (rangeOf (Space.protectRequest r current (Space.protectLen r current stop) prot) id).Matches
      o virt := by
  refine ⟨hm.1,fun hna => ⟨(hm.2 hna).1,?_⟩⟩
  rw [← (hm.2 hna).2]
  rcases hre with ha | ⟨h1,h2⟩ | ⟨hb,hp⟩
  · exact absurd ha hna
  · refine absurd ⟨rfl,?_,?_,rfl⟩ hx
    · exact le_antisymm h1 hc.1
    · rw [protectRequest_endAddr hr hc hs hs',hr.endAddr_eq]
      omega
  · obtain ⟨c1,_⟩ := hc
    have h4 := hr.bounded
    simp only [MappedRange.backing,rangeOf,Space.protectRequest]
    by_cases hf : r.type = .file
    · simp only [hf,if_true,uadd,usub,← hb]
      omega
    · by_cases hlt : r.base < current
      · simp only [hf,if_false,if_pos (hp hf hlt),uadd,usub,← hb]
        omega
      · have he : current = r.base := by omega
        by_cases h0 : r.phyBase = 0
        · simp [hf,h0,he,← hb]
        · simp only [hf,if_false,if_pos h0,uadd,usub,← hb]
          omega

theorem protectRange_tracks (ht : Tracks l n spec) (hr : r ∈ l) (hc : r.covers current)
    (hs : current < stop) (hs' : stop < 2 ^ 64) (ha : pageSize ∣ current) (hb : pageSize ∣ stop)
    (hre : r.Reprotectable current stop) :
    let out := addRange
      (Space.protectRequest r current (Space.protectLen r current stop) prot) l n
    Tracks out.1.rangeList out.1.nextId spec := by
  have hrok := ht.ranges.each r hr
  have hq := protectRequest_ok hrok hc hs hs' prot ha hb
  refine addRange_tracks ht hq rfl ?_ (fun _ _ => rfl) (fun h => absurd h hrok.typed) ?_
  · intro x hx hsp
    have hxc : x.covers current := ⟨hsp.2.1.le,hsp.1.1⟩
    obtain rfl := ht.ranges.eq_of_covers hx hr hxc hc
    rcases hre with h | ⟨h,_⟩ | ⟨h1,h2⟩
    · exact .inl h
    · exact absurd h (Nat.not_le.mpr hsp.2.1)
    · exact .inr ⟨h1,fun hf => h2 hf hsp.2.1⟩
  · intro _ v hv x htg hxv
    have hrv := covers_of_protectRequest hrok hc hs hs' hv
    obtain ⟨o,ho,hm⟩ := ht.backed r hr v hrv
    refine ⟨o,ho,?_⟩
    cases htg with
    | @kept e hel he =>
      obtain rfl := ht.ranges.eq_of_covers hel hr ((kept_covers hq he v).1.mpr hv) hrv
      exact hm
    | @merged x y hxl hy hg han =>
      have hty := (mergedRange_same (Space.protectRequest r current
        (Space.protectLen r current stop) prot) y).2.1.trans (mergeable_iff.mp hg).1.symm
      exact ⟨hty.trans hm.1,fun hna => absurd (hty.trans han) hna⟩
    | new _ hx =>
      exact protectRange_matches prot hrok hc hs hs' hre
        (fun he => hx r hr ⟨overlaps_protectRequest hrok hc hs hs',he⟩) hm

end Protect

def Provenance.after (spec : Provenance) (sp : Space) (c : Call) : Provenance :=
  match sp.callRequest c with
  | some q => spec.record q
  | none => spec

def Space.BackingSafe (kernel : List MappedRange) (sp : Space) (c : Call) : Prop :=
  (∀ q, sp.callRequest c = some q → q.Ok ∧ ∀ r ∈ sp.rangeList, Splits q r → r.Steady) ∧
  ∀ addr length prot, c = .mprotect addr length prot → addr % pageSize = 0 →
    addr + alignUp length pageSize < 2 ^ 64 ∧
    ∀ virt, addr ≤ virt → virt < addr + alignUp length pageSize →
      (∀ r ∈ kernel, ¬ r.covers virt) ∧
      ∀ r ∈ sp.rangeList, r.covers virt → r.Reprotectable addr (addr + alignUp length pageSize)

inductive CallStep (ok : List MappedRange → Space → Call → Prop) :
    Space × Provenance → Space × Provenance → Prop
  | call (kernel : List MappedRange) (c : Call) (sp : Space) (spec : Provenance) :
      ok kernel sp c → CallStep ok (sp,spec) ((sp.syscall kernel c).1,spec.after sp c)

theorem syscallMprotect_tracks {kernel : List MappedRange} {sp : Space} {spec : Provenance}
    {addr length prot : Nat} (ht : Tracks sp.rangeList sp.nextId spec)
    (h : sp.BackingSafe kernel (.mprotect addr length prot)) :
    let out := Space.syscallMprotect kernel sp addr length prot
    Tracks out.space.rangeList out.space.nextId spec := by
  unfold Space.syscallMprotect
  by_cases ha : addr % pageSize = 0
  swap
  · simpa [ha] using ht
  obtain ⟨hlt,hv⟩ := h.2 addr length prot rfl ha
  have hda : pageSize ∣ addr := Nat.dvd_of_mod_eq_zero ha
  have hds : pageSize ∣ addr + alignUp length pageSize := Nat.dvd_add hda (alignUp_dvd length)
  simp only [ha,ne_eq,not_true_eq_false,if_false,uadd_of_lt hlt]
  have hrule := protectLoop_rule kernel prot
    (P := fun current l n _ => Tracks l n spec ∧ pageSize ∣ current ∧ ∀ virt, current ≤ virt →
      virt < addr + alignUp length pageSize → ∀ r ∈ l, r.covers virt →
      r.Reprotectable current (addr + alignUp length pageSize)) hlt
    (fun _ _ _ _ hp => hp.1.ranges) ?_ (alignUp length pageSize + 1) addr sp []
    ⟨ht,hda,fun v h1 h2 => (hv v h1 h2).2⟩ (fun r hr v h1 h2 => (hv v h1 h2).1 r hr) (by omega)
  · obtain ⟨last,hp,_⟩ := hrule
    exact hp.1
  · rintro current l n effects r ⟨htl,hd,hre⟩ hr hc hs
    have hrok := htl.ranges.each r hr
    have hnext : pageSize ∣ min (r.base + r.length) (addr + alignUp length pageSize) := by
      rcases min_choice (r.base + r.length) (addr + alignUp length pageSize) with h | h <;> rw [h]
      · exact Nat.dvd_add hrok.aligned.1 hrok.aligned.2
      · exact hds
    refine ⟨protectRange_tracks prot htl hr hc hs hlt hd hds (hre current le_rfl hs r hr hc),
      hnext,?_⟩
    intro v h1 h2 x hx hxv
    obtain ⟨y,hy,hyv,hyb,hxy⟩ :=
      protectRange_ahead prot htl.ranges hr hc hs hlt hd hds hx hxv h1 h2
    rcases hxy with rfl | hxa
    · have hcur : current ≤ v := by
        have := (htl.ranges.each r hr).endAddr_eq
        obtain ⟨c1,c2⟩ := hc
        omega
      rcases hre v hcur h2 x hy hyv with h | ⟨_,h⟩ | ⟨h,_⟩
      · exact .inl h
      · exact .inr (.inl ⟨hyb,h⟩)
      · exact .inr (.inr ⟨h,fun _ hlt => absurd hyb (Nat.not_le.mpr hlt)⟩)
    · exact .inl hxa

theorem syscall_tracks {kernel : List MappedRange} {sp : Space} {spec : Provenance} {c : Call}
    (ht : Tracks sp.rangeList sp.nextId spec) (h : sp.BackingSafe kernel c) :
    Tracks (sp.syscall kernel c).1.rangeList (sp.syscall kernel c).1.nextId
      (spec.after sp c) := by
  cases hq : sp.callRequest c with
  | some q =>
    obtain ⟨e1,e2,_⟩ := Space.syscall_of_request kernel hq
    obtain ⟨hr,hk,_⟩ := Space.callRequest_resolves hq
    obtain ⟨hqok,hsplit⟩ := h.1 q hq
    rw [e1,e2]
    simpa only [Provenance.after,hq] using addRange_records ht hqok hr hk hsplit
  | none =>
    simp only [Provenance.after,hq]
    cases c with
    | mprotect addr length prot => exact syscallMprotect_tracks ht h
    | _ =>
      obtain ⟨e1,e2⟩ := Space.syscall_without_request kernel hq (by simp)
      rwa [e1,e2]

theorem backing_preserved {start sp : Space} {spec : Provenance} (h0 : start.rangeList = [])
    (h : Relation.ReflTransGen (CallStep Space.BackingSafe) (start,fun _ => none) (sp,spec)) :
    (∀ r ∈ sp.rangeList, ∀ virt, r.covers virt → ∃ o, spec virt = some o ∧ r.type = o.type ∧
      (r.type ≠ .anonymous → r.file = o.file ∧ r.backing virt = o.backing virt)) ∧
    ∀ virt o, spec virt = some o → ∃ r ∈ sp.rangeList, r.covers virt := by
  suffices ht : Tracks sp.rangeList sp.nextId spec from ⟨ht.backed,ht.mapped⟩
  generalize hst : (sp,spec) = st at h
  induction h generalizing sp spec with
  | refl =>
    cases hst
    rw [h0]
    exact ⟨⟨by simp,by simp,by simp,by simp⟩,by simp,by simp⟩
  | tail _ hstep ih =>
    cases hstep with
    | call kernel c sp' spec' hok =>
      cases hst
      exact syscall_tracks (ih rfl) hok

def freshSpace : Space := ⟨[],0,none,0x100000000,0⟩

def libraryFile : FileDescription := ⟨5,true,false,.tmpfs⟩

def mapLibrary : Call := .mmap 0x10000 0x4000 1 (mapPrivate ||| mapFixed) (some libraryFile) 0

def librarySpace : Space := (freshSpace.syscall [] mapLibrary).1

def libraryOrigin : Origin := ⟨.file,some 5,0x10000,0⟩

theorem backing_preserved_split :
    ∃ sp spec, Relation.ReflTransGen (CallStep Space.BackingSafe) (freshSpace,fun _ => none)
      (sp,spec) ∧ sp.rangeList.map MappedRange.base = [0x10000,0x12000] ∧
    ∃ r ∈ sp.rangeList, r.covers 0x13000 ∧
      ∃ o, spec 0x13000 = some o ∧ r.type = o.type ∧
        (r.type ≠ .anonymous → r.file = o.file ∧ r.backing 0x13000 = o.backing 0x13000) := by
  have h1 : freshSpace.BackingSafe [] mapLibrary := by
    refine ⟨fun q hq => ?_,nofun⟩
    cases hq
    exact ⟨⟨by decide,by decide⟩,by simp [freshSpace]⟩
  have h2 : librarySpace.BackingSafe [] (.munmap 0x11000 0x1000) := by
    refine ⟨fun q hq => ?_,nofun⟩
    cases hq
    exact ⟨⟨by decide,by decide⟩,by decide⟩
  have hrun := Relation.ReflTransGen.tail
    (.single (CallStep.call [] mapLibrary freshSpace (fun _ => none) h1))
    (CallStep.call [] (.munmap 0x11000 0x1000) librarySpace _ h2)
  have hr : ∃ r ∈ (librarySpace.syscall [] (.munmap 0x11000 0x1000)).1.rangeList,
      r.covers 0x13000 := by decide
  obtain ⟨r,hr,hc⟩ := hr
  exact ⟨_,_,hrun,by decide,r,hr,hc,(backing_preserved rfl hrun).1 r hr 0x13000 hc⟩

theorem backing_lost_after_trim :
    ∃ sp spec, Relation.ReflTransGen (CallStep fun _ _ _ => True) (freshSpace,fun _ => none)
      (sp,spec) ∧
    ∃ r ∈ sp.rangeList, r.covers 0x12000 ∧ spec 0x12000 = some libraryOrigin ∧ r.type = .file ∧
      r.backing 0x12000 = 0x1000 ∧ libraryOrigin.backing 0x12000 = 0x2000 := by
  refine ⟨_,_,.tail (.tail (.tail .refl (.call [] mapLibrary _ _ trivial))
    (.call [] (.munmap 0x10000 0x1000) _ _ trivial))
    (.call [] (.mprotect 0x12000 0x1000 1) _ _ trivial),?_⟩
  decide

end SabaOS.Mem
