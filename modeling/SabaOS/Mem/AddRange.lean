import SabaOS.Mem.Overlap

namespace SabaOS.Mem
open SabaOS.Klib SabaOS.Lib

variable {q : Request} {l : List MappedRange} {n : Nat}

structure Resolved (q : Request) (l : List MappedRange) (n : Nat) (s : Surgery) : Prop where
  list : s.rangeList.Perm (l.flatMap (pieces q n))
  effects : s.effects = l.flatMap (pieceEffects q n)
  nextId : s.nextId = if ∃ r ∈ l, Splits q r then n + 1 else n
  hadOverlap : s.hadOverlap = decide (∃ r ∈ l, q.overlaps r)
  done : s.needToResolveOverlap = false
  inexact : ∀ e ∈ l, ¬ (q.overlaps e ∧ Exact q e)
  ids : (s.rangeList.map MappedRange.id).Nodup
  fresh : ∀ r ∈ s.rangeList, r.id < s.nextId

theorem resolve_kept (hl : RangesOk l n) (hq : q.Ok) {e : MappedRange} (hm : e ∈ l)
    (ho : q.overlaps e) (he : Exact q e) :
    ∃ s, KeptOutcome q e ⟨l,n,[],false,false⟩ s ∧ ∀ k,
      resolveOverlaps q (k + 1) ⟨l,n,[],false,true⟩ = .error (s,some (kept q e)) := by
  obtain ⟨s,h,o⟩ := overlapPass_exact hq ho he l ⟨l,n,[],false,false⟩ hl.ids hl.ids
    (fun r hr => hr) hm (fun r hr => ⟨hl.each r hr,fun hne => hl.apart e hm r hr hne.symm⟩)
  exact ⟨s,o,fun k => by simp only [resolveOverlaps,if_true,h]⟩

theorem resolve_done (hl : RangesOk l n) (hq : q.Ok)
    (he : ∀ e ∈ l, ¬ (q.overlaps e ∧ Exact q e)) :
    ∃ s, Resolved q l n s ∧ ∀ k, resolveOverlaps q (k + 2) ⟨l,n,[],false,true⟩ = .ok s := by
  obtain ⟨s,h,p,a,ids,fresh⟩ := overlapPass_spec (q := q) (n := n) l [] ⟨l,n,[],false,false⟩ (.refl _)
    hl.ids hl.fresh (fun r hr => (hl.each r hr).typed) he (splits_unique hl) (.inl rfl)
  have hno : ∀ r ∈ s.rangeList, ¬ q.overlaps r := by
    intro r hr
    obtain ⟨x,hx,hrx⟩ := List.mem_flatMap.mp (by simpa using p.mem_iff.mp hr)
    exact pieces_not_overlaps hq (hl.each x hx) hrx
  refine ⟨{ s with needToResolveOverlap := false },
    ⟨by simpa using p,by simpa using a.effects,a.nextId,by simpa using a.hadOverlap,rfl,he,ids,fresh⟩,?_⟩
  intro k
  rw [resolveOverlaps,if_pos rfl]
  simp only [h]
  rw [resolveOverlaps]
  by_cases hneed : s.needToResolveOverlap = true
  · rw [if_pos hneed]
    simp only [overlapPass_idle (s.rangeList.map MappedRange.id)
      { s with needToResolveOverlap := false } hno]
    cases k <;> simp [resolveOverlaps]
  · have hs : s = { s with needToResolveOverlap := false } := by
      cases s
      simpa using hneed
    rw [if_neg hneed]
    exact congrArg _ hs

section Resolved

variable {s : Surgery} (h : Resolved q l n s) (hl : RangesOk l n) (hq : q.Ok)
include h

theorem Resolved.mem_iff {x : MappedRange} : x ∈ s.rangeList ↔ ∃ r ∈ l, x ∈ pieces q n r := by
  rw [h.list.mem_iff,List.mem_flatMap]

include hl hq

theorem Resolved.not_overlaps {x : MappedRange} (hx : x ∈ s.rangeList) : ¬ q.overlaps x := by
  obtain ⟨r,hr,hxr⟩ := h.mem_iff.mp hx
  exact pieces_not_overlaps hq (hl.each r hr) hxr

theorem Resolved.ok : RangesOk s.rangeList s.nextId := by
  refine ⟨h.ids,h.fresh,?_,?_⟩
  · intro x hx
    obtain ⟨r,hr,hxr⟩ := h.mem_iff.mp hx
    exact pieces_ok hq (hl.each r hr) hxr
  · intro x hx y hy hne
    obtain ⟨r,hr,hxr⟩ := h.mem_iff.mp hx
    obtain ⟨t,ht,hyt⟩ := h.mem_iff.mp hy
    by_cases hrt : r = t
    · subst hrt
      exact pieces_apart hq (hl.each r hr) hxr hyt hne
    · rintro v ⟨v1,v2⟩
      exact hl.apart r hr t ht hrt v ⟨(pieces_covers_sub hq (hl.each r hr) hxr v1).1,
        (pieces_covers_sub hq (hl.each t ht) hyt v2).1⟩

theorem Resolved.covers_sub {x : MappedRange} (hx : x ∈ s.rangeList) {virt : Nat}
    (hv : x.covers virt) : ¬ q.inside virt ∧ ∃ r ∈ l, x ∈ pieces q n r ∧ r.covers virt := by
  obtain ⟨r,hr,hxr⟩ := h.mem_iff.mp hx
  obtain ⟨h1,h2⟩ := pieces_covers_sub hq (hl.each r hr) hxr hv
  exact ⟨h2,r,hr,hxr,h1⟩

theorem Resolved.covers_of {r : MappedRange} (hr : r ∈ l) {virt : Nat} (hv : r.covers virt)
    (hi : ¬ q.inside virt) : ∃ x ∈ s.rangeList, x ∈ pieces q n r ∧ x.covers virt := by
  obtain ⟨x,hx,hxv⟩ := covers_pieces n hq (hl.each r hr) hv hi
  exact ⟨x,h.mem_iff.mpr ⟨r,hr,hx⟩,hx,hxv⟩

end Resolved

theorem mergedRange_same (q : Request) (e : MappedRange) :
    (mergedRange q e).id = e.id ∧ (mergedRange q e).type = e.type ∧
    (mergedRange q e).pageFlags = e.pageFlags ∧ (mergedRange q e).file = e.file := by
  unfold mergedRange
  split_ifs <;> exact ⟨rfl,rfl,rfl,rfl⟩

theorem mergeable_iff {q : Request} {e : MappedRange} : mergeable q e = true ↔
    q.type = e.type ∧ q.pageFlags = e.pageFlags ∧ (q.base = e.endAddr ∨ q.endAddr = e.base) := by
  simp [mergeable]

theorem mergedRange_shape {e : MappedRange} (hq : q.Ok) (he : e.Ok) (hm : mergeable q e = true) :
    ((mergedRange q e).base = e.base ∧ q.base = e.base + e.length ∨
      (mergedRange q e).base = q.base ∧ e.base = q.base + q.length) ∧
    (mergedRange q e).length = e.length + q.length := by
  have h1 := hq.endAddr_eq
  have h2 := he.endAddr_eq
  have h3 := hq.bounded
  have h4 := he.bounded
  obtain ⟨_,_,hadj⟩ := mergeable_iff.mp hm
  unfold mergedRange
  split_ifs with hb
  · exact ⟨.inl ⟨rfl,by omega⟩,by change uadd e.length q.length = _; rw [uadd_of_lt]; omega⟩
  · refine ⟨.inr ⟨?_,by omega⟩,by change uadd e.length q.length = _; rw [uadd_of_lt]; omega⟩
    change usub e.base q.length = _
    rw [usub_of_le (by omega) (by omega)]
    omega

theorem mergedRange_ok {e : MappedRange} (hq : q.Ok) (he : e.Ok) (hm : mergeable q e = true) :
    (mergedRange q e).Ok ∧
    ∀ virt, (mergedRange q e).covers virt ↔ e.covers virt ∨ q.inside virt := by
  have h2 := he.endAddr_eq
  have h3 := hq.bounded
  have h4 := he.bounded
  obtain ⟨a1,a2⟩ := hq.aligned
  obtain ⟨b1,b2⟩ := he.aligned
  have ht := (mergedRange_same q e).2.1
  have shape := mergedRange_shape hq he hm
  generalize mergedRange q e = m at *
  simp only [pageSize] at a1 a2 b1 b2
  have hok : m.Ok := ⟨by omega,⟨by simp only [pageSize]; omega,by simp only [pageSize]; omega⟩,
    ht ▸ he.typed⟩
  refine ⟨hok,fun v => ?_⟩
  have h5 := hok.endAddr_eq
  simp only [MappedRange.covers,Request.inside]
  omega

def lastEffect (q : Request) (l : List MappedRange) (r : MappedRange) : List Effect :=
  if ∃ x ∈ l, q.overlaps x then [.invalidatePages q.base q.length (some r)] else []

inductive AddOutcome (q : Request) (l : List MappedRange) (n : Nat) :
    Surgery × Option MappedRange → Prop
  | kept {e : MappedRange} {s : Surgery} : e ∈ l → q.overlaps e → Exact q e →
      KeptOutcome q e ⟨l,n,[],false,false⟩ s → AddOutcome q l n (s,some (kept q e))
  | merged {e : MappedRange} {s s' : Surgery} : Resolved q l n s → e ∈ s.rangeList →
      mergeable q e = true → q.type = .anonymous →
      s'.rangeList = Keyed.store MappedRange.id s.rangeList (mergedRange q e) →
      s'.effects = s.effects ++ lastEffect q l (mergedRange q e) → s'.nextId = s.nextId →
      AddOutcome q l n (s',none)
  | unmapped {s s' : Surgery} : Resolved q l n s → q.type = .none →
      s'.rangeList = s.rangeList →
      s'.effects = s.effects ++ [.invalidatePages q.base q.length none] → s'.nextId = s.nextId →
      AddOutcome q l n (s',none)
  | inserted {s s' : Surgery} : Resolved q l n s → q.type ≠ .none →
      s'.rangeList.Perm (rangeOf q s.nextId :: s.rangeList) →
      s'.effects = s.effects ++ lastEffect q l (rangeOf q s.nextId) →
      s'.nextId = s.nextId + 1 → AddOutcome q l n (s',some (rangeOf q s.nextId))

theorem finishRange_outcome {s : Surgery} (h : Resolved q l n s) :
    AddOutcome q l n (finishRange q s) := by
  have inserted : AddOutcome q l n (insertRange q s.hadOverlap s) := by
    unfold insertRange
    split_ifs with ht ho
    · exact .unmapped h ht rfl rfl rfl
    · have hov : ∃ x ∈ l, q.overlaps x := by simpa [h.hadOverlap] using ho
      exact .inserted h ht (linkRange_perm _ _)
        (by simp [lastEffect,hov,Surgery.emit]; rfl) rfl
    · have hov : ¬ ∃ x ∈ l, q.overlaps x := by simpa [h.hadOverlap] using ho
      exact .inserted h ht (linkRange_perm _ _) (by simp [lastEffect,hov]) rfl
  unfold finishRange
  split
  · rename_i s' hs
    split_ifs at hs with hm
    simp only [mergeRange] at hs
    split at hs
    · simp at hs
    · rename_i e he
      have hmem := List.mem_of_find?_eq_some he
      have hmg : mergeable q e = true := List.find?_some he
      simp only [Option.some.injEq] at hs
      subst hs
      split_ifs with ho
      · have hov : ∃ x ∈ l, q.overlaps x := by simpa [h.hadOverlap,Surgery.store] using ho
        exact .merged h hmem hmg hm.2 rfl (by simp [lastEffect,hov]; rfl) rfl
      · have hov : ¬ ∃ x ∈ l, q.overlaps x := by simpa [h.hadOverlap,Surgery.store] using ho
        exact .merged h hmem hmg hm.2 rfl (by simp [lastEffect,hov,Surgery.store]) rfl
  · exact inserted

def LoopExits (q : Request) (fuel : Nat) (l : List MappedRange) (n : Nat) : Prop :=
  match resolveOverlaps q fuel ⟨l,n,[],false,q.resolveOverlap⟩ with
  | .error _ => True
  | .ok s => s.needToResolveOverlap = false

theorem addRange_outcome (hl : RangesOk l n) (hq : q.Ok) (hr : q.resolveOverlap = true) :
    AddOutcome q l n (addRange q l n) ∧
    ∀ k, LoopExits q (k + 2) l n ∧ addRangeFuel (k + 2) q l n = addRange q l n := by
  by_cases he : ∃ e ∈ l, q.overlaps e ∧ Exact q e
  · obtain ⟨e,hm,ho,hx⟩ := he
    obtain ⟨s,o,h⟩ := resolve_kept hl hq hm ho hx
    have hf : ∀ k, addRangeFuel (k + 2) q l n = (s,some (kept q e)) := fun k => by
      simp only [addRangeFuel,hr,h (k + 1)]
    refine ⟨?_,fun k => ⟨by simp only [LoopExits,hr,h (k + 1)],by rw [hf k]; exact (hf 0).symm⟩⟩
    rw [addRange,hf 0]
    exact .kept hm ho hx o
  · obtain ⟨s,o,h⟩ := resolve_done hl hq (fun e hm hx => he ⟨e,hm,hx⟩)
    have hf : ∀ k, addRangeFuel (k + 2) q l n = finishRange q s := fun k => by
      simp only [addRangeFuel,hr,h k]
    refine ⟨?_,fun k => ⟨by simpa only [LoopExits,hr,h k] using o.done,
      by rw [hf k]; exact (hf 0).symm⟩⟩
    rw [addRange,hf 0]
    exact finishRange_outcome o

theorem not_inside_of_not_overlaps {r : MappedRange} {virt : Nat} (hq : q.Ok) (hr : r.Ok)
    (ho : ¬ q.overlaps r) (hv : r.covers virt) : ¬ q.inside virt := by
  have h1 := hq.endAddr_eq
  have h2 := hr.endAddr_eq
  simp only [Request.overlaps,Request.inside,MappedRange.covers] at *
  omega

theorem overlaps_of_inside {r : MappedRange} {virt : Nat} (hq : q.Ok) (hr : r.Ok)
    (hi : q.inside virt) (hv : r.covers virt) : q.overlaps r := by
  by_contra ho
  exact not_inside_of_not_overlaps hq hr ho hv hi

theorem rangeOf_ok (hq : q.Ok) (ht : q.type ≠ .none) (id : Nat) :
    (rangeOf q id).Ok ∧ ∀ virt, (rangeOf q id).covers virt ↔ q.inside virt := by
  have hok : (rangeOf q id).Ok := ⟨hq.bounded,hq.aligned,ht⟩
  refine ⟨hok,fun v => ?_⟩
  simp only [MappedRange.covers,Request.inside,hok.endAddr_eq]
  rfl

theorem kept_covers (hq : q.Ok) {e : MappedRange} (he : Exact q e) (virt : Nat) :
    (e.covers virt ↔ q.inside virt) ∧ ((kept q e).covers virt ↔ q.inside virt) := by
  have h1 := hq.endAddr_eq
  obtain ⟨_,e1,e2,_⟩ := he
  have h2 : (kept q e).endAddr = e.endAddr := rfl
  have h3 : (kept q e).base = e.base := rfl
  simp only [MappedRange.covers,Request.inside,h2,h3]
  omega

def Heir (q : Request) (n : Nat) (r x : MappedRange) : Prop :=
  ∃ y ∈ pieces q n r, x = y ∨
    (mergeable q y = true ∧ q.type = .anonymous ∧ x = mergedRange q y)

theorem Heir.same {r x : MappedRange} (h : Heir q n r x) :
    x.type = r.type ∧ x.pageFlags = r.pageFlags ∧ x.file = r.file := by
  obtain ⟨y,hy,rfl | ⟨_,_,rfl⟩⟩ := h
  · exact pieces_same hy
  · obtain ⟨h1,h2,h3⟩ := pieces_same hy
    obtain ⟨_,m1,m2,m3⟩ := mergedRange_same q y
    exact ⟨m1.trans h1,m2.trans h2,m3.trans h3⟩

inductive Target (q : Request) (l : List MappedRange) (n : Nat) : MappedRange → Prop
  | kept {e : MappedRange} : e ∈ l → Exact q e → Target q l n (kept q e)
  | merged {r y : MappedRange} : r ∈ l → y ∈ pieces q n r → mergeable q y = true →
      q.type = .anonymous → Target q l n (mergedRange q y)
  | new {id : Nat} : n ≤ id → (∀ e ∈ l, ¬ (q.overlaps e ∧ Exact q e)) → Target q l n (rangeOf q id)

theorem Target.same {x : MappedRange} (h : Target q l n x) :
    x.type = q.type ∧ x.pageFlags = q.pageFlags := by
  cases h with
  | kept _ he => exact ⟨he.2.2.2.symm,rfl⟩
  | @merged r y _ _ hg _ =>
    obtain ⟨_,h1,h2,_⟩ := mergedRange_same q y
    obtain ⟨g1,g2,_⟩ := mergeable_iff.mp hg
    exact ⟨h1.trans g1.symm,h2.trans g2.symm⟩
  | new => exact ⟨rfl,rfl⟩

section Outcome

variable {out : Surgery × Option MappedRange} (h : AddOutcome q l n out) (hl : RangesOk l n)
  (hq : q.Ok)
include h hl hq

theorem AddOutcome.rangesOk : RangesOk out.1.rangeList out.1.nextId := by
  cases h with
  | @kept e s hm ho he o =>
    have hk : (SabaOS.Mem.kept q e).Ok :=
      ⟨(hl.each e hm).bounded,(hl.each e hm).aligned,(hl.each e hm).typed⟩
    have hke (v : Nat) : (SabaOS.Mem.kept q e).covers v ↔ e.covers v := by
      rw [(kept_covers hq he v).1,(kept_covers hq he v).2]
    refine ⟨o.ids,?_,?_,?_⟩
    · intro x hx
      rw [o.nextId]
      rcases o.old x hx with rfl | ⟨hx,_⟩
      · exact hl.fresh e hm
      · exact hl.fresh x hx
    · intro x hx
      rcases o.old x hx with rfl | ⟨hx,_⟩
      · exact hk
      · exact hl.each x hx
    · intro x hx y hy hne
      rcases o.old x hx with rfl | ⟨hx,hxe⟩ <;> rcases o.old y hy with rfl | ⟨hy,hye⟩
      · exact absurd rfl hne
      · exact fun v hv => hl.apart e hm y hy (Ne.symm hye) v ⟨(hke v).mp hv.1,hv.2⟩
      · exact fun v hv => hl.apart x hx e hm hxe v ⟨hv.1,(hke v).mp hv.2⟩
      · exact hl.apart x hx y hy hne
  | @merged e s s' hr hm hg ht hlist _ hid =>
    have hs := hr.ok hl hq
    obtain ⟨hok,hcov⟩ := mergedRange_ok hq (hs.each e hm) hg
    have hmem : ∀ x ∈ s'.rangeList, x = mergedRange q e ∨ (x ∈ s.rangeList ∧ x ≠ e) := by
      intro x hx
      rw [hlist] at hx
      exact (Keyed.mem_store_iff hs.ids hm (mergedRange_same q e).1 x).mp hx
    have hap : ∀ x ∈ s.rangeList, x ≠ e → Apart (mergedRange q e) x := by
      rintro x hx hxe v ⟨hv1,hv2⟩
      rcases (hcov v).mp hv1 with hv1 | hv1
      · exact hs.apart e hm x hx hxe.symm v ⟨hv1,hv2⟩
      · exact hr.not_overlaps hl hq hx (overlaps_of_inside hq (hs.each x hx) hv1 hv2)
    refine ⟨?_,?_,?_,?_⟩
    · rw [hlist,Keyed.map_key_store]
      exact hs.ids
    · intro x hx
      rw [hid]
      rcases hmem x hx with rfl | ⟨hx,_⟩
      · rw [(mergedRange_same q e).1]; exact hs.fresh e hm
      · exact hs.fresh x hx
    · intro x hx
      rcases hmem x hx with rfl | ⟨hx,_⟩
      · exact hok
      · exact hs.each x hx
    · intro x hx y hy hne
      rcases hmem x hx with rfl | ⟨hx,hxe⟩ <;> rcases hmem y hy with rfl | ⟨hy,hye⟩
      · exact absurd rfl hne
      · exact hap y hy hye
      · exact fun v hv => hap x hx hxe v ⟨hv.2,hv.1⟩
      · exact hs.apart x hx y hy hne
  | @unmapped s s' hr _ hlist _ hid =>
    rw [hlist,hid]
    exact hr.ok hl hq
  | @inserted s s' hr ht hlist _ hid =>
    have hs := hr.ok hl hq
    obtain ⟨hok,hcov⟩ := rangeOf_ok hq ht s.nextId
    have hap : ∀ x ∈ s.rangeList, Apart (rangeOf q s.nextId) x := by
      rintro x hx v ⟨hv1,hv2⟩
      exact hr.not_overlaps hl hq hx (overlaps_of_inside hq (hs.each x hx) ((hcov v).mp hv1) hv2)
    refine ⟨?_,?_,?_,?_⟩
    · refine (hlist.map MappedRange.id).nodup_iff.mpr (List.nodup_cons.mpr ⟨?_,hs.ids⟩)
      intro hmem
      obtain ⟨x,hx,he⟩ := List.mem_map.mp hmem
      have hlt := hs.fresh x hx
      change x.id = s.nextId at he
      omega
    · intro x hx
      rw [hid]
      rcases List.mem_cons.mp (hlist.mem_iff.mp hx) with rfl | hx
      · exact Nat.lt_succ_self _
      · exact Nat.lt_succ_of_lt (hs.fresh x hx)
    · intro x hx
      rcases List.mem_cons.mp (hlist.mem_iff.mp hx) with rfl | hx
      · exact hok
      · exact hs.each x hx
    · intro x hx y hy hne
      rcases List.mem_cons.mp (hlist.mem_iff.mp hx) with rfl | hx <;>
        rcases List.mem_cons.mp (hlist.mem_iff.mp hy) with rfl | hy
      · exact absurd rfl hne
      · exact hap y hy
      · exact fun v hv => hap x hx v ⟨hv.2,hv.1⟩
      · exact hs.apart x hx y hy hne

theorem AddOutcome.flags : ∀ x ∈ out.1.rangeList, (∃ r ∈ l, x.pageFlags = r.pageFlags) ∨
    (q.type ≠ .none ∧ x.pageFlags = q.pageFlags) := by
  have pieces {s : Surgery} (hres : Resolved q l n s) : ∀ x ∈ s.rangeList,
      ∃ r ∈ l, x.pageFlags = r.pageFlags := by
    intro x hx
    obtain ⟨r,hr,hxr⟩ := hres.mem_iff.mp hx
    exact ⟨r,hr,(pieces_same hxr).2.1⟩
  intro x hx
  cases h with
  | @kept e s hm ho he o =>
    rcases o.old x hx with rfl | ⟨hx,_⟩
    · exact .inr ⟨fun ht => (hl.each e hm).typed (he.2.2.2.symm.trans ht),rfl⟩
    · exact .inl ⟨x,hx,rfl⟩
  | @merged e s s' hres hm hg ht hlist _ hid =>
    have hs := hres.ok hl hq
    have hx' : x ∈ Keyed.store MappedRange.id s.rangeList (mergedRange q e) := hlist ▸ hx
    obtain ⟨m0,_,m2,_⟩ := mergedRange_same q e
    rcases (Keyed.mem_store_iff hs.ids hm m0 x).mp hx' with rfl | ⟨hx,_⟩
    · exact .inr ⟨by simp [ht],m2.trans (mergeable_iff.mp hg).2.1.symm⟩
    · exact .inl (pieces hres x hx)
  | @unmapped s s' hres _ hlist _ hid => exact .inl (pieces hres x (hlist ▸ hx))
  | @inserted s s' hres ht hlist _ hid =>
    rcases List.mem_cons.mp (hlist.mem_iff.mp hx) with rfl | hx
    · exact .inr ⟨ht,rfl⟩
    · exact .inl (pieces hres x hx)

theorem AddOutcome.outside {virt : Nat} (hv : ¬ q.inside virt) :
    (∀ x ∈ out.1.rangeList, x.covers virt → ∃ r ∈ l, r.covers virt ∧ Heir q n r x) ∧
    (∀ r ∈ l, r.covers virt → ∃ x ∈ out.1.rangeList, x.covers virt ∧ Heir q n r x) := by
  cases h with
  | @kept e s hm ho he o =>
    have hk := kept_covers hq he virt
    have heir : ∀ x ∈ l, x.covers virt → x ≠ e → Heir q n x x := by
      intro x hx hxv hxe
      have hno : ¬ q.overlaps x := by
        intro hox
        have hl0 := (exact_hollow hq (hl.each x hx) ho he (hl.apart e hm x hx hxe.symm) hox).1
        obtain ⟨v1,v2⟩ := hxv
        rw [(hl.each x hx).endAddr_eq] at v2
        omega
      exact ⟨x,by simp [pieces_of_not_overlaps hno],.inl rfl⟩
    constructor
    · intro x hx hxv
      rcases o.old x hx with rfl | ⟨hx,hxe⟩
      · exact absurd (hk.2.mp hxv) hv
      · exact ⟨x,hx,hxv,heir x hx hxv hxe⟩
    · intro r hr hrv
      have hre : r ≠ e := fun hre => hv (hk.1.mp (hre ▸ hrv))
      refine ⟨r,o.stays r hr hre ?_,hrv,heir r hr hrv hre⟩
      obtain ⟨v1,v2⟩ := hrv
      rw [(hl.each r hr).endAddr_eq] at v2
      omega
  | @merged e s s' hr hm hg ht hlist _ hid =>
    have hs := hr.ok hl hq
    obtain ⟨_,hcov⟩ := mergedRange_ok hq (hs.each e hm) hg
    have hmem := Keyed.mem_store_iff hs.ids hm (mergedRange_same q e).1
    rw [← hlist] at hmem
    constructor
    · intro x hx hxv
      rcases (hmem x).mp hx with rfl | ⟨hx,_⟩
      · have hev : e.covers virt := ((hcov virt).mp hxv).resolve_right hv
        obtain ⟨_,r,hrl,hpr,hrv⟩ := hr.covers_sub hl hq hm hev
        exact ⟨r,hrl,hrv,e,hpr,.inr ⟨hg,ht,rfl⟩⟩
      · obtain ⟨_,r,hrl,hpr,hrv⟩ := hr.covers_sub hl hq hx hxv
        exact ⟨r,hrl,hrv,x,hpr,.inl rfl⟩
    · intro r hrl hrv
      obtain ⟨x,hx,hpx,hxv⟩ := hr.covers_of hl hq hrl hrv hv
      by_cases hxe : x = e
      · subst hxe
        exact ⟨mergedRange q x,(hmem _).mpr (.inl rfl),(hcov virt).mpr (.inl hxv),
          x,hpx,.inr ⟨hg,ht,rfl⟩⟩
      · exact ⟨x,(hmem x).mpr (.inr ⟨hx,hxe⟩),hxv,x,hpx,.inl rfl⟩
  | @unmapped s s' hr _ hlist _ hid =>
    change (∀ x ∈ s'.rangeList, _) ∧ ∀ r ∈ l, _ → ∃ x ∈ s'.rangeList, _
    rw [hlist]
    constructor
    · intro x hx hxv
      obtain ⟨_,r,hrl,hpr,hrv⟩ := hr.covers_sub hl hq hx hxv
      exact ⟨r,hrl,hrv,x,hpr,.inl rfl⟩
    · intro r hrl hrv
      obtain ⟨x,hx,hpx,hxv⟩ := hr.covers_of hl hq hrl hrv hv
      exact ⟨x,hx,hxv,x,hpx,.inl rfl⟩
  | @inserted s s' hr ht hlist _ hid =>
    constructor
    · intro x hx hxv
      rcases List.mem_cons.mp (hlist.mem_iff.mp hx) with rfl | hx
      · exact absurd (((rangeOf_ok hq ht s.nextId).2 virt).mp hxv) hv
      · obtain ⟨_,r,hrl,hpr,hrv⟩ := hr.covers_sub hl hq hx hxv
        exact ⟨r,hrl,hrv,x,hpr,.inl rfl⟩
    · intro r hrl hrv
      obtain ⟨x,hx,hpx,hxv⟩ := hr.covers_of hl hq hrl hrv hv
      exact ⟨x,hlist.mem_iff.mpr (by simp [hx]),hxv,x,hpx,.inl rfl⟩

theorem AddOutcome.inside {virt : Nat} (hv : q.inside virt) :
    (q.type = .none → ∀ x ∈ out.1.rangeList, ¬ x.covers virt) ∧
    (q.type ≠ .none → ∃ x ∈ out.1.rangeList, x.covers virt ∧ Target q l n x) := by
  cases h with
  | @kept e s hm ho he o =>
    refine ⟨fun ht => absurd (he.2.2.2.symm.trans ht) (hl.each e hm).typed,fun _ => ?_⟩
    exact ⟨_,o.mem,(kept_covers hq he virt).2.mpr hv,.kept hm he⟩
  | @merged e s s' hr hm hg ht hlist _ hid =>
    have hs := hr.ok hl hq
    obtain ⟨_,hcov⟩ := mergedRange_ok hq (hs.each e hm) hg
    have hmem := Keyed.mem_store_iff hs.ids hm (mergedRange_same q e).1
    rw [← hlist] at hmem
    refine ⟨fun h => by simp [ht] at h,fun _ => ?_⟩
    obtain ⟨r,hrl,hpr⟩ := hr.mem_iff.mp hm
    exact ⟨_,(hmem _).mpr (.inl rfl),(hcov virt).mpr (.inr hv),.merged hrl hpr hg ht⟩
  | @unmapped s s' hr ht hlist _ hid =>
    refine ⟨fun _ x hx hxv => ?_,fun h => absurd ht h⟩
    change x ∈ s'.rangeList at hx
    rw [hlist] at hx
    exact (hr.covers_sub hl hq hx hxv).1 hv
  | @inserted s s' hr ht hlist _ hid =>
    refine ⟨fun h => absurd h ht,fun _ => ?_⟩
    refine ⟨_,hlist.mem_iff.mpr (by simp),((rangeOf_ok hq ht s.nextId).2 virt).mpr hv,
      .new ?_ hr.inexact⟩
    rw [hr.nextId]
    split_ifs <;> omega

end Outcome

theorem add_range_resolves_overlap (q : Request) (l : List MappedRange) (n : Nat)
    (hl : RangesOk l n) (hq : q.Ok) (hr : q.resolveOverlap = true) :
    (∀ k, LoopExits q (k + 2) l n ∧ addRangeFuel (k + 2) q l n = addRange q l n) ∧
    RangesOk (addRange q l n).1.rangeList (addRange q l n).1.nextId ∧
    (addRange q l n).1.rangeList.Pairwise Apart ∧
    (∀ virt, q.inside virt → q.type ≠ .none → ∃ r ∈ (addRange q l n).1.rangeList,
      r.covers virt ∧ r.type = q.type ∧ r.pageFlags = q.pageFlags) ∧
    (∀ virt, q.inside virt → q.type = .none →
      ∀ r ∈ (addRange q l n).1.rangeList, ¬ r.covers virt) ∧
    (∀ virt, ¬ q.inside virt → ∀ type flags file,
      (∃ r ∈ (addRange q l n).1.rangeList,
        r.covers virt ∧ r.type = type ∧ r.pageFlags = flags ∧ r.file = file) ↔
      (∃ r ∈ l, r.covers virt ∧ r.type = type ∧ r.pageFlags = flags ∧ r.file = file)) := by
  obtain ⟨h,hfuel⟩ := addRange_outcome hl hq hr
  have hok := h.rangesOk hl hq
  refine ⟨hfuel,hok,?_,?_,?_,?_⟩
  · exact List.Nodup.pairwise_of_forall_ne hok.ids.of_map hok.apart
  · intro v hv ht
    obtain ⟨x,hx,hxv,htg⟩ := (h.inside hl hq hv).2 ht
    exact ⟨x,hx,hxv,htg.same⟩
  · intro v hv ht
    exact (h.inside hl hq hv).1 ht
  · intro v hv type flags file
    obtain ⟨h1,h2⟩ := h.outside hl hq hv
    constructor
    · rintro ⟨x,hx,hxv,rfl,rfl,rfl⟩
      obtain ⟨r,hr,hrv,heir⟩ := h1 x hx hxv
      obtain ⟨e1,e2,e3⟩ := heir.same
      exact ⟨r,hr,hrv,e1.symm,e2.symm,e3.symm⟩
    · rintro ⟨r,hr,hrv,rfl,rfl,rfl⟩
      obtain ⟨x,hx,hxv,heir⟩ := h2 r hr hrv
      exact ⟨x,hx,hxv,heir.same⟩

def heapRange : MappedRange := ⟨0,0x1000,0x1000,0x4000,7,.anonymous,0,none,0⟩

def holeRequest : Request := ⟨0x2000,0x1000,0,.none,0,none,0,false,true,false⟩

theorem heapRange_ok : RangesOk [heapRange] 1 := by
  refine ⟨by simp,by simp [heapRange],?_,by simp⟩
  intro r hr
  rw [List.mem_singleton.mp hr]
  exact ⟨by decide,by decide,by decide⟩

theorem add_range_resolves_overlap_hole :
    (addRange holeRequest [heapRange] 1).1.rangeList =
      [{ heapRange with length := 0x1000 },
        { heapRange with id := 1, base := 0x3000, originalBase := 0x3000, length := 0x2000,
                         fileOffset := 0x2000 }] ∧
    (addRange holeRequest [heapRange] 1).1.rangeList.Pairwise Apart :=
  ⟨by decide,(add_range_resolves_overlap holeRequest [heapRange] 1 heapRange_ok
    ⟨by decide,by decide⟩ rfl).2.2.1⟩

end SabaOS.Mem
