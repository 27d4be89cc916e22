import SabaOS.Mem.AddRange
import SabaOS.Mem.Effects

namespace SabaOS.Mem
open SabaOS.Klib SabaOS.Lib

def MappedRange.Resized (r x : MappedRange) : Prop :=
  ∃ base length, x = { r with base := base, length := length }

theorem mergedRange_resized (q : Request) (r : MappedRange) : r.Resized (mergedRange q r) := by
  unfold mergedRange
  split_ifs
  · exact ⟨_,_,rfl⟩
  · exact ⟨_,_,rfl⟩

theorem MappedRange.Resized.trans {r x y : MappedRange} (h : r.Resized x) (h' : x.Resized y) :
    r.Resized y := by
  obtain ⟨_,_,rfl⟩ := h
  obtain ⟨b,n,rfl⟩ := h'
  exact ⟨b,n,rfl⟩

def Touched (q : Request) (r : MappedRange) (virt : Nat) : Prop :=
  (q.inside virt ∧ ¬ (Exact q r ∧ r.pageFlags = q.pageFlags)) ∨ (Splits q r ∧ q.endAddr ≤ virt)

def Request.swallows (q : Request) (r : MappedRange) : Prop :=
  q.base ≤ r.base ∧ r.endAddr ≤ q.endAddr

section Pieces

variable {q : Request} {l : List MappedRange} {n key : Nat} {r : MappedRange}

theorem fates_of_forall_stay {effects : List Effect} (h : ∀ e ∈ effects, e.fate key = .stay) :
    fates key effects = .stay := by
  induction effects with
  | nil => rfl
  | cons e effects ih =>
    rw [fates,h e (by simp),ih fun x hx => h x (by simp [hx])]
    rfl

theorem pieceEffects_untouched (hq : q.Ok) (hr : r.Ok) (hv : ¬ r.covers (key * pageSize)) :
    fates key (pieceEffects q n r) = .stay := by
  have h1 := hr.endAddr_eq
  refine fates_of_forall_stay fun e he => ?_
  unfold pieceEffects at he
  split_ifs at he with ho hb hend hend
  · rcases (by simpa using he : e = _ ∨ e = _) with rfl | rfl
    · rw [Effect.fate,if_neg]
      exact fun hc => hv ⟨hc.1,by rw [h1]; exact hc.2⟩
    · rfl
  · simp at he
  · simp at he
  · have hs : Splits q r := ⟨ho,by omega,by omega⟩
    obtain ⟨e1,e2⟩ := splitPart_spec n hq hr hs
    obtain rfl := (by simpa using he : e = _)
    rw [Effect.fate,if_neg]
    rintro ⟨c1,c2⟩
    have := hq.endAddr_eq
    have := hs.2.1
    have := hs.2.2
    exact hv ⟨by omega,by omega⟩
  · simp at he

theorem fates_flatMap (hl : RangesOk l n) (hq : q.Ok) (hr : r ∈ l)
    (hv : r.covers (key * pageSize)) :
    fates key (l.flatMap (pieceEffects q n)) = fates key (pieceEffects q n r) := by
  have hnodup : l.Nodup := hl.ids.of_map
  have stays {m : List MappedRange} (hm : ∀ x ∈ m, x ∈ l ∧ x ≠ r) :
      fates key (m.flatMap (pieceEffects q n)) = .stay := by
    induction m with
    | nil => rfl
    | cons x m ih =>
      obtain ⟨hx,hne⟩ := hm x (by simp)
      rw [List.flatMap_cons,fates_append,ih fun y hy => hm y (by simp [hy]),
        pieceEffects_untouched hq (hl.each x hx) fun hxv => hne (hl.eq_of_covers hx hr hxv hv)]
      rfl
  obtain ⟨a,b,rfl⟩ := List.append_of_mem hr
  rw [List.nodup_append,List.nodup_cons] at hnodup
  rw [List.flatMap_append,List.flatMap_cons,fates_append,fates_append,
    stays fun x hx => ⟨by simp [hx],hnodup.2.2 x hx r (by simp)⟩,
    stays fun x hx => ⟨by simp [hx],fun hxr => hnodup.2.1.1 (hxr ▸ hx)⟩,Fate.stay_next]
  rfl

inductive PieceFate (q : Request) (n virt : Nat) (r : MappedRange) : Fate → Prop
  | outside {x : MappedRange} : ¬ q.inside virt → ¬ Touched q r virt → x ∈ pieces q n r →
      x.covers virt → r.Resized x → PieceFate q n virt r .stay
  | split : ¬ q.inside virt → Splits q r → q.endAddr ≤ virt →
      splitPart q n r ∈ pieces q n r → (splitPart q n r).covers virt →
      PieceFate q n virt r (.relink (splitPart q n r))
  | swallowed : q.inside virt → q.swallows r → PieceFate q n virt r .drop
  | residual : q.inside virt → ¬ q.swallows r → PieceFate q n virt r .stay

theorem pieceEffects_fate (hq : q.Ok) (hr : r.Ok) (hv : r.covers (key * pageSize)) :
    PieceFate q n (key * pageSize) r (fates key (pieceEffects q n r)) := by
  have h1 := hq.endAddr_eq
  have h2 := hr.endAddr_eq
  by_cases hin : q.inside (key * pageSize)
  · have ho := overlaps_of_inside hq hr hin hv
    by_cases hw : q.swallows r
    · have he : pieceEffects q n r = [.invalidatePages r.base r.length none,.delete r] := by
        simp [pieceEffects,ho,hw.1,hw.2]
      have hc : r.base ≤ key * pageSize ∧ key * pageSize < r.base + r.length := h2 ▸ hv
      rw [he,fates,Effect.fate,if_pos hc]
      exact .swallowed hin hw
    · have hs : fates key (pieceEffects q n r) = .stay := by
        refine fates_of_forall_stay fun e he => ?_
        unfold pieceEffects at he
        split_ifs at he with hb hend hend
        · exact absurd ⟨hb,hend⟩ hw
        · simp at he
        · simp at he
        · have hsp : Splits q r := ⟨ho,by omega,by omega⟩
          obtain ⟨e1,e2⟩ := splitPart_spec n hq hr hsp
          obtain rfl := (by simpa using he : e = _)
          rw [Effect.fate,if_neg]
          rintro ⟨c1,_⟩
          have := hin.2
          omega
      rw [hs]
      exact .residual hin hw
  · obtain ⟨x,hx,hxv⟩ := covers_pieces n hq hr hv hin
    by_cases hsp : Splits q r ∧ q.endAddr ≤ key * pageSize
    · obtain ⟨hs,hge⟩ := hsp
      obtain ⟨e1,e2⟩ := splitPart_spec n hq hr hs
      have hm : splitPart q n r ∈ pieces q n r := by
        simp [pieces,hs.1,Nat.not_le.mpr hs.2.1,Nat.not_le.mpr hs.2.2]
      have hc : (splitPart q n r).base ≤ key * pageSize ∧
          key * pageSize < (splitPart q n r).base + (splitPart q n r).length := by
        have := hs.2.2
        have := hv.2
        omega
      have he : pieceEffects q n r = [.invalidatePages (splitPart q n r).base
          (splitPart q n r).length (some (splitPart q n r))] := by
        simp [pieceEffects,hs.1,Nat.not_le.mpr hs.2.1,Nat.not_le.mpr hs.2.2]
      have hcov : (splitPart q n r).covers (key * pageSize) :=
        ⟨hc.1,by rw [(pieces_ok hq hr hm).endAddr_eq]; exact hc.2⟩
      rw [he,fates,Effect.fate,if_pos hc]
      exact .split hin hs hge hm hcov
    · have hs : fates key (pieceEffects q n r) = .stay := by
        refine fates_of_forall_stay fun e he => ?_
        unfold pieceEffects at he
        split_ifs at he with ho hb hend hend
        · have := hv.1
          have := hv.2
          exact absurd ⟨by omega,by omega⟩ hin
        · simp at he
        · simp at he
        · have hs : Splits q r := ⟨ho,by omega,by omega⟩
          obtain ⟨e1,e2⟩ := splitPart_spec n hq hr hs
          obtain rfl := (by simpa using he : e = _)
          rw [Effect.fate,if_neg]
          rintro ⟨c1,_⟩
          exact hsp ⟨hs,by omega⟩
        · simp at he
      have hres : r.Resized x := by
        rcases mem_pieces hx with ⟨_,rfl⟩ | ⟨_,_,_,rfl⟩ | ⟨_,_,_,rfl⟩ | ⟨hs',rfl | rfl⟩
        · exact ⟨_,_,rfl⟩
        · exact ⟨_,_,rfl⟩
        · exact ⟨_,_,rfl⟩
        · exact ⟨_,_,rfl⟩
        · obtain ⟨e1,_⟩ := splitPart_spec n hq hr hs'
          have := hxv.1
          exact absurd ⟨hs',by omega⟩ hsp
      rw [hs]
      exact .outside hin (fun ht => ht.elim (fun h => hin h.1) hsp) hx hxv hres

end Pieces

inductive PageFate (q : Request) (n : Nat) (after : List MappedRange) (virt : Nat)
    (r : MappedRange) : Fate → Prop
  | stay {x : MappedRange} : x ∈ after → x.covers virt → r.Resized x → ¬ Touched q r virt →
      PageFate q n after virt r .stay
  | drop : q.inside virt → (q.swallows r ∧ ¬ Exact q r) ∨ q.type = .none →
      PageFate q n after virt r .drop
  | split {x : MappedRange} : x ∈ after → x.covers virt → (splitPart q n r).Resized x →
      ¬ q.inside virt → Splits q r → q.endAddr ≤ virt →
      PageFate q n after virt r (.relink (splitPart q n r))
  | moved {x : MappedRange} : x ∈ after → x.covers virt → x.type = q.type →
      x.pageFlags = q.pageFlags → q.inside virt → (q.swallows r → Exact q r) →
      ¬ (Exact q r ∧ r.pageFlags = q.pageFlags) → PageFate q n after virt r (.relink x)

section Outcome

variable {q : Request} {l : List MappedRange} {n key : Nat} {r : MappedRange}

theorem invalidate_fate (range : Option MappedRange) :
    fates key [.invalidatePages q.base q.length range] =
      if q.inside (key * pageSize) then .ofRange range else .stay := rfl

theorem lastEffect_fate {x : MappedRange} (hq : q.Ok) (hl : RangesOk l n) (hr : r ∈ l)
    (hv : r.covers (key * pageSize)) :
    fates key (lastEffect q l x) = if q.inside (key * pageSize) then .relink x else .stay := by
  unfold lastEffect
  split_ifs with ho hin hin
  · exact (invalidate_fate (some x)).trans (if_pos hin)
  · exact (invalidate_fate (some x)).trans (if_neg hin)
  · exact absurd ⟨r,hr,overlaps_of_inside hq (hl.each r hr) hin hv⟩ ho
  · rfl

theorem Exact.swallows (he : Exact q r) : q.swallows r := ⟨he.2.1.le,he.2.2.1.ge⟩

theorem AddOutcome.fate {out : Surgery × Option MappedRange} (h : AddOutcome q l n out)
    (hl : RangesOk l n) (hq : q.Ok) (hr : r ∈ l) (hv : r.covers (key * pageSize)) :
    PageFate q n out.1.rangeList (key * pageSize) r (fates key out.1.effects) := by
  have hrok := hl.each r hr
  cases h with
  | @kept e s hm ho he o =>
    obtain ⟨hollow,heff,hh⟩ := o.effects
    have hhs : fates key hollow = .stay := by
      refine fates_of_forall_stay fun x hx => ?_
      obtain ⟨y,_,h0,rfl | rfl⟩ := hh x hx
      · rw [Effect.fate,if_neg]
        rw [h0]
        omega
      · rfl
    have hfe : fates key s.effects = fates key (keptEffects q e) := by
      rw [heff,fates_append,fates_append,hhs]
      exact Fate.stay_next _
    change PageFate q n s.rangeList _ r (fates key s.effects)
    rw [hfe]
    by_cases hre : r = e
    · subst hre
      have hin := (kept_covers hq he _).1.mp hv
      have hcov := (kept_covers hq he _).2.mpr hin
      unfold keptEffects
      by_cases hfl : r.pageFlags = q.pageFlags
      · have hk : SabaOS.Mem.kept q r = r := by simp [SabaOS.Mem.kept,← hfl]
        rw [if_neg (by simpa using hfl)]
        refine .stay o.mem hcov (hk ▸ ⟨_,_,rfl⟩) ?_
        rintro (⟨_,hn⟩ | ⟨hs,_⟩)
        · exact hn ⟨he,hfl⟩
        · exact absurd he.2.1.le (Nat.not_le.mpr hs.2.1)
      · rw [if_pos hfl]
        have hc : r.base ≤ key * pageSize ∧ key * pageSize < r.base + r.length :=
          hrok.endAddr_eq ▸ hv
        rw [fates,Effect.fate,if_pos hc]
        exact .moved o.mem hcov he.2.2.2.symm rfl hin (fun _ => he) fun hx => hfl hx.2
    · have hap := hl.apart e hm r hr (Ne.symm hre)
      have hlen : r.length ≠ 0 := by
        have := hrok.endAddr_eq
        obtain ⟨v1,v2⟩ := hv
        omega
      have hev : ¬ e.covers (key * pageSize) := fun hev => hap _ ⟨hev,hv⟩
      have hs : fates key (keptEffects q e) = .stay := by
        unfold keptEffects
        split_ifs
        · rw [fates,Effect.fate,if_neg]
          · rfl
          · exact fun hc => hev ⟨hc.1,by rw [(hl.each e hm).endAddr_eq]; exact hc.2⟩
        · rfl
      rw [hs]
      refine .stay (o.stays r hr hre hlen) hv ⟨_,_,rfl⟩ ?_
      rintro (⟨hin,_⟩ | ⟨hsp,_⟩)
      · exact hev ((kept_covers hq he _).1.mpr hin)
      · exact hlen (exact_hollow hq hrok ho he hap hsp.1).1
  | @merged e s s' hres hm hg ht hlist heff hid =>
    have hs := hres.ok hl hq
    obtain ⟨_,hcov⟩ := mergedRange_ok hq (hs.each e hm) hg
    have hmem := Keyed.mem_store_iff hs.ids hm (mergedRange_same q e).1
    rw [← hlist] at hmem
    have lift {x : MappedRange} (hx : x ∈ s.rangeList) (hxv : x.covers (key * pageSize)) :
        ∃ y ∈ s'.rangeList, y.covers (key * pageSize) ∧ x.Resized y := by
      by_cases hxe : x = e
      · subst hxe
        exact ⟨_,(hmem _).mpr (.inl rfl),(hcov _).mpr (.inl hxv),mergedRange_resized q x⟩
      · exact ⟨x,(hmem x).mpr (.inr ⟨hx,hxe⟩),hxv,_,_,rfl⟩
    have hx : ¬ Exact q r ∨ ¬ q.inside (key * pageSize) := by
      by_cases hin : q.inside (key * pageSize)
      · exact .inl fun he => hres.inexact r hr ⟨overlaps_of_inside hq hrok hin hv,he⟩
      · exact .inr hin
    change PageFate q n s'.rangeList _ r (fates key s'.effects)
    rw [heff,hres.effects,fates_append,fates_flatMap hl hq hr hv,lastEffect_fate hq hl hr hv]
    have hp := pieceEffects_fate (n := n) hq hrok hv
    generalize fates key (pieceEffects q n r) = f at hp
    cases hp with
    | @outside x hin hnt hxp hxv hxr =>
      obtain ⟨y,hy,hyv,hyr⟩ := lift (hres.mem_iff.mpr ⟨r,hr,hxp⟩) hxv
      rw [if_neg hin]
      exact .stay hy hyv (hxr.trans hyr) hnt
    | split hin hsp hge hxp hxv =>
      obtain ⟨y,hy,hyv,hyr⟩ := lift (hres.mem_iff.mpr ⟨r,hr,hxp⟩) hxv
      rw [if_neg hin]
      exact .split hy hyv hyr hin hsp hge
    | swallowed hin hw =>
      rw [if_pos hin]
      exact .drop hin (.inl ⟨hw,hx.resolve_right (not_not.mpr hin)⟩)
    | residual hin hw =>
      rw [if_pos hin]
      obtain ⟨_,m1,m2,_⟩ := mergedRange_same q e
      obtain ⟨g1,g2,_⟩ := mergeable_iff.mp hg
      exact .moved ((hmem _).mpr (.inl rfl)) ((hcov _).mpr (.inr hin)) (m1.trans g1.symm)
        (m2.trans g2.symm) hin (fun h => absurd h hw) fun h => hw h.1.swallows
  | @unmapped s s' hres ht hlist heff hid =>
    change PageFate q n s'.rangeList _ r (fates key s'.effects)
    rw [heff,hres.effects,fates_append,fates_flatMap hl hq hr hv,invalidate_fate,hlist]
    have hp := pieceEffects_fate (n := n) hq hrok hv
    generalize fates key (pieceEffects q n r) = f at hp
    cases hp with
    | @outside x hin hnt hxp hxv hxr =>
      rw [if_neg hin]
      exact .stay (hres.mem_iff.mpr ⟨r,hr,hxp⟩) hxv hxr hnt
    | split hin hsp hge hxp hxv =>
      rw [if_neg hin]
      exact .split (hres.mem_iff.mpr ⟨r,hr,hxp⟩) hxv ⟨_,_,rfl⟩ hin hsp hge
    | swallowed hin hw =>
      rw [if_pos hin]
      exact .drop hin (.inr ht)
    | residual hin hw =>
      rw [if_pos hin]
      exact .drop hin (.inr ht)
  | @inserted s s' hres ht hlist heff hid =>
    have hx : ¬ Exact q r ∨ ¬ q.inside (key * pageSize) := by
      by_cases hin : q.inside (key * pageSize)
      · exact .inl fun he => hres.inexact r hr ⟨overlaps_of_inside hq hrok hin hv,he⟩
      · exact .inr hin
    change PageFate q n s'.rangeList _ r (fates key s'.effects)
    rw [heff,hres.effects,fates_append,fates_flatMap hl hq hr hv,lastEffect_fate hq hl hr hv]
    have hp := pieceEffects_fate (n := n) hq hrok hv
    generalize fates key (pieceEffects q n r) = f at hp
    have lift {x : MappedRange} (hx : x ∈ pieces q n r) : x ∈ s'.rangeList :=
      hlist.mem_iff.mpr (by simp [hres.mem_iff.mpr ⟨r,hr,hx⟩])
    cases hp with
    | @outside x hin hnt hxp hxv hxr =>
      rw [if_neg hin]
      exact .stay (lift hxp) hxv hxr hnt
    | split hin hsp hge hxp hxv =>
      rw [if_neg hin]
      exact .split (lift hxp) hxv ⟨_,_,rfl⟩ hin hsp hge
    | swallowed hin hw =>
      rw [if_pos hin]
      exact .drop hin (.inl ⟨hw,hx.resolve_right (not_not.mpr hin)⟩)
    | residual hin hw =>
      rw [if_pos hin]
      exact .moved (hlist.mem_iff.mpr (by simp)) (((rangeOf_ok hq ht s.nextId).2 _).mpr hin) rfl
        rfl hin (fun h => absurd h hw) fun h => hw h.1.swallows

theorem delete_in_left {a b pre post : List Effect} {x : MappedRange}
    (h : a ++ b = pre ++ .delete x :: post) (hb : .delete x ∉ b) :
    ∃ c, a = pre ++ .delete x :: c := by
  rcases List.append_eq_append_iff.mp h with ⟨c,h1,h2⟩ | ⟨c,h1,h2⟩
  · exact absurd (by simp [h2]) hb
  · cases c with
    | nil =>
      have hb' : b = .delete x :: post := by simpa using h2.symm
      exact absurd (by simp [hb']) hb
    | cons y c =>
      simp only [List.cons_append,List.cons.injEq] at h2
      exact ⟨c,by rw [h1,← h2.1]⟩

def Preceded (effects : List Effect) : Prop :=
  ∀ pre x post, effects = pre ++ .delete x :: post →
    .invalidatePages x.base x.length none ∈ pre

theorem Preceded.append {a b : List Effect} (ha : Preceded a) (hb : Preceded b) :
    Preceded (a ++ b) := by
  intro pre x post h
  by_cases hx : .delete x ∈ b
  · rcases List.append_eq_append_iff.mp h with ⟨c,h1,h2⟩ | ⟨c,h1,h2⟩
    · rw [h1]
      exact List.mem_append_right _ (hb c x post h2)
    · cases c with
      | nil => exact absurd (hb [] x post (by simpa using h2.symm)) (by simp)
      | cons y c =>
        simp only [List.cons_append,List.cons.injEq] at h2
        exact ha pre x c (by rw [h1,← h2.1])
  · obtain ⟨c,hc⟩ := delete_in_left h hx
    exact ha pre x c hc

theorem pieceEffects_preceded (q : Request) (n : Nat) (l : List MappedRange) :
    Preceded (l.flatMap (pieceEffects q n)) := by
  induction l with
  | nil =>
    intro pre x post h
    simp at h
  | cons r l ih =>
    rw [List.flatMap_cons]
    refine Preceded.append ?_ ih
    intro pre x post h
    unfold pieceEffects at h
    split_ifs at h
    · match pre,h with
      | [_,_],h => simp at h
      | _ :: _ :: _ :: _,h => simp at h
      | [_],h =>
        simp only [List.cons_append,List.cons.injEq,List.nil_append] at h
        obtain ⟨rfl,h2,_⟩ := h
        cases h2
        simp
    · simp at h
    · simp at h
    · match pre,h with
      | [],h => simp at h
      | _ :: _,h => simp at h
    · simp at h

theorem fates_ne_stay {effects : List Effect} {e : Effect} (he : e ∈ effects)
    (hf : e.fate key ≠ .stay) : fates key effects ≠ .stay := by
  induction effects with
  | nil => simp at he
  | cons x effects ih =>
    intro hs
    obtain ⟨h1,h2⟩ := Fate.next_eq_stay.mp hs
    rcases List.mem_cons.mp he with rfl | he
    · exact hf h1
    · exact ih he h2

theorem mem_pieceEffects {e : Effect} (he : e ∈ pieceEffects q n r) :
    (e = .invalidatePages r.base r.length none ∨ e = .delete r) ∨
    (Splits q r ∧ e = .invalidatePages (splitPart q n r).base (splitPart q n r).length
      (some (splitPart q n r))) := by
  unfold pieceEffects at he
  split_ifs at he with ho hb hend hend
  · exact .inl (by simpa using he)
  · simp at he
  · simp at he
  · exact .inr ⟨⟨ho,by omega,by omega⟩,by simpa using he⟩
  · simp at he

theorem Resolved.effects_shape {s s' : Surgery} {last : List Effect} (h : Resolved q l n s)
    (heff : s'.effects = s.effects ++ last) : s'.effects = l.flatMap (pieceEffects q n) ++ last := by
  rw [heff,h.effects]

theorem retires_of_pieces {own : Owning} {pm : Nat} {effects last : List Effect}
    (hl : RangesOk l n) (heff : effects = l.flatMap (pieceEffects q n) ++ last)
    (hlast : ∀ x, .delete x ∉ last)
    (hcover : ∀ key id, own pm key = some id → ∃ r ∈ l, r.id = id ∧ r.covers (key * pageSize)) :
    Retires own pm effects := by
  intro pre x post h
  obtain ⟨c,hc⟩ := delete_in_left (heff ▸ h) (hlast x)
  have hmem : ∀ e ∈ pre, ∃ y ∈ l, e ∈ pieceEffects q n y := by
    intro e he
    exact List.mem_flatMap.mp (by rw [hc]; simp [he])
  have hx : x ∈ l := by
    obtain ⟨y,hy,he⟩ := List.mem_flatMap.mp
      (show .delete x ∈ l.flatMap (pieceEffects q n) by rw [hc]; simp)
    rcases mem_pieceEffects he with (he | he) | ⟨_,he⟩
    · simp at he
    · cases he
      exact hy
    · simp at he
  refine ⟨fun base length z hz => ?_,fun key _ ho => ?_⟩
  · obtain ⟨y,_,he⟩ := hmem _ hz
    rcases mem_pieceEffects he with (he | he) | ⟨_,he⟩
    · simp at he
    · simp at he
    · obtain ⟨_,_,rfl⟩ := (by simpa using he : _ ∧ _ ∧ z = splitPart q n y)
      exact (hl.fresh x hx).ne'
  · obtain ⟨y,hy,hid,hv⟩ := hcover key x.id ho
    obtain rfl := Keyed.eq_of_key hl.ids hy hx hid
    refine fates_ne_stay (pieceEffects_preceded q n l pre y c hc) ?_
    rw [Effect.fate,if_pos ((hl.each y hy).endAddr_eq ▸ hv)]
    simp [Fate.ofRange]

theorem AddOutcome.retires {own : Owning} {pm : Nat} {out : Surgery × Option MappedRange}
    (h : AddOutcome q l n out) (hl : RangesOk l n)
    (hcover : ∀ key id, own pm key = some id → ∃ r ∈ l, r.id = id ∧ r.covers (key * pageSize)) :
    Retires own pm out.1.effects := by
  have hlast (x y : MappedRange) : .delete x ∉ lastEffect q l y := by
    unfold lastEffect
    split_ifs <;> simp
  cases h with
  | @kept e s hm ho he o =>
    obtain ⟨hollow,heff,hh⟩ := o.effects
    intro pre x post h
    have hk : .delete x ∉ keptEffects q e := by
      unfold keptEffects
      split_ifs <;> simp
    obtain ⟨c,hc⟩ := delete_in_left (heff.symm.trans h) hk
    have hh' : ∀ y ∈ hollow, y.Hollow l := hh
    rw [show hollow = pre ++ .delete x :: c from hc] at hh'
    refine ⟨fun base length z hz => ?_,fun key _ ho' => ?_⟩
    · obtain ⟨_,_,_,he | he⟩ := hh' _ (List.mem_append_left _ hz) <;> simp at he
    · obtain ⟨y,hy,h0,he | he⟩ := hh' (.delete x) (by simp)
      · simp at he
      · cases he
        obtain ⟨z,hz,hid,hv⟩ := hcover key x.id ho'
        obtain rfl := Keyed.eq_of_key hl.ids hz hy hid
        obtain ⟨v1,v2⟩ := hv
        rw [(hl.each z hz).endAddr_eq,h0] at v2
        omega
  | merged hres _ _ _ _ heff _ =>
    exact retires_of_pieces hl (hres.effects_shape heff) (fun x => hlast x _) hcover
  | unmapped hres _ _ heff _ =>
    exact retires_of_pieces hl (hres.effects_shape heff) (by simp) hcover
  | inserted hres _ _ heff _ =>
    exact retires_of_pieces hl (hres.effects_shape heff) (fun x => hlast x _) hcover

theorem pieces_within {bound : Nat} {x : MappedRange} (hq : q.Ok) (hr : r.Ok)
    (hb : r.base + r.length ≤ bound) (hx : x ∈ pieces q n r) : x.base + x.length ≤ bound := by
  have h2 := hr.endAddr_eq
  rcases pieces_bounds hq hr hx with ⟨_,rfl⟩ | ⟨_,_,e⟩ | ⟨⟨ho,_⟩,_,_,e⟩ <;> omega

theorem AddOutcome.within {bound : Nat} {out : Surgery × Option MappedRange}
    (h : AddOutcome q l n out) (hl : RangesOk l n) (hq : q.Ok)
    (hb : ∀ r ∈ l, r.base + r.length ≤ bound) (hqb : q.base + q.length ≤ bound) :
    ∀ x ∈ out.1.rangeList, x.base + x.length ≤ bound := by
  have pieces {s : Surgery} (hres : Resolved q l n s) :
      ∀ x ∈ s.rangeList, x.base + x.length ≤ bound := by
    intro x hx
    obtain ⟨r,hr,hxr⟩ := hres.mem_iff.mp hx
    exact pieces_within hq (hl.each r hr) (hb r hr) hxr
  intro x hx
  cases h with
  | @kept e s hm ho he o =>
    rcases o.old x hx with rfl | ⟨hx,_⟩
    · exact hb e hm
    · exact hb x hx
  | @merged e s s' hres hm hg ht hlist heff hid =>
    have hs := hres.ok hl hq
    have hx' : x ∈ Keyed.store MappedRange.id s.rangeList (mergedRange q e) := hlist ▸ hx
    rcases (Keyed.mem_store_iff hs.ids hm (mergedRange_same q e).1 x).mp hx' with rfl | ⟨hx,_⟩
    · have he := pieces hres e hm
      obtain ⟨h1,h2⟩ := mergedRange_shape hq (hs.each e hm) hg
      omega
    · exact pieces hres x hx
  | @unmapped s s' hres ht hlist heff hid =>
    exact pieces hres x (hlist ▸ hx)
  | @inserted s s' hres ht hlist heff hid =>
    rcases List.mem_cons.mp (hlist.mem_iff.mp hx) with rfl | hx
    · exact hqb
    · exact pieces hres x hx

theorem AddOutcome.fits {out : Surgery × Option MappedRange} (h : AddOutcome q l n out)
    (hl : RangesOk l n) (hq : q.Ok) (hb : ∀ r ∈ l, r.base + r.length ≤ 2 ^ 47)
    (hqb : q.base + q.length ≤ 2 ^ 47) : ∀ e ∈ out.1.effects, e.Fits := by
  have whole {r : MappedRange} {x : Option MappedRange} (hr : r ∈ l) :
      (Effect.invalidatePages r.base r.length x).Fits :=
    ⟨(hl.each r hr).aligned.1,(hl.each r hr).aligned.2,hb r hr⟩
  have request (x : Option MappedRange) : (Effect.invalidatePages q.base q.length x).Fits :=
    ⟨hq.aligned.1,hq.aligned.2,hqb⟩
  have last (x : MappedRange) : ∀ e ∈ lastEffect q l x, e.Fits := by
    intro e he
    unfold lastEffect at he
    split_ifs at he
    · obtain rfl := (by simpa using he : e = _)
      exact request (some x)
    · simp at he
  have first : ∀ e ∈ l.flatMap (pieceEffects q n), e.Fits := by
    intro e he
    obtain ⟨r,hr,he⟩ := List.mem_flatMap.mp he
    rcases mem_pieceEffects he with (rfl | rfl) | ⟨hs,rfl⟩
    · exact whole hr
    · trivial
    · have hm : splitPart q n r ∈ pieces q n r := by
        simp [pieces,hs.1,Nat.not_le.mpr hs.2.1,Nat.not_le.mpr hs.2.2]
      have hok := pieces_ok hq (hl.each r hr) hm
      exact ⟨hok.aligned.1,hok.aligned.2,pieces_within hq (hl.each r hr) (hb r hr) hm⟩
  intro e he
  cases h with
  | @kept x s hm ho hx o =>
    obtain ⟨hollow,heff,hh⟩ := o.effects
    have he' : e ∈ hollow ++ keptEffects q x := by simpa [heff] using he
    rcases List.mem_append.mp he' with he | he
    · obtain ⟨r,hr,_,rfl | rfl⟩ := hh e he
      · exact whole hr
      · trivial
    · unfold keptEffects at he
      split_ifs at he
      · obtain rfl := (by simpa using he : e = _)
        exact whole hm
      · simp at he
  | merged hres _ _ _ _ heff _ =>
    rcases List.mem_append.mp ((hres.effects_shape heff) ▸ he) with he | he
    · exact first e he
    · exact last _ e he
  | unmapped hres _ _ heff _ =>
    rcases List.mem_append.mp ((hres.effects_shape heff) ▸ he) with he | he
    · exact first e he
    · obtain rfl := (by simpa using he : e = _)
      exact request none
  | inserted hres _ _ heff _ =>
    rcases List.mem_append.mp ((hres.effects_shape heff) ▸ he) with he | he
    · exact first e he
    · exact last _ e he

end Outcome

end SabaOS.Mem
