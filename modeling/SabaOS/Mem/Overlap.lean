import Mathlib.Data.List.Pairwise
import Mathlib.Tactic.SplitIfs
import SabaOS.Mem.Range

namespace SabaOS.Mem
open SabaOS.Klib SabaOS.Lib

def Request.inside (q : Request) (virt : Nat) : Prop := q.base ≤ virt ∧ virt < q.base + q.length

instance (q : Request) (virt : Nat) : Decidable (q.inside virt) :=
  inferInstanceAs (Decidable (_ ∧ _))

def Request.overlaps (q : Request) (r : MappedRange) : Prop :=
  q.base < r.endAddr ∧ r.base < q.endAddr

instance (q : Request) (r : MappedRange) : Decidable (q.overlaps r) :=
  inferInstanceAs (Decidable (_ ∧ _))

def trimLeft (q : Request) (r : MappedRange) : MappedRange :=
  { r with base := uadd r.base (usub q.endAddr r.base),
           length := usub r.length (usub q.endAddr r.base) }

def trimRight (q : Request) (r : MappedRange) : MappedRange :=
  { r with length := usub r.length (usub r.endAddr q.base) }

def leftPart (q : Request) (r : MappedRange) : MappedRange :=
  { r with length := usub q.base r.base }

def rangeOf (q : Request) (id : Nat) : MappedRange :=
  { id := id, base := q.base, originalBase := q.base, length := q.length,
    pageFlags := q.pageFlags, type := q.type, phyBase := q.phyBase, file := q.file,
    fileOffset := q.fileOffset }

def splitPart (q : Request) (id : Nat) (r : MappedRange) : MappedRange :=
  rangeOf (splitRequest q r) id

def pieces (q : Request) (id : Nat) (r : MappedRange) : List MappedRange :=
  if q.overlaps r then
    if q.base ≤ r.base then
      if q.endAddr ≥ r.endAddr then [] else [trimLeft q r]
    else if q.endAddr ≥ r.endAddr then [trimRight q r] else [leftPart q r, splitPart q id r]
  else [r]

def pieceEffects (q : Request) (id : Nat) (r : MappedRange) : List Effect :=
  if q.overlaps r then
    if q.base ≤ r.base then
      if q.endAddr ≥ r.endAddr then [.invalidatePages r.base r.length none, .delete r] else []
    else if q.endAddr ≥ r.endAddr then []
    else [.invalidatePages (splitPart q id r).base (splitPart q id r).length
      (some (splitPart q id r))]
  else []

def Splits (q : Request) (r : MappedRange) : Prop :=
  q.overlaps r ∧ r.base < q.base ∧ q.endAddr < r.endAddr

instance (q : Request) (r : MappedRange) : Decidable (Splits q r) :=
  inferInstanceAs (Decidable (_ ∧ _ ∧ _))

def Exact (q : Request) (r : MappedRange) : Prop :=
  q.keepPages = true ∧ q.base = r.base ∧ q.endAddr = r.endAddr ∧ q.type = r.type

instance (q : Request) (r : MappedRange) : Decidable (Exact q r) :=
  inferInstanceAs (Decidable (_ ∧ _ ∧ _ ∧ _))

def Apart (a b : MappedRange) : Prop := ∀ virt, ¬ (a.covers virt ∧ b.covers virt)

structure MappedRange.Ok (r : MappedRange) : Prop where
  bounded : r.base + r.length < 2 ^ 64
  aligned : pageSize ∣ r.base ∧ pageSize ∣ r.length
  typed : r.type ≠ .none

structure Request.Ok (q : Request) : Prop where
  bounded : q.base + q.length < 2 ^ 64
  aligned : pageSize ∣ q.base ∧ pageSize ∣ q.length

structure RangesOk (l : List MappedRange) (nextId : Nat) : Prop where
  ids : (l.map MappedRange.id).Nodup
  fresh : ∀ r ∈ l, r.id < nextId
  each : ∀ r ∈ l, r.Ok
  apart : ∀ a ∈ l, ∀ b ∈ l, a ≠ b → Apart a b

theorem RangesOk.eq_of_covers {l : List MappedRange} {n : Nat} (hl : RangesOk l n)
    {a b : MappedRange} (ha : a ∈ l) (hb : b ∈ l) {virt : Nat} (hva : a.covers virt)
    (hvb : b.covers virt) : a = b := by
  by_contra hne
  exact hl.apart a ha b hb hne virt ⟨hva,hvb⟩

theorem MappedRange.Ok.endAddr_eq {r : MappedRange} (h : r.Ok) : r.endAddr = r.base + r.length :=
  uadd_of_lt h.bounded

theorem Request.Ok.endAddr_eq {q : Request} (h : q.Ok) : q.endAddr = q.base + q.length :=
  uadd_of_lt h.bounded

theorem pieces_of_not_overlaps {q : Request} {id : Nat} {r : MappedRange} (h : ¬ q.overlaps r) :
    pieces q id r = [r] := if_neg h

section Pieces

variable {q : Request} {id : Nat} {r x : MappedRange}

theorem mem_pieces (hx : x ∈ pieces q id r) :
    (¬ q.overlaps r ∧ x = r) ∨
    (q.overlaps r ∧ q.base ≤ r.base ∧ q.endAddr < r.endAddr ∧ x = trimLeft q r) ∨
    (q.overlaps r ∧ r.base < q.base ∧ r.endAddr ≤ q.endAddr ∧ x = trimRight q r) ∨
    (Splits q r ∧ (x = leftPart q r ∨ x = splitPart q id r)) := by
  unfold pieces at hx
  split_ifs at hx with ho hb he he
  · simp at hx
  · exact .inr (.inl ⟨ho,hb,by omega,by simpa using hx⟩)
  · exact .inr (.inr (.inl ⟨ho,by omega,by omega,by simpa using hx⟩))
  · exact .inr (.inr (.inr ⟨⟨ho,by omega,by omega⟩,by simpa using hx⟩))
  · exact .inl ⟨ho,by simpa using hx⟩

theorem trimLeft_spec (hq : q.Ok) (hr : r.Ok) (ho : q.overlaps r) (he : q.endAddr < r.endAddr) :
    (trimLeft q r).base = q.base + q.length ∧
    (trimLeft q r).length = r.base + r.length - (q.base + q.length) := by
  have h1 := hq.endAddr_eq
  have h2 := hr.endAddr_eq
  have h3 := hq.bounded
  have h4 := hr.bounded
  obtain ⟨_,ho⟩ := ho
  simp only [trimLeft,uadd,usub,h1] at *
  omega

theorem trimRight_spec (hr : r.Ok) (ho : q.overlaps r) (hb : r.base < q.base) :
    trimRight q r = leftPart q r ∧ (leftPart q r).length = q.base - r.base := by
  have h2 := hr.endAddr_eq
  have h4 := hr.bounded
  obtain ⟨ho,_⟩ := ho
  have hl : usub r.length (usub r.endAddr q.base) = q.base - r.base := by
    simp only [usub,h2] at *
    omega
  have hl' : usub q.base r.base = q.base - r.base := by
    simp only [usub,h2] at *
    omega
  exact ⟨by simp only [trimRight,leftPart,hl,hl'],hl'⟩

theorem splitPart_spec (id : Nat) (hq : q.Ok) (hr : r.Ok) (hs : Splits q r) :
    (splitPart q id r).base = q.base + q.length ∧
    (splitPart q id r).length = r.base + r.length - (q.base + q.length) := by
  have h3 := hr.bounded
  obtain ⟨_,_,he⟩ := hs
  rw [hq.endAddr_eq,hr.endAddr_eq] at he
  refine ⟨hq.endAddr_eq,?_⟩
  change usub r.endAddr q.endAddr = _
  rw [hq.endAddr_eq,hr.endAddr_eq,usub_of_le h3 (by omega)]

theorem pieces_same (hx : x ∈ pieces q id r) :
    x.type = r.type ∧ x.pageFlags = r.pageFlags ∧ x.file = r.file := by
  rcases mem_pieces hx with ⟨_,rfl⟩ | ⟨_,_,_,rfl⟩ | ⟨_,_,_,rfl⟩ | ⟨_,rfl | rfl⟩ <;>
    exact ⟨rfl,rfl,rfl⟩

theorem pieces_bounds (hq : q.Ok) (hr : r.Ok) (hx : x ∈ pieces q id r) :
    (¬ q.overlaps r ∧ x = r) ∨
    (q.overlaps r ∧ x.base = q.base + q.length ∧ x.base + x.length = r.base + r.length) ∨
    (q.overlaps r ∧ r.base < q.base ∧ x.base = r.base ∧ x.base + x.length = q.base) := by
  have h1 := hq.endAddr_eq
  have h2 := hr.endAddr_eq
  rcases mem_pieces hx with h | ⟨ho,hb,he,rfl⟩ | ⟨ho,hb,he,rfl⟩ | ⟨hs,rfl | rfl⟩
  · exact .inl h
  · obtain ⟨e1,e2⟩ := trimLeft_spec hq hr ho he
    exact .inr (.inl ⟨ho,e1,by omega⟩)
  · obtain ⟨e1,e2⟩ := trimRight_spec hr ho hb
    rw [e1]
    exact .inr (.inr ⟨ho,hb,rfl,by change r.base + (leftPart q r).length = _; omega⟩)
  · obtain ⟨_,e2⟩ := trimRight_spec hr hs.1 hs.2.1
    refine .inr (.inr ⟨hs.1,hs.2.1,rfl,?_⟩)
    have := hs.2.1
    change r.base + (leftPart q r).length = _
    omega
  · obtain ⟨e1,e2⟩ := splitPart_spec id hq hr hs
    have := hs.2.2
    exact .inr (.inl ⟨hs.1,e1,by omega⟩)

theorem pieces_ok (hq : q.Ok) (hr : r.Ok) (hx : x ∈ pieces q id r) : x.Ok := by
  obtain ⟨ht,_,_⟩ := pieces_same hx
  have h1 := hq.endAddr_eq
  have h2 := hr.endAddr_eq
  obtain ⟨a1,a2⟩ := hq.aligned
  obtain ⟨b1,b2⟩ := hr.aligned
  have hb := hr.bounded
  simp only [pageSize] at a1 a2 b1 b2
  rcases pieces_bounds hq hr hx with ⟨_,rfl⟩ | ⟨⟨o1,o2⟩,e1,e2⟩ | ⟨⟨o1,o2⟩,e0,e1,e2⟩
  · exact hr
  · exact ⟨by omega,⟨by simp only [pageSize]; omega,by simp only [pageSize]; omega⟩,ht ▸ hr.typed⟩
  · exact ⟨by omega,⟨by simp only [pageSize]; omega,by simp only [pageSize]; omega⟩,ht ▸ hr.typed⟩

theorem pieces_not_overlaps (hq : q.Ok) (hr : r.Ok) (hx : x ∈ pieces q id r) : ¬ q.overlaps x := by
  have hok := (pieces_ok hq hr hx).endAddr_eq
  have h1 := hq.endAddr_eq
  rintro ⟨o1,o2⟩
  rcases pieces_bounds hq hr hx with ⟨hn,rfl⟩ | ⟨_,e1,e2⟩ | ⟨_,_,e1,e2⟩
  · exact hn ⟨o1,o2⟩
  · omega
  · omega

theorem pieces_covers_sub (hq : q.Ok) (hr : r.Ok) (hx : x ∈ pieces q id r) {virt : Nat}
    (hv : x.covers virt) : r.covers virt ∧ ¬ q.inside virt := by
  have hok := (pieces_ok hq hr hx).endAddr_eq
  have h1 := hq.endAddr_eq
  have h2 := hr.endAddr_eq
  obtain ⟨v1,v2⟩ := hv
  simp only [MappedRange.covers,Request.inside]
  rcases pieces_bounds hq hr hx with ⟨hn,rfl⟩ | ⟨⟨o1,o2⟩,e1,e2⟩ | ⟨⟨o1,o2⟩,e0,e1,e2⟩
  · simp only [Request.overlaps] at hn
    omega
  · omega
  · omega

theorem covers_pieces (id : Nat) (hq : q.Ok) (hr : r.Ok) {virt : Nat} (hv : r.covers virt)
    (hi : ¬ q.inside virt) : ∃ x ∈ pieces q id r, x.covers virt := by
  have h1 := hq.endAddr_eq
  have h2 := hr.endAddr_eq
  simp only [Request.inside] at hi
  obtain ⟨v1,v2⟩ := hv
  have witness (x : MappedRange) (hx : x ∈ pieces q id r)
      (hb : x.base ≤ virt ∧ virt < x.base + x.length) : ∃ x ∈ pieces q id r, x.covers virt :=
    ⟨x,hx,hb.1,by rw [(pieces_ok hq hr hx).endAddr_eq]; exact hb.2⟩
  by_cases ho : q.overlaps r
  · by_cases hb : q.base ≤ r.base
    · have he : q.endAddr < r.endAddr := by omega
      obtain ⟨e1,e2⟩ := trimLeft_spec hq hr ho he
      refine witness (trimLeft q r) ?_ (by omega)
      simp [pieces,ho,hb,Nat.not_le.mpr he]
    · obtain ⟨t1,t2⟩ := trimRight_spec hr ho (by omega)
      by_cases he : q.endAddr ≥ r.endAddr
      · refine witness (trimRight q r) (by simp [pieces,ho,hb,he]) ?_
        rw [t1,t2]
        change r.base ≤ virt ∧ virt < r.base + _
        omega
      · have hs : Splits q r := ⟨ho,by omega,by omega⟩
        obtain ⟨e1,e2⟩ := splitPart_spec id hq hr hs
        by_cases hl : virt < q.base
        · refine witness (leftPart q r) (by simp [pieces,ho,hb,he]) ?_
          rw [t2]
          change r.base ≤ virt ∧ virt < r.base + _
          omega
        · exact witness (splitPart q id r) (by simp [pieces,ho,hb,he]) (by omega)
  · exact ⟨r,by simp [pieces,ho],v1,v2⟩

theorem pieces_map_id (q : Request) (id : Nat) (r : MappedRange) :
    (pieces q id r).map MappedRange.id = [] ∨ (pieces q id r).map MappedRange.id = [r.id] ∨
    (Splits q r ∧ (pieces q id r).map MappedRange.id = [r.id,id]) := by
  unfold pieces
  split_ifs with ho hb he he
  · exact .inl rfl
  · exact .inr (.inl rfl)
  · exact .inr (.inl rfl)
  · exact .inr (.inr ⟨⟨ho,by omega,by omega⟩,rfl⟩)
  · exact .inr (.inl rfl)

theorem pieces_ids (hx : x ∈ pieces q id r) : x.id = r.id ∨ (Splits q r ∧ x.id = id) := by
  have hm := List.mem_map_of_mem (f := MappedRange.id) hx
  rcases pieces_map_id q id r with h | h | ⟨hs,h⟩
  · simp [h] at hm
  · exact .inl (by simpa [h] using hm)
  · rcases (by simpa [h] using hm : x.id = r.id ∨ x.id = id) with h | h
    · exact .inl h
    · exact .inr ⟨hs,h⟩

theorem pieces_congr (hs : ¬ Splits q r) (i j : Nat) :
    pieces q i r = pieces q j r ∧ pieceEffects q i r = pieceEffects q j r := by
  unfold pieces pieceEffects
  split_ifs with ho hb he he
  · exact ⟨rfl,rfl⟩
  · exact ⟨rfl,rfl⟩
  · exact ⟨rfl,rfl⟩
  · exact (hs ⟨ho,by omega,by omega⟩).elim
  · exact ⟨rfl,rfl⟩

theorem pieces_apart (hq : q.Ok) (hr : r.Ok) {y : MappedRange} (hx : x ∈ pieces q id r)
    (hy : y ∈ pieces q id r) (hne : x ≠ y) : Apart x y := by
  have split_apart (hs : Splits q r) : Apart (leftPart q r) (splitPart q id r) := by
    have hl : leftPart q r ∈ pieces q id r := by
      simp [pieces,hs.1,Nat.not_le.mpr hs.2.1,Nat.not_le.mpr hs.2.2]
    have hsp : splitPart q id r ∈ pieces q id r := by
      simp [pieces,hs.1,Nat.not_le.mpr hs.2.1,Nat.not_le.mpr hs.2.2]
    obtain ⟨_,e1⟩ := trimRight_spec hr hs.1 hs.2.1
    obtain ⟨e2,_⟩ := splitPart_spec id hq hr hs
    have h1 := (pieces_ok hq hr hl).endAddr_eq
    have h2 := hs.2.1
    rintro v ⟨⟨_,v1⟩,v2,_⟩
    rw [h1] at v1
    change v < r.base + (leftPart q r).length at v1
    omega
  rcases mem_pieces hx with ⟨nx,rfl⟩ | ⟨_,ax,bx,rfl⟩ | ⟨_,ax,bx,rfl⟩ | ⟨sx,rfl | rfl⟩ <;>
  rcases mem_pieces hy with ⟨ny,rfl⟩ | ⟨oy,ay,by',rfl⟩ | ⟨oy,ay,by',rfl⟩ | ⟨sy,rfl | rfl⟩ <;>
  first
    | exact absurd rfl hne
    | exact absurd (by assumption) nx
    | exact absurd (by assumption) ny
    | exact absurd sy.1 nx
    | exact absurd sx.1 ny
    | (exfalso; omega)
    | (exfalso; have := sx.2.1; have := sx.2.2; omega)
    | (exfalso; have := sy.2.1; have := sy.2.2; omega)
    | exact split_apart sx
    | exact fun v hv => split_apart sx v ⟨hv.2,hv.1⟩

end Pieces

theorem linkRange_perm (l : List MappedRange) (r : MappedRange) : (linkRange l r).Perm (r :: l) := by
  induction l with
  | nil => exact .refl _
  | cons p l ih =>
    cases l with
    | nil => exact .swap _ _ _
    | cons n l =>
      simp only [linkRange]
      split_ifs
      · exact .swap _ _ _
      · exact (ih.cons p).trans (.swap _ _ _)

structure Surgery.Advance (s s' : Surgery) (effects : List Effect) (splits overlaps : Prop)
    [Decidable splits] [Decidable overlaps] : Prop where
  effects : s'.effects = s.effects ++ effects
  nextId : s'.nextId = if splits then s.nextId + 1 else s.nextId
  hadOverlap : s'.hadOverlap = (s.hadOverlap || decide overlaps)
  need : s'.needToResolveOverlap = (s.needToResolveOverlap || decide overlaps)

theorem splitRange_spec {q : Request} {r : MappedRange} {s : Surgery} (ht : r.type ≠ .none) :
    (splitRange q r s).rangeList =
      linkRange (s.store (leftPart q r)).rangeList (splitPart q s.nextId r) ∧
    (splitRange q r s).effects = s.effects ++
      [.invalidatePages (splitPart q s.nextId r).base (splitPart q s.nextId r).length
        (some (splitPart q s.nextId r))] ∧
    (splitRange q r s).nextId = s.nextId + 1 ∧
    (splitRange q r s).hadOverlap = s.hadOverlap ∧
    (splitRange q r s).needToResolveOverlap = s.needToResolveOverlap := by
  have ht' : (splitRequest q r).type ≠ .none := ht
  simp only [splitRange,insertRange,if_neg ht']
  exact ⟨rfl,rfl,rfl,rfl,rfl⟩

theorem resolveOne_spec {q : Request} {r : MappedRange} {s : Surgery} {m : List MappedRange}
    (hn : (s.rangeList.map MappedRange.id).Nodup) (hm : s.rangeList.Perm (r :: m))
    (ht : r.type ≠ .none) (he : ¬ (q.overlaps r ∧ Exact q r)) :
    ∃ s', resolveOne q r s = .ok s' ∧ s'.rangeList.Perm (pieces q s.nextId r ++ m) ∧
      s.Advance s' (pieceEffects q s.nextId r) (Splits q r) (q.overlaps r) := by
  by_cases ho : q.overlaps r
  swap
  · have hc : q.base ≥ r.endAddr ∨ q.endAddr ≤ r.base := by
      simp only [Request.overlaps] at ho; omega
    refine ⟨s,by simp [resolveOne,hc],by simpa [pieces,ho] using hm,?_⟩
    have hs : ¬ Splits q r := fun h => ho h.1
    exact ⟨by simp [pieceEffects,ho],by simp [hs],by simp [ho],by simp [ho]⟩
  have hx : ¬ Exact q r := fun h => he ⟨ho,h⟩
  have hc : ¬ (q.base ≥ r.endAddr ∨ q.endAddr ≤ r.base) := by
    simp only [Request.overlaps] at ho; omega
  by_cases hb : q.base ≤ r.base
  · have hs : ¬ Splits q r := fun h => by have := h.2.1; omega
    by_cases hend : q.endAddr ≥ r.endAddr
    · have hx' : ¬ (q.keepPages ∧ q.base = r.base ∧ q.endAddr = r.endAddr ∧ q.type = r.type) := hx
      refine ⟨_,by simp only [resolveOne,if_neg hc,if_pos hb,if_pos hend,if_neg hx']; rfl,?_,?_⟩
      · rw [show pieces q s.nextId r = [] by simp [pieces,ho,hb,hend]]
        exact Keyed.drop_perm hn hm
      · exact ⟨by simp [Surgery.overlapped,Surgery.emit,Surgery.unlink,pieceEffects,ho,hb,hend],
          by simp [Surgery.overlapped,Surgery.emit,Surgery.unlink,hs],
          by simp [Surgery.overlapped,ho],by simp [Surgery.overlapped,ho]⟩
    · refine ⟨_,by simp only [resolveOne,if_neg hc,if_pos hb,if_neg hend]; rfl,?_,?_⟩
      · rw [show pieces q s.nextId r = [trimLeft q r] by simp [pieces,ho,hb,hend]]
        exact Keyed.store_perm hn hm rfl
      · exact ⟨by simp [Surgery.overlapped,Surgery.store,pieceEffects,ho,hb,hend],
          by simp [Surgery.overlapped,Surgery.store,hs],
          by simp [Surgery.overlapped,ho],by simp [Surgery.overlapped,ho]⟩
  · by_cases hend : q.endAddr ≥ r.endAddr
    · have hs : ¬ Splits q r := fun h => by have := h.2.2; omega
      refine ⟨_,by simp only [resolveOne,if_neg hc,if_neg hb,if_pos hend]; rfl,?_,?_⟩
      · rw [show pieces q s.nextId r = [trimRight q r] by simp [pieces,ho,hb,hend]]
        exact Keyed.store_perm hn hm rfl
      · exact ⟨by simp [Surgery.overlapped,Surgery.store,pieceEffects,ho,hb,hend],
          by simp [Surgery.overlapped,Surgery.store,hs],
          by simp [Surgery.overlapped,ho],by simp [Surgery.overlapped,ho]⟩
    · have hs : Splits q r := ⟨ho,by omega,by omega⟩
      obtain ⟨e1,e2,e3,e4,e5⟩ := splitRange_spec (q := q) (s := s) ht
      refine ⟨_,by simp only [resolveOne,if_neg hc,if_neg hb,if_neg hend]; rfl,?_,?_⟩
      · have hp := Keyed.store_perm (y := leftPart q r) hn hm rfl
        change (splitRange q r s).rangeList.Perm _
        rw [e1]
        refine (linkRange_perm _ _).trans ((hp.cons _).trans ?_)
        simpa [pieces,ho,hb,hend] using List.Perm.swap _ _ _
      · exact ⟨by simpa [Surgery.overlapped,pieceEffects,ho,hb,hend] using e2,
          by simpa [Surgery.overlapped,hs] using e3,
          by simp [Surgery.overlapped,ho],by simp [Surgery.overlapped,ho]⟩

theorem pieces_nodup {q : Request} {n : Nat} {r : MappedRange} {m : List MappedRange}
    (hn : ((r :: m).map MappedRange.id).Nodup) (hf : ∀ x ∈ r :: m, x.id < n) :
    ((pieces q n r ++ m).map MappedRange.id).Nodup ∧
    ∀ x ∈ pieces q n r ++ m, x.id < if Splits q r then n + 1 else n := by
  have hr := hf r (by simp)
  have hm : ∀ x ∈ m, x.id < n := fun x hx => hf x (by simp [hx])
  obtain ⟨hrm,hmn⟩ := List.nodup_cons.mp hn
  constructor
  · rw [List.map_append]
    have hnm : n ∉ m.map MappedRange.id := by
      intro h
      obtain ⟨x,hx,he⟩ := List.mem_map.mp h
      have := hm x hx
      omega
    rcases pieces_map_id q n r with h | h | ⟨_,h⟩ <;> rw [h]
    · simpa using hmn
    · simpa using ⟨by simpa using hrm,hmn⟩
    · simpa [List.nodup_cons] using ⟨⟨by omega,by simpa using hrm⟩,by simpa using hnm,hmn⟩
  · intro x hx
    rcases List.mem_append.mp hx with hx | hx
    · rcases pieces_ids hx with h | ⟨hs,h⟩
      · split_ifs <;> omega
      · rw [if_pos hs]; omega
    · have := hm x hx
      split_ifs <;> omega

theorem overlapPass_spec {q : Request} {n : Nat} (rest : List MappedRange) :
    ∀ (acc : List MappedRange) (s : Surgery), s.rangeList.Perm (acc ++ rest) →
    (s.rangeList.map MappedRange.id).Nodup → (∀ r ∈ s.rangeList, r.id < s.nextId) →
    (∀ r ∈ rest, r.type ≠ .none) → (∀ r ∈ rest, ¬ (q.overlaps r ∧ Exact q r)) →
    rest.Pairwise (fun a b => ¬ (Splits q a ∧ Splits q b)) →
    (s.nextId = n ∨ ∀ r ∈ rest, ¬ Splits q r) →
    ∃ s', overlapPass q (rest.map MappedRange.id) s = .ok s' ∧
      s'.rangeList.Perm (acc ++ rest.flatMap (pieces q n)) ∧
      s.Advance s' (rest.flatMap (pieceEffects q n)) (∃ r ∈ rest, Splits q r)
        (∃ r ∈ rest, q.overlaps r) ∧
      (s'.rangeList.map MappedRange.id).Nodup ∧ ∀ r ∈ s'.rangeList, r.id < s'.nextId := by
  induction rest with
  | nil =>
    intro acc s hp hn hf _ _ _ _
    exact ⟨s,rfl,by simpa using hp,⟨by simp,by simp,by simp,by simp⟩,hn,hf⟩
  | cons r rest ih =>
    intro acc s hp hn hf ht he hs hid
    have hp' : s.rangeList.Perm (r :: (acc ++ rest)) := hp.trans List.perm_middle
    obtain ⟨s1,h1,l1,a1⟩ := resolveOne_spec hn hp' (ht r (by simp)) (he r (by simp))
    have hpc : pieces q s.nextId r = pieces q n r ∧
        pieceEffects q s.nextId r = pieceEffects q n r := by
      rcases hid with h | h
      · rw [h]; exact ⟨rfl,rfl⟩
      · exact pieces_congr (h r (by simp)) _ _
    obtain ⟨hn1,hf1⟩ := pieces_nodup (q := q) ((hp'.map _).nodup_iff.mp hn)
      (fun x hx => hf x (hp'.mem_iff.mpr hx))
    obtain ⟨hs0,hs1⟩ := List.pairwise_cons.mp hs
    have hl1 : s1.rangeList.Perm ((acc ++ pieces q n r) ++ rest) := by
      rw [hpc.1] at l1
      refine l1.trans ?_
      simpa [List.append_assoc] using
        (List.perm_append_comm_assoc (pieces q n r) acc rest)
    have hid1 : s1.nextId = n ∨ ∀ r ∈ rest, ¬ Splits q r := by
      rcases hid with h | h
      · by_cases hsr : Splits q r
        · exact .inr fun x hx hsx => hs0 x hx ⟨hsr,hsx⟩
        · exact .inl (by rw [a1.nextId,if_neg hsr,h])
      · exact .inr fun x hx => h x (by simp [hx])
    obtain ⟨s2,h2,l2,a2,k2⟩ := ih (acc ++ pieces q n r) s1 hl1 ((l1.map _).nodup_iff.mpr hn1)
      (fun x hx => by rw [a1.nextId]; exact hf1 x (l1.mem_iff.mp hx))
      (fun x hx => ht x (by simp [hx])) (fun x hx => he x (by simp [hx])) hs1 hid1
    refine ⟨s2,?_,by simpa [List.append_assoc] using l2,?_,k2⟩
    · simp only [List.map_cons,overlapPass,
        Keyed.lookup_of_mem hn (hp.mem_iff.mpr (by simp : r ∈ acc ++ r :: rest)),h1,h2]
    · refine ⟨?_,?_,?_,?_⟩
      · rw [a2.effects,a1.effects,hpc.2]; simp [List.append_assoc]
      · rw [a2.nextId,a1.nextId]
        by_cases hsr : Splits q r
        · have hno : ¬ ∃ x ∈ rest, Splits q x := fun ⟨x,hx,hsx⟩ => hs0 x hx ⟨hsr,hsx⟩
          simp [hsr,hno]
        · simp [hsr]
      · rw [a2.hadOverlap,a1.hadOverlap]; simp [Bool.or_assoc]
      · rw [a2.need,a1.need]; simp [Bool.or_assoc]

theorem overlapPass_idle {q : Request} (ids : List Nat) (s : Surgery)
    (h : ∀ r ∈ s.rangeList, ¬ q.overlaps r) : overlapPass q ids s = .ok s := by
  induction ids with
  | nil => rfl
  | cons id ids ih =>
    simp only [overlapPass]
    split
    · exact ih
    · rename_i existing hx
      have ho := h existing (Keyed.lookup_mem hx).1
      have hc : q.base ≥ existing.endAddr ∨ q.endAddr ≤ existing.base := by
        simp only [Request.overlaps] at ho; omega
      simp only [resolveOne,if_pos hc,ih]

theorem splits_unique {q : Request} {l : List MappedRange} {n : Nat} (hl : RangesOk l n) :
    l.Pairwise fun a b => ¬ (Splits q a ∧ Splits q b) := by
  refine List.Nodup.pairwise_of_forall_ne hl.ids.of_map ?_
  rintro a ha b hb hne ⟨⟨⟨a1,_⟩,a2,_⟩,⟨⟨b1,_⟩,b2,_⟩⟩
  exact hl.apart a ha b hb hne q.base ⟨⟨by omega,a1⟩,by omega,b1⟩

def kept (q : Request) (e : MappedRange) : MappedRange := { e with pageFlags := q.pageFlags }

def keptEffects (q : Request) (e : MappedRange) : List Effect :=
  if e.pageFlags ≠ q.pageFlags then [.invalidatePages e.base e.length (some (kept q e))] else []

theorem resolveOne_exact {q : Request} {e : MappedRange} {s : Surgery} (ho : q.overlaps e)
    (he : Exact q e) (hn : (s.rangeList.map MappedRange.id).Nodup) (hm : e ∈ s.rangeList) :
    resolveOne q e s = .error ({ s with
      rangeList := Keyed.store MappedRange.id s.rangeList (kept q e),
      effects := s.effects ++ keptEffects q e }, some (kept q e)) := by
  have hc : ¬ (q.base ≥ e.endAddr ∨ q.endAddr ≤ e.base) := by
    simp only [Request.overlaps] at ho; omega
  have h1 : q.base ≤ e.base := by have := he.2.1; omega
  have h2 : q.endAddr ≥ e.endAddr := by have := he.2.2.1; omega
  have he' : q.keepPages = true ∧ q.base = e.base ∧ q.endAddr = e.endAddr ∧ q.type = e.type := he
  simp only [resolveOne,if_neg hc,if_pos h1,if_pos h2,if_pos he']
  by_cases hf : e.pageFlags ≠ q.pageFlags
  · simp only [if_pos hf,keptEffects]
    rfl
  · have hk : kept q e = e := by
      have : e.pageFlags = q.pageFlags := by simpa using hf
      simp [kept,← this]
    have hst : Keyed.store MappedRange.id s.rangeList e = s.rangeList := by
      have : ∀ y ∈ s.rangeList, (if y.id = e.id then e else y) = y := by
        intro y hy
        split_ifs with hye
        · exact Keyed.eq_of_key hn hm hy hye.symm
        · rfl
      simpa [Keyed.store] using List.map_congr_left this
    simp only [if_neg hf,keptEffects,hk,hst,List.append_nil]

def Effect.Hollow (l : List MappedRange) (x : Effect) : Prop :=
  ∃ r ∈ l, r.length = 0 ∧ (x = .invalidatePages r.base r.length none ∨ x = .delete r)

theorem exact_hollow {q : Request} {e r : MappedRange} (hq : q.Ok) (hr : r.Ok) (ho : q.overlaps e)
    (he : Exact q e) (ha : Apart e r) (hor : q.overlaps r) :
    r.length = 0 ∧ q.base ≤ r.base ∧ r.endAddr ≤ q.endAddr ∧ ¬ Exact q r := by
  obtain ⟨o1,o2⟩ := hor
  obtain ⟨p1,p2⟩ := ho
  obtain ⟨_,e1,e2,_⟩ := he
  have h1 := hq.endAddr_eq
  have h2 := hr.endAddr_eq
  have hb := ha r.base
  have hq' := ha q.base
  simp only [MappedRange.covers] at hb hq'
  have hl : r.length = 0 := by omega
  exact ⟨hl,by omega,by omega,fun hx => by have := hx.2.1; have := hx.2.2.1; omega⟩

structure KeptOutcome (q : Request) (e : MappedRange) (s s' : Surgery) : Prop where
  effects : ∃ hollow, s'.effects = s.effects ++ hollow ++ keptEffects q e ∧ ∀ x ∈ hollow, x.Hollow s.rangeList
  nextId : s'.nextId = s.nextId
  ids : (s'.rangeList.map MappedRange.id).Nodup
  mem : kept q e ∈ s'.rangeList
  old : ∀ x ∈ s'.rangeList, x = kept q e ∨ (x ∈ s.rangeList ∧ x ≠ e)
  stays : ∀ x ∈ s.rangeList, x ≠ e → x.length ≠ 0 → x ∈ s'.rangeList

theorem overlapPass_exact {q : Request} {e : MappedRange} (hq : q.Ok) (ho : q.overlaps e)
    (he : Exact q e) (rest : List MappedRange) :
    ∀ s : Surgery, (s.rangeList.map MappedRange.id).Nodup →
    (rest.map MappedRange.id).Nodup → (∀ r ∈ rest, r ∈ s.rangeList) → e ∈ rest →
    (∀ r ∈ rest, r.Ok ∧ (r ≠ e → Apart e r)) →
    ∃ s', overlapPass q (rest.map MappedRange.id) s = .error (s',some (kept q e)) ∧
      KeptOutcome q e s s' := by
  induction rest with
  | nil => intro s _ _ _ hmem; simp at hmem
  | cons r rest ih =>
    intro s hn hnr hsub hmem hok
    have hrs := hsub r (by simp)
    obtain ⟨hrr,hnr'⟩ := List.nodup_cons.mp hnr
    simp only [List.map_cons,overlapPass,Keyed.lookup_of_mem hn hrs]
    by_cases hr : r = e
    · subst hr
      rw [resolveOne_exact ho he hn hrs]
      have hst := Keyed.mem_store_iff (y := kept q r) hn hrs rfl
      refine ⟨_,rfl,⟨[],by simp,by simp⟩,rfl,?_,(hst _).mpr (.inl rfl),fun x hx => (hst x).mp hx,
        fun x hx hxr _ => (hst x).mpr (.inr ⟨hx,hxr⟩)⟩
      rw [Keyed.map_key_store]
      exact hn
    · obtain ⟨hrok,hra⟩ := hok r (by simp)
      have hmem' : e ∈ rest := by simpa [Ne.symm hr] using hmem
      have hne : ∀ x ∈ rest, x ≠ r := fun x hx hxr => hrr (hxr ▸ List.mem_map_of_mem hx)
      have hx : ¬ (q.overlaps r ∧ Exact q r) := fun ⟨h1,h2⟩ =>
        (exact_hollow hq hrok ho he (hra hr) h1).2.2.2 h2
      obtain ⟨m,hm⟩ : ∃ m, s.rangeList.Perm (r :: m) := ⟨_,List.perm_cons_erase hrs⟩
      obtain ⟨s1,h1,l1,a1⟩ := resolveOne_spec hn hm hrok.typed hx
      have hnm := (hm.map MappedRange.id).nodup_iff.mp hn
      have hsplit : ¬ Splits q r := fun ⟨h1,h2,h3⟩ => by
        have := (exact_hollow hq hrok ho he (hra hr) h1).2.1; omega
      have hpm : ∀ x ∈ m, x ∈ s1.rangeList := fun x hx => l1.mem_iff.mpr (by simp [hx])
      have hold : ∀ x ∈ s1.rangeList, x ∈ s.rangeList := by
        intro x hx
        rcases List.mem_append.mp (l1.mem_iff.mp hx) with h | h
        · by_cases hor : q.overlaps r
          · obtain ⟨_,b1,b2,_⟩ := exact_hollow hq hrok ho he (hra hr) hor
            simp [pieces,hor,b1,b2] at h
          · rw [pieces_of_not_overlaps hor] at h
            simpa [List.mem_singleton.mp h] using hrs
        · exact hm.mem_iff.mpr (by simp [h])
      have hn1 : (s1.rangeList.map MappedRange.id).Nodup := by
        refine (l1.map _).nodup_iff.mpr ?_
        rcases pieces_map_id q s.nextId r with h | h | ⟨h,_⟩
        · simpa [h] using (List.nodup_cons.mp hnm).2
        · simpa [h] using hnm
        · exact absurd h hsplit
      obtain ⟨s2,h2,o2⟩ := ih s1 hn1 hnr'
        (fun x hx => hpm x (by
          have := hm.mem_iff.mp (hsub x (by simp [hx]))
          simpa [hne x hx] using this))
        hmem' (fun x hx => hok x (by simp [hx]))
      refine ⟨s2,by simp only [h1,h2],?_,?_,o2.ids,o2.mem,?_,?_⟩
      · obtain ⟨hollow,eh,hh⟩ := o2.effects
        refine ⟨pieceEffects q s.nextId r ++ hollow,?_,?_⟩
        · rw [eh,a1.effects]; simp [List.append_assoc]
        · intro x hx
          rcases List.mem_append.mp hx with hx | hx
          · by_cases hor : q.overlaps r
            · obtain ⟨hl,b1,b2,_⟩ := exact_hollow hq hrok ho he (hra hr) hor
              have : x = .invalidatePages r.base r.length none ∨ x = .delete r := by
                simpa [pieceEffects,hor,b1,b2] using hx
              exact ⟨r,hrs,hl,this⟩
            · simp [pieceEffects,hor] at hx
          · obtain ⟨y,hy,hy0,hxy⟩ := hh x hx
            exact ⟨y,hold y hy,hy0,hxy⟩
      · rw [o2.nextId,a1.nextId,if_neg hsplit]
      · intro x hx
        rcases o2.old x hx with h | ⟨h,hxe⟩
        · exact .inl h
        · exact .inr ⟨hold x h,hxe⟩
      · intro x hx hxe hxl
        refine o2.stays x ?_ hxe hxl
        rcases List.mem_cons.mp (hm.mem_iff.mp hx) with rfl | h
        · have hor : ¬ q.overlaps x := fun h =>
            hxl (exact_hollow hq hrok ho he (hra hr) h).1
          exact l1.mem_iff.mpr (by simp [pieces_of_not_overlaps hor])
        · exact hpm x h

end SabaOS.Mem
