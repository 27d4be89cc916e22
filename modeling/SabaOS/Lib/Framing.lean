import Mathlib.Data.List.Basic
import Mathlib.Data.List.Forall2
import Mathlib.Logic.Relation
import Mathlib.Tactic.Ring

namespace SabaOS.Lib

section Headers

variable {α : Type}

structure Header (α : Type) where
  encode : Nat → List α
  decode : List α → Nat
  width : Nat
  bound : Nat
  length_encode : ∀ n, (encode n).length = width
  decode_encode : ∀ n, n < bound → decode (encode n) = n

namespace Header

variable (h : Header α)

def frame (packet : List α) : List α := h.encode packet.length ++ packet

def frames : List (List α) → List α
  | [] => []
  | p :: ps => h.frame p ++ frames ps

variable {h} {p : List α} {ps : List (List α)}

theorem frames_concat : h.frames (ps ++ [p]) = h.frames ps ++ h.frame p := by
  induction ps with
  | nil => simp [frames]
  | cons q ps ih => rw [List.cons_append,frames,ih,frames,List.append_assoc]

theorem frame_length : (h.frame p).length = h.width + p.length := by
  rw [frame,List.length_append,h.length_encode]

theorem take_frames : (h.frames (p :: ps)).take h.width = h.encode p.length := by
  rw [frames,frame,List.append_assoc]
  exact List.take_left' (h.length_encode p.length)

theorem drop_frames : (h.frames (p :: ps)).drop h.width = p ++ h.frames ps := by
  rw [frames,frame,List.append_assoc]
  exact List.drop_left' (h.length_encode p.length)

end Header

end Headers

section Consecutive

variable {len : Nat → Nat} {total p q : Nat}

def NextRecord (len : Nat → Nat) (total p q : Nat) : Prop := p < total ∧ q = p + len p

def RecordAt (len : Nat → Nat) (total : Nat) : Nat → Prop :=
  Relation.ReflTransGen (NextRecord len total) 0

structure Records (len : Nat → Nat) (total : Nat) : Prop where
  pos : ∀ p, RecordAt len total p → p < total → 0 < len p
  whole : RecordAt len total total

theorem RecordAt.zero : RecordAt len total 0 := .refl

theorem RecordAt.next (h : RecordAt len total p) (hp : p < total) : RecordAt len total (p + len p) :=
  .tail h ⟨hp,rfl⟩

theorem nextRecord_unique : Relator.RightUnique (NextRecord len total) := by
  rintro p q q' ⟨-,rfl⟩ ⟨-,rfl⟩
  rfl

theorem le_of_records (h : Relation.ReflTransGen (NextRecord len total) p q) : p ≤ q := by
  induction h with
  | refl => exact Nat.le_refl _
  | tail _ hnext ih =>
    obtain ⟨-,rfl⟩ := hnext
    exact Nat.le_trans ih (Nat.le_add_right _ _)

theorem record_disjoint (hp : RecordAt len total p) (hq : RecordAt len total q) (hlt : p < q) :
    p < total ∧ p + len p ≤ q := by
  rcases Relation.ReflTransGen.total_of_right_unique nextRecord_unique hp hq with hon | hback
  · rcases Relation.ReflTransGen.cases_head hon with rfl | ⟨r,⟨hin,rfl⟩,hrest⟩
    · exact absurd hlt (Nat.lt_irrefl p)
    · exact ⟨hin,le_of_records hrest⟩
  · exact absurd (le_of_records hback) (Nat.not_le.mpr hlt)

end Consecutive

section Deliveries

variable {α β : Type} {R : α → β → Prop}

theorem delivered_at {done rest : List α} {got : List β} {i : Nat} {r : β}
    (h : List.Forall₂ R done got) (hr : got[i]? = some r) :
    ∃ packet, (done ++ rest)[i]? = some packet ∧ R packet r := by
  induction h generalizing i with
  | nil => cases hr
  | @cons packet _ _ _ hfirst _ ih =>
    cases i with
    | zero =>
      cases hr
      exact ⟨packet,rfl,hfirst⟩
    | succ i => exact ih hr

end Deliveries

section Pieces

variable {α : Type}

def pieces (size : Nat) : Nat → List α → List (List α)
  | 0, _ => []
  | n + 1, l => l.take size :: pieces size n (l.drop size)

theorem pieces_length (size n : Nat) (l : List α) : (pieces size n l).length = n := by
  induction n generalizing l with
  | zero => rfl
  | succ n ih => simp [pieces,ih]

theorem pieces_getElem? {size n i : Nat} (l : List α) (hi : i < n) :
    (pieces size n l)[i]? = some ((l.drop (i * size)).take size) := by
  induction n generalizing l i with
  | zero => omega
  | succ n ih =>
    cases i with
    | zero => simp [pieces]
    | succ i =>
      rw [pieces,List.getElem?_cons_succ,ih _ (by omega),List.drop_drop]
      ring_nf

theorem flatten_pieces (size n : Nat) (l : List α) :
    (pieces size n l).flatten = l.take (n * size) := by
  induction n generalizing l with
  | zero => simp [pieces]
  | succ n ih =>
    rw [pieces,List.flatten_cons,ih,← List.take_add]
    ring_nf

theorem take_pieces {size n i : Nat} (l : List α) (hi : i ≤ n) :
    (pieces size n l).take i = pieces size i l := by
  induction n generalizing l i with
  | zero => simp [pieces,Nat.le_zero.mp hi]
  | succ n ih =>
    cases i with
    | zero => simp [pieces]
    | succ i => rw [pieces,List.take_succ_cons,ih _ (by omega),pieces]

theorem piece_length {size i : Nat} {l : List α} (hi : (i + 1) * size ≤ l.length) :
    ((l.drop (i * size)).take size).length = size := by
  rw [Nat.add_mul,Nat.one_mul] at hi
  simp only [List.length_take,List.length_drop]
  omega

theorem pieces_cover {size : Nat} {l : List α} (hs : 0 < size) :
    (pieces size (l.length / size + 1) l).flatten = l := by
  rw [flatten_pieces]
  apply List.take_of_length_le
  have := Nat.lt_div_mul_add (a := l.length) hs
  rw [Nat.add_mul,Nat.one_mul]
  omega

theorem forall_split_cons {a : α} {l : List α} {P : List α → α → Prop} :
    (∀ pre x post, a :: l = pre ++ x :: post → P pre x) ↔
      P [] a ∧ ∀ pre x post, l = pre ++ x :: post → P (a :: pre) x := by
  constructor
  · intro h
    refine ⟨h [] a l rfl,?_⟩
    intro pre x post hl
    exact h (a :: pre) x post (by rw [hl,List.cons_append])
  · rintro ⟨hhead,htail⟩ pre x post hl
    cases pre with
    | nil =>
      obtain ⟨rfl,-⟩ := List.cons.inj hl
      exact hhead
    | cons b pre =>
      obtain ⟨rfl,hrest⟩ := List.cons.inj hl
      exact htail pre x post hrest

end Pieces

end SabaOS.Lib
