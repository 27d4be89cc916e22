import Mathlib.Data.List.Basic

namespace SabaOS.Lib

variable {α β : Type}

def emitted (f : α → List β) : Nat → List α → List β
  | _, [] => []
  | room, c :: cs =>
    if (f c).length ≤ room then f c ++ emitted f (room - (f c).length) cs else (f c).take room

def taken (f : α → List β) : Nat → List α → Nat
  | _, [] => 0
  | room, c :: cs => if (f c).length ≤ room then taken f (room - (f c).length) cs + 1 else 0

def Fits (f g : α → List β) (room : Nat) (c : α) : Prop :=
  if (f c).length ≤ room then f c = g c else room = 0

def EachFit (P : Nat → α → Prop) (g : α → List β) : Nat → List α → Prop
  | _, [] => True
  | room, c :: cs => P room c ∧ EachFit P g (room - (g c).length) cs

def FitsAll (f g : α → List β) : Nat → List α → Prop := EachFit (Fits f g) g

def EachTurn (P : α → Prop) (f : α → List β) : Nat → List α → Prop
  | _, [] => True
  | room, c :: cs => P c ∧ ((f c).length ≤ room → EachTurn P f (room - (f c).length) cs)

section

variable {f g : α → List β} {room : Nat} {c : α} {cs : List α}

theorem eachFit_congr {P Q : Nat → α → Prop} (h : ∀ room c, P room c ↔ Q room c) :
    EachFit P g room cs ↔ EachFit Q g room cs := by
  induction cs generalizing room with
  | nil => exact Iff.rfl
  | cons c cs ih => exact and_congr (h room c) ih

theorem fits_of_eq (h : f c = g c) (hlen : (f c).length ≤ 1) : Fits f g room c := by
  unfold Fits
  split_ifs
  · exact h
  · omega

theorem fits_iff_zero (h : (g c).length < (f c).length) : Fits f g room c ↔ room = 0 := by
  unfold Fits
  split_ifs with hle
  · refine iff_of_false ?_ (by omega)
    intro heq
    rw [heq] at h
    exact Nat.lt_irrefl _ h
  · exact Iff.rfl

theorem emitted_cons_of_le (h : (f c).length ≤ room) :
    emitted f room (c :: cs) = f c ++ emitted f (room - (f c).length) cs := by
  rw [emitted,if_pos h]

theorem emitted_cons_of_lt (h : room < (f c).length) : emitted f room (c :: cs) = (f c).take room := by
  rw [emitted,if_neg (by omega)]

theorem taken_cons_of_le (h : (f c).length ≤ room) :
    taken f room (c :: cs) = taken f (room - (f c).length) cs + 1 := by
  rw [taken,if_pos h]

theorem taken_cons_of_lt (h : room < (f c).length) : taken f room (c :: cs) = 0 := by
  rw [taken,if_neg (by omega)]

theorem emitted_of_fits (h : FitsAll f g room cs) :
    emitted f room cs = (cs.take (taken f room cs)).flatMap g := by
  induction cs generalizing room with
  | nil => rfl
  | cons c cs ih =>
    obtain ⟨hc,hcs⟩ := h
    rcases Nat.lt_or_ge room (f c).length with hlt | hle
    · rw [Fits,if_neg (by omega)] at hc
      rw [taken_cons_of_lt hlt,emitted_cons_of_lt hlt,hc]
      rfl
    · rw [Fits,if_pos hle] at hc
      rw [taken_cons_of_le hle,emitted_cons_of_le hle,List.take_succ_cons,List.flatMap_cons,hc,ih hcs]

variable (hshort : ∀ c, f c = g c ∨ (g c).length < (f c).length)

include hshort

theorem short_le (c : α) : (g c).length ≤ (f c).length := by
  rcases hshort c with h | h
  · exact Nat.le_of_eq (congrArg List.length h).symm
  · exact Nat.le_of_lt h

theorem taken_length_le (room : Nat) (cs : List α) :
    ((cs.take (taken f room cs)).flatMap g).length ≤ (emitted f room cs).length := by
  induction cs generalizing room with
  | nil => simp [emitted]
  | cons c cs ih =>
    rcases Nat.lt_or_ge room (f c).length with hlt | hle
    · rw [taken_cons_of_lt hlt]
      simp
    · rw [taken_cons_of_le hle,emitted_cons_of_le hle,List.take_succ_cons,List.flatMap_cons,
        List.length_append,List.length_append]
      have hc := short_le hshort c
      have hcs := ih (room - (f c).length)
      omega

theorem fitsAll_zero (cs : List α) : FitsAll f g 0 cs := by
  induction cs with
  | nil => trivial
  | cons c cs ih =>
    refine ⟨?_,by rwa [Nat.zero_sub]⟩
    unfold Fits
    split_ifs with h
    · rcases hshort c with heq | hlt
      · exact heq
      · omega
    · rfl

theorem fits_of_emitted (h : emitted f room cs = (cs.take (taken f room cs)).flatMap g) :
    FitsAll f g room cs := by
  induction cs generalizing room with
  | nil => trivial
  | cons c cs ih =>
    rcases Nat.lt_or_ge room (f c).length with hlt | hle
    · rw [taken_cons_of_lt hlt,emitted_cons_of_lt hlt] at h
      have hlen := congrArg List.length h
      simp only [List.length_take,List.take_zero,List.flatMap_nil,List.length_nil] at hlen
      obtain rfl : room = 0 := by omega
      exact fitsAll_zero hshort _
    · rw [taken_cons_of_le hle,emitted_cons_of_le hle,List.take_succ_cons,List.flatMap_cons] at h
      have hlen := congrArg List.length h
      rw [List.length_append,List.length_append] at hlen
      have hrest := taken_length_le hshort (room - (f c).length) cs
      have hc : f c = g c := by
        rcases hshort c with heq | hlt
        · exact heq
        · omega
      refine ⟨by rw [Fits,if_pos hle]; exact hc,ih ?_⟩
      rw [hc] at h
      exact List.append_cancel_left h

theorem emitted_iff : emitted f room cs = (cs.take (taken f room cs)).flatMap g ↔ FitsAll f g room cs :=
  ⟨fits_of_emitted hshort,emitted_of_fits⟩

end

end SabaOS.Lib
