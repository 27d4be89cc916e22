import Mathlib.Data.List.Basic
import Mathlib.Tactic.Common
import Mathlib.Tactic.SplitIfs

namespace SabaOS.Lib

structure Page (α : Type) where
  placed : List (Nat × Nat × α)
  count : Nat
  cursor : Nat

namespace Page

variable {α : Type}

def items (p : Page α) : List (Nat × α) := p.placed.map Prod.snd

def place (p : Page α) (start i : Nat) (x : α) : Page α := { p with placed := (start,i,x) :: p.placed }

end Page

section Paging

variable {α : Type} (live : α → Bool) (size : α → Nat)

def page (max cursor : Nat) : List α → Nat → Nat → Page α
  | [],i,count => ⟨[],count,i⟩
  | x :: xs,i,count =>
    if i < cursor ∨ live x = false then page max cursor xs (i + 1) count
    else if max < count + size x then ⟨[],count,i⟩
    else (page max cursor xs (i + 1) (count + size x)).place count i x

def ahead (cursor : Nat) : List α → Nat → List (Nat × α)
  | [],_ => []
  | x :: xs,i =>
    if i < cursor ∨ live x = false then ahead cursor xs (i + 1) else (i,x) :: ahead cursor xs (i + 1)

def Tiled : Nat → List (Nat × Nat × α) → Nat → Prop
  | start,[],stop => start = stop
  | start,x :: xs,stop => x.1 = start ∧ Tiled (start + size x.2.2) xs stop

variable {live size} {max cursor cursor' i count : Nat} {xs : List α}

theorem page_passed {x : α} (h : i < cursor ∨ live x = false) :
    page live size max cursor (x :: xs) i count = page live size max cursor xs (i + 1) count :=
  if_pos h

theorem page_full {x : α} (h : ¬(i < cursor ∨ live x = false)) (hfull : max < count + size x) :
    page live size max cursor (x :: xs) i count = ⟨[],count,i⟩ := by
  rw [page,if_neg h,if_pos hfull]

theorem page_placed {x : α} (h : ¬(i < cursor ∨ live x = false)) (hfits : ¬max < count + size x) :
    page live size max cursor (x :: xs) i count =
      (page live size max cursor xs (i + 1) (count + size x)).place count i x := by
  rw [page,if_neg h,if_neg hfits]

theorem ahead_passed {x : α} (h : i < cursor ∨ live x = false) :
    ahead live cursor (x :: xs) i = ahead live cursor xs (i + 1) :=
  if_pos h

theorem ahead_live {x : α} (h : ¬(i < cursor ∨ live x = false)) :
    ahead live cursor (x :: xs) i = (i,x) :: ahead live cursor xs (i + 1) :=
  if_neg h

theorem ahead_congr (h : cursor ≤ i) (h' : cursor' ≤ i) :
    ahead live cursor xs i = ahead live cursor' xs i := by
  induction xs generalizing i with
  | nil => rfl
  | cons x xs ih =>
    rw [ahead,ahead,ih (by omega) (by omega)]
    cases live x with
    | true => rw [if_neg (by simp; omega),if_neg (by simp; omega)]
    | false => rw [if_pos (.inr rfl),if_pos (.inr rfl)]

theorem mem_ahead {x : Nat × α} (h : x ∈ ahead live cursor xs i) : x.2 ∈ xs ∧ live x.2 = true := by
  induction xs generalizing i with
  | nil => cases h
  | cons y xs ih =>
    by_cases hpass : i < cursor ∨ live y = false
    · rw [ahead_passed hpass] at h
      exact ⟨List.mem_cons_of_mem y (ih h).1,(ih h).2⟩
    · rw [ahead_live hpass] at h
      rcases List.mem_cons.mp h with rfl | h
      · exact ⟨List.mem_cons_self,by simpa using (not_or.mp hpass).2⟩
      · exact ⟨List.mem_cons_of_mem y (ih h).1,(ih h).2⟩

theorem ahead_mem {x : α} (hmem : x ∈ xs) (hlive : live x = true) : ∃ k, (k,x) ∈ ahead live 0 xs i := by
  induction xs generalizing i with
  | nil => cases hmem
  | cons y xs ih =>
    by_cases hpass : i < 0 ∨ live y = false
    · rw [ahead_passed hpass]
      refine ih ((List.mem_cons.mp hmem).resolve_left ?_)
      rintro rfl
      simp [hlive] at hpass
    · rw [ahead_live hpass]
      rcases List.mem_cons.mp hmem with rfl | hmem
      · exact ⟨i,List.mem_cons_self⟩
      · obtain ⟨k,hk⟩ := ih (i := i + 1) hmem
        exact ⟨k,List.mem_cons_of_mem _ hk⟩

theorem page_cursor : i ≤ (page live size max cursor xs i count).cursor := by
  induction xs generalizing i count with
  | nil => exact Nat.le_refl _
  | cons x xs ih =>
    by_cases hpass : i < cursor ∨ live x = false
    · rw [page_passed hpass]
      exact Nat.le_of_succ_le ih
    · by_cases hfull : max < count + size x
      · exact Nat.le_of_eq (congrArg Page.cursor (page_full hpass hfull)).symm
      · rw [page_placed hpass hfull]
        exact Nat.le_of_succ_le ih

theorem page_resumes : (page live size max cursor xs i count).items ++
    ahead live (page live size max cursor xs i count).cursor xs i = ahead live cursor xs i := by
  induction xs generalizing i count with
  | nil => rfl
  | cons x xs ih =>
    have hcursor (n : Nat) : i < (page live size max cursor xs (i + 1) n).cursor := page_cursor
    by_cases hpass : i < cursor ∨ live x = false
    · rw [page_passed hpass,ahead_passed hpass,ahead_passed (.inl (hcursor count))]
      exact ih
    · by_cases hfull : max < count + size x
      · rw [page_full hpass hfull]
        exact ahead_congr (Nat.le_refl i) (Nat.le_of_not_lt fun hlt => hpass (.inl hlt))
      · rw [page_placed hpass hfull,ahead_live hpass]
        exact (congrArg _ (ahead_passed (.inl (hcursor _)))).trans (congrArg (List.cons (i,x)) ih)

theorem mem_page {x : Nat × α} (h : x ∈ (page live size max cursor xs i count).items) :
    x.2 ∈ xs ∧ live x.2 = true :=
  mem_ahead (page_resumes ▸ List.mem_append_left _ h)

theorem page_tiled : Tiled size count (page live size max cursor xs i count).placed
    (page live size max cursor xs i count).count := by
  induction xs generalizing i count with
  | nil => rfl
  | cons x xs ih =>
    by_cases hpass : i < cursor ∨ live x = false
    · rw [page_passed hpass]
      exact ih
    · by_cases hfull : max < count + size x
      · rw [page_full hpass hfull]
        rfl
      · rw [page_placed hpass hfull]
        exact ⟨rfl,ih⟩

theorem page_count : count ≤ (page live size max cursor xs i count).count ∧
    (count ≤ max → (page live size max cursor xs i count).count ≤ max) := by
  induction xs generalizing i count with
  | nil => exact ⟨Nat.le_refl _,id⟩
  | cons x xs ih =>
    by_cases hpass : i < cursor ∨ live x = false
    · rw [page_passed hpass]
      exact ih
    · by_cases hfull : max < count + size x
      · rw [page_full hpass hfull]
        exact ⟨Nat.le_refl _,id⟩
      · rw [page_placed hpass hfull]
        obtain ⟨hle,hmax⟩ := @ih (i + 1) (count + size x)
        exact ⟨Nat.le_of_add_right_le hle,fun _ => hmax (Nat.le_of_not_lt hfull)⟩

theorem page_empty (hfits : ∀ x ∈ xs, live x = true → 0 < size x ∧ size x ≤ max) :
    (page live size max cursor xs i 0).count = 0 ↔ ahead live cursor xs i = [] := by
  induction xs generalizing i with
  | nil => exact iff_of_true rfl rfl
  | cons x xs ih =>
    by_cases hpass : i < cursor ∨ live x = false
    · rw [page_passed hpass,ahead_passed hpass]
      exact ih fun y hy => hfits y (List.mem_cons_of_mem x hy)
    · have hlive : live x = true := by simpa using (not_or.mp hpass).2
      obtain ⟨hpos,hle⟩ := hfits x List.mem_cons_self hlive
      rw [page_placed hpass (by omega),ahead_live hpass]
      have hcount : 0 + size x ≤ (page live size max cursor xs (i + 1) (0 + size x)).count :=
        page_count.1
      refine iff_of_false ?_ (List.cons_ne_nil _ _)
      change (page live size max cursor xs (i + 1) (0 + size x)).count ≠ 0
      omega

section Runs

variable (live size)

def cursorAfter (xs : List α) (maxes : List Nat) (cursor : Nat) : Nat :=
  maxes.foldl (fun cursor max => (page live size max cursor xs 0 0).cursor) cursor

def delivered (xs : List α) : List Nat → Nat → List (Nat × α)
  | [],_ => []
  | max :: maxes,cursor => (page live size max cursor xs 0 0).items ++
      delivered xs maxes (page live size max cursor xs 0 0).cursor

variable {live size} {maxes : List Nat}

theorem delivered_ahead : delivered live size xs maxes cursor ++
    ahead live (cursorAfter live size xs maxes cursor) xs 0 = ahead live cursor xs 0 := by
  induction maxes generalizing cursor with
  | nil => rfl
  | cons max maxes ih =>
    calc delivered live size xs (max :: maxes) cursor ++
          ahead live (cursorAfter live size xs (max :: maxes) cursor) xs 0
      _ = (page live size max cursor xs 0 0).items ++
            ahead live (page live size max cursor xs 0 0).cursor xs 0 := by
          rw [← @ih (page live size max cursor xs 0 0).cursor,← List.append_assoc]
          rfl
      _ = ahead live cursor xs 0 := page_resumes

theorem mem_delivered {x : Nat × α} (h : x ∈ delivered live size xs maxes cursor) :
    ∃ pre max post, maxes = pre ++ max :: post ∧
      x ∈ (page live size max (cursorAfter live size xs pre cursor) xs 0 0).items := by
  induction maxes generalizing cursor with
  | nil => cases h
  | cons max maxes ih =>
    rcases List.mem_append.mp h with h | h
    · exact ⟨[],max,maxes,rfl,h⟩
    · obtain ⟨pre,max',post,rfl,hx⟩ := ih h
      exact ⟨max :: pre,max',post,rfl,hx⟩

theorem delivered_all_iff : delivered live size xs maxes cursor = ahead live cursor xs 0 ↔
    ahead live (cursorAfter live size xs maxes cursor) xs 0 = [] := by
  have hall : delivered live size xs maxes cursor ++
      ahead live (cursorAfter live size xs maxes cursor) xs 0 = ahead live cursor xs 0 :=
    delivered_ahead
  constructor
  · intro h
    exact List.append_right_eq_self.mp (hall.trans h.symm)
  · intro h
    rw [← hall,h,List.append_nil]

variable (hfits : ∀ max ∈ maxes, ∀ x ∈ xs, live x = true → 0 < size x ∧ size x ≤ max)

include hfits

theorem ahead_length : (ahead live (cursorAfter live size xs maxes cursor) xs 0).length ≤
    (ahead live cursor xs 0).length - maxes.length := by
  induction maxes generalizing cursor with
  | nil => exact Nat.le_refl _
  | cons max maxes ih =>
    have hrest := @ih (page live size max cursor xs 0 0).cursor
      fun m hm => hfits m (List.mem_cons_of_mem max hm)
    have hone : (page live size max cursor xs 0 0).count = 0 ↔ ahead live cursor xs 0 = [] :=
      page_empty (hfits max List.mem_cons_self)
    have hresumes : (page live size max cursor xs 0 0).items ++
        ahead live (page live size max cursor xs 0 0).cursor xs 0 = ahead live cursor xs 0 :=
      page_resumes
    have hcut := congrArg List.length hresumes
    rw [List.length_append] at hcut
    change (ahead live (cursorAfter live size xs maxes
      (page live size max cursor xs 0 0).cursor) xs 0).length ≤ _
    rw [List.length_cons]
    rcases eq_or_ne (ahead live cursor xs 0) [] with hnil | hne
    · rw [hnil,List.length_nil] at hcut
      omega
    · have hitems : (page live size max cursor xs 0 0).items ≠ [] := by
        intro hnil
        have htiled : Tiled size 0 (page live size max cursor xs 0 0).placed
            (page live size max cursor xs 0 0).count := page_tiled
        rw [List.map_eq_nil_iff.mp hnil] at htiled
        exact hne (hone.mp htiled.symm)
      have hpos := List.length_pos_iff.mpr hitems
      omega

theorem delivered_enough (h : (ahead live cursor xs 0).length ≤ maxes.length) :
    delivered live size xs maxes cursor = ahead live cursor xs 0 := by
  have hlength : (ahead live (cursorAfter live size xs maxes cursor) xs 0).length ≤
      (ahead live cursor xs 0).length - maxes.length := ahead_length hfits
  exact delivered_all_iff.mpr (List.length_eq_zero_iff.mp (by omega))

end Runs

end Paging

end SabaOS.Lib
