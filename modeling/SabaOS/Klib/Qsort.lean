import Mathlib.Algebra.Group.End
import Mathlib.Data.List.Nodup
import Mathlib.Data.List.Perm.Basic
import Mathlib.Data.List.Range
import Mathlib.Order.Basic

namespace SabaOS.Klib.Qsort

section Places

variable {α : Type} {a a' a'' : Nat → α} {first last low high i j : Nat}

def swap (a : Nat → α) (i j : Nat) : Nat → α := fun k => if k = i then a j else if k = j then a i else a k

def Rearranged (a a' : Nat → α) (first last : Nat) : Prop :=
  ∃ σ : Equiv.Perm Nat, (∀ k, k < first ∨ last ≤ k → σ k = k) ∧ ∀ k, a' k = a (σ k)

theorem Rearranged.refl (a : Nat → α) (first last : Nat) : Rearranged a a first last :=
  ⟨1,fun _ _ => rfl,fun _ => rfl⟩

theorem Rearranged.trans (h : Rearranged a a' first last) (h' : Rearranged a' a'' first last) :
    Rearranged a a'' first last := by
  obtain ⟨σ,hout,hat⟩ := h
  obtain ⟨τ,hout',hat'⟩ := h'
  refine ⟨τ.trans σ,fun k hk => ?_,fun k => ?_⟩
  · rw [Equiv.trans_apply,hout' k hk,hout k hk]
  · rw [hat',hat,Equiv.trans_apply]

theorem Rearranged.mono (h : Rearranged a a' first last) (hfirst : low ≤ first) (hlast : last ≤ high) :
    Rearranged a a' low high := by
  obtain ⟨σ,hout,hat⟩ := h
  exact ⟨σ,fun k hk => hout k (by omega),hat⟩

theorem Rearranged.outside (h : Rearranged a a' first last) {k : Nat} (hk : k < first ∨ last ≤ k) :
    a' k = a k := by
  obtain ⟨σ,hout,hat⟩ := h
  rw [hat,hout k hk]

theorem Rearranged.inside {σ : Equiv.Perm Nat} (hout : ∀ k, k < first ∨ last ≤ k → σ k = k) {k : Nat} :
    first ≤ σ k ∧ σ k < last ↔ first ≤ k ∧ k < last := by
  constructor
  · intro h
    by_contra hk
    rw [hout k (by omega)] at h
    exact hk h
  · intro h
    by_contra hk
    have hfix := σ.injective (hout (σ k) (by omega))
    rw [hfix] at hk
    exact hk h

theorem swap_rearranged (a : Nat → α) (hi : first ≤ i ∧ i < last) (hj : first ≤ j ∧ j < last) :
    Rearranged a (swap a i j) first last := by
  refine ⟨Equiv.swap i j,fun k hk => Equiv.swap_apply_of_ne_of_ne (by omega) (by omega),fun k => ?_⟩
  rw [swap,Equiv.swap_apply_def]
  split_ifs
  · rfl
  · rfl
  · rfl

def segment (a : Nat → α) (first last : Nat) : List α := (List.range' first (last - first)).map a

theorem Rearranged.perm (h : Rearranged a a' first last) :
    (segment a' first last).Perm (segment a first last) := by
  obtain ⟨σ,hout,hat⟩ := h
  have hmap : segment a' first last = ((List.range' first (last - first)).map σ).map a := by
    rw [segment,List.map_map]
    exact List.map_congr_left fun k _ => hat k
  rw [hmap,segment]
  refine List.Perm.map a ((List.perm_ext_iff_of_nodup ?_ List.nodup_range').mpr fun k => ?_)
  · exact List.Nodup.map σ.injective List.nodup_range'
  · rw [List.mem_map,List.mem_range'_1]
    constructor
    · rintro ⟨m,hm,rfl⟩
      have hin := (Rearranged.inside hout).mpr ⟨(List.mem_range'_1.mp hm).1,by
        have := List.mem_range'_1.mp hm
        omega⟩
      omega
    · intro hk
      have hin : first ≤ σ (σ.symm k) ∧ σ (σ.symm k) < last := by
        rw [Equiv.apply_symm_apply]
        omega
      obtain ⟨h1,h2⟩ := (Rearranged.inside hout).mp hin
      exact ⟨σ.symm k,List.mem_range'_1.mpr ⟨h1,by omega⟩,Equiv.apply_symm_apply σ k⟩

end Places

variable {α : Type} [LinearOrder α]

-- A place outside the array of the call is not touched: it ends the run with `none`.
def scanUp (a : Nat → α) (first last : Nat) (pivot : α) : Nat → Nat → Option Nat
  | 0,_ => none
  | fuel + 1,low =>
    if first ≤ low ∧ low < last then
      if a low < pivot then scanUp a first last pivot fuel (low + 1) else some low
    else none

def scanDown (a : Nat → α) (first last : Nat) (pivot : α) : Nat → Nat → Option Nat
  | 0,_ => none
  | _ + 1,0 => none
  | fuel + 1,high + 1 =>
    if first ≤ high ∧ high < last then
      if pivot < a high then scanDown a first last pivot fuel high else some high
    else none

def partitionLoop (first last : Nat) (pivot : α) :
    Nat → (Nat → α) → Nat → Nat → Option ((Nat → α) × Nat)
  | 0,_,_,_ => none
  | fuel + 1,a,low,high => do
    let low ← scanUp a first last pivot (last - first + 1) low
    let high ← scanDown a first last pivot (last - first + 1) high
    if high ≤ low then return (a,low)
    else partitionLoop first last pivot fuel (swap a low high) (low + 1) high

def qsortPartition (a : Nat → α) (low high : Nat) : Option ((Nat → α) × Nat) :=
  let middle := low + (high - low) / 2
  if low ≤ middle ∧ middle < high then
    partitionLoop low high (a middle) (high - low + 1) a low high
  else none

def qsort : Nat → (Nat → α) → Nat → Nat → Option (Nat → α)
  | 0,_,_,_ => none
  | fuel + 1,a,first,last =>
    if last - first < 2 then some a
    else do
      let r ← qsortPartition a first last
      let a ← qsort fuel r.1 first r.2
      qsort fuel a r.2 last

variable {a a' a'' : Nat → α} {first last low high i j p : Nat} {pivot : α}

theorem scanUp_spec (fuel low : Nat) (hf : j < low + fuel) (hlow : first ≤ low) (hle : low ≤ j)
    (hlast : j < last) (hj : pivot ≤ a j) :
    ∃ r, scanUp a first last pivot fuel low = some r ∧ low ≤ r ∧ r ≤ j ∧
      (∀ k, low ≤ k → k < r → a k < pivot) ∧ pivot ≤ a r := by
  induction fuel generalizing low with
  | zero => omega
  | succ fuel ih =>
    rw [scanUp,if_pos ⟨hlow,by omega⟩]
    by_cases hlt : a low < pivot
    · have hne : low ≠ j := by
        rintro rfl
        exact not_lt_of_ge hj hlt
      obtain ⟨r,hr,hlr,hrj,hall,hstop⟩ := ih (low + 1) (by omega) (by omega) (by omega)
      rw [if_pos hlt]
      refine ⟨r,hr,by omega,hrj,fun k hk hkr => ?_,hstop⟩
      rcases Nat.eq_or_lt_of_le hk with rfl | hk
      · exact hlt
      · exact hall k hk hkr
    · rw [if_neg hlt]
      exact ⟨low,rfl,le_rfl,hle,fun k h1 h2 => by omega,not_lt.mp hlt⟩

theorem scanDown_spec (fuel high : Nat) (hf : high ≤ i + fuel) (hfirst : first ≤ i) (hlt : i < high)
    (hhigh : high ≤ last) (hi : a i ≤ pivot) :
    ∃ r, scanDown a first last pivot fuel high = some r ∧ i ≤ r ∧ r < high ∧
      (∀ k, r < k → k < high → pivot < a k) ∧ a r ≤ pivot := by
  induction fuel generalizing high with
  | zero => omega
  | succ fuel ih =>
    obtain ⟨high,rfl⟩ : ∃ h, high = h + 1 := ⟨high - 1,by omega⟩
    rw [scanDown,if_pos ⟨by omega,by omega⟩]
    by_cases hgt : pivot < a high
    · have hne : i ≠ high := by
        rintro rfl
        exact not_lt_of_ge hi hgt
      obtain ⟨r,hr,hir,hrh,hall,hstop⟩ := ih high (by omega) (by omega) (by omega)
      rw [if_pos hgt]
      refine ⟨r,hr,hir,by omega,fun k hk hkh => ?_,hstop⟩
      rcases Nat.lt_succ_iff_lt_or_eq.mp hkh with hkh | rfl
      · exact hall k hk hkh
      · exact hgt
    · rw [if_neg hgt]
      exact ⟨high,rfl,by omega,by omega,fun k h1 h2 => by omega,not_lt.mp hgt⟩

structure Sides (a : Nat → α) (first last : Nat) (pivot : α) (low high : Nat) : Prop where
  below : ∀ k, first ≤ k → k < low → a k ≤ pivot
  above : ∀ k, high ≤ k → k < last → pivot ≤ a k

theorem partitionLoop_spec (fuel : Nat) (hs : Sides a first last pivot low high)
    (hf : high < low + fuel) (hfirst : first ≤ low) (hlast : high ≤ last) (hlow : low ≤ high)
    (hji : low ≤ j) (hj : j < last) (haj : pivot ≤ a j) (hi : first ≤ i) (hih : i < high)
    (hai : a i ≤ pivot) (hstrict : first < low ∨ first < i) :
    ∃ a' p, partitionLoop first last pivot fuel a low high = some (a',p) ∧ first < p ∧ p < last ∧
      Rearranged a a' first last ∧ Sides a' first last pivot p p := by
  induction fuel generalizing a low high i j with
  | zero => omega
  | succ fuel ih =>
    obtain ⟨l,hl,hlowl,hlj,hbelow,hstop⟩ :=
      scanUp_spec (last - first + 1) low (by omega) hfirst hji hj haj
    obtain ⟨h,hh,hhi,hhigh,habove,hstop'⟩ :=
      scanDown_spec (last - first + 1) high (by omega) hi hih hlast hai
    have hleft : ∀ k, first ≤ k → k < l → a k ≤ pivot := by
      intro k hk hkl
      rcases Nat.lt_or_ge k low with hlt | hge
      · exact hs.below k hk hlt
      · exact (hbelow k hge hkl).le
    have hright : ∀ k, h < k → k < last → pivot ≤ a k := by
      intro k hk hkl
      rcases Nat.lt_or_ge k high with hlt | hge
      · exact (habove k hk hlt).le
      · exact hs.above k hge hkl
    rw [partitionLoop,hl,Option.bind_eq_bind,Option.bind_some,hh,Option.bind_some]
    by_cases hdone : h ≤ l
    · rw [if_pos hdone]
      refine ⟨a,l,rfl,by omega,by omega,Rearranged.refl a first last,hleft,fun k hk hkl => ?_⟩
      rcases Nat.eq_or_lt_of_le hk with rfl | hlt
      · exact hstop
      · exact hright k (by omega) hkl
    · rw [if_neg hdone]
      have hswap : Rearranged a (swap a l h) first last :=
        swap_rearranged a ⟨by omega,by omega⟩ ⟨by omega,by omega⟩
      have hatl : swap a l h l = a h := by simp [swap]
      have hath : swap a l h h = a l := by
        rw [swap,if_neg (by omega),if_pos rfl]
      have hsides : Sides (swap a l h) first last pivot (l + 1) h := by
        constructor
        · intro k hk hkl
          rcases Nat.lt_succ_iff_lt_or_eq.mp hkl with hlt | rfl
          · rw [swap,if_neg (by omega),if_neg (by omega)]
            exact hleft k hk hlt
          · rw [hatl]
            exact hstop'
        · intro k hk hkl
          rcases Nat.eq_or_lt_of_le hk with rfl | hlt
          · rw [hath]
            exact hstop
          · rw [swap,if_neg (by omega),if_neg (by omega)]
            exact hright k hlt hkl
      obtain ⟨a',p,hloop,hp,hpl,hre,hsides'⟩ := ih hsides (by omega) (by omega) (by omega)
        (by omega) (j := h) (i := l) (by omega) (by omega) (hath ▸ hstop) (by omega) (by omega)
        (hatl ▸ hstop') (.inl (by omega))
      exact ⟨a',p,hloop,hp,hpl,hswap.trans hre,hsides'⟩

theorem qsortPartition_spec (a : Nat → α) (h : first + 2 ≤ last) :
    ∃ a' p pivot, qsortPartition a first last = some (a',p) ∧ first < p ∧ p < last ∧
      Rearranged a a' first last ∧ Sides a' first last pivot p p := by
  have hmiddle : first < first + (last - first) / 2 ∧ first + (last - first) / 2 < last := by omega
  have hs : Sides a first last (a (first + (last - first) / 2)) first last :=
    ⟨fun k h1 h2 => by omega,fun k h1 h2 => by omega⟩
  obtain ⟨a',p,hloop,hrest⟩ := partitionLoop_spec (last - first + 1) hs (by omega) le_rfl
    le_rfl (by omega) hmiddle.1.le hmiddle.2 le_rfl hmiddle.1.le hmiddle.2 le_rfl (.inr hmiddle.1)
  refine ⟨a',p,_,?_,hrest⟩
  rw [qsortPartition,if_pos ⟨hmiddle.1.le,hmiddle.2⟩,hloop]

theorem Sides.rearranged (hs : Sides a first last pivot p p) (h : Rearranged a a' first p) :
    Sides a' first last pivot p p := by
  have hout : ∀ k, p ≤ k → a' k = a k := fun k hk => h.outside (.inr hk)
  obtain ⟨σ,hfix,hat⟩ := h
  refine ⟨fun k hk hkp => ?_,fun k hk hkl => ?_⟩
  · obtain ⟨h1,h2⟩ := (Rearranged.inside hfix).mpr ⟨hk,hkp⟩
    rw [hat]
    exact hs.below _ h1 h2
  · rw [hout k hk]
    exact hs.above k hk hkl

theorem Sides.rearranged_above (hs : Sides a first last pivot p p) (h : Rearranged a a' p last) :
    Sides a' first last pivot p p := by
  have hout : ∀ k, k < p → a' k = a k := fun k hk => h.outside (.inl hk)
  obtain ⟨σ,hfix,hat⟩ := h
  refine ⟨fun k hk hkp => ?_,fun k hk hkl => ?_⟩
  · rw [hout k hkp]
    exact hs.below k hk hkp
  · obtain ⟨h1,h2⟩ := (Rearranged.inside hfix).mpr ⟨hk,hkl⟩
    rw [hat]
    exact hs.above _ h1 h2

def Sorted (a : Nat → α) (first last : Nat) : Prop := ∀ i j, first ≤ i → i ≤ j → j < last → a i ≤ a j

theorem qsort_spec (fuel : Nat) (a : Nat → α) (hf : last - first < fuel) :
    ∃ a', qsort fuel a first last = some a' ∧ Rearranged a a' first last ∧ Sorted a' first last := by
  induction fuel generalizing a first last with
  | zero => omega
  | succ fuel ih =>
    rw [qsort]
    by_cases hshort : last - first < 2
    · rw [if_pos hshort]
      refine ⟨a,rfl,Rearranged.refl a first last,fun i j h1 h2 h3 => ?_⟩
      obtain rfl : i = j := by omega
      exact le_rfl
    · rw [if_neg hshort]
      obtain ⟨b,p,pivot,hpart,hp,hpl,hre,hsides⟩ := qsortPartition_spec a (by omega : first + 2 ≤ last)
      obtain ⟨c,hc,hrec,hsortc⟩ := ih b (by omega : p - first < fuel)
      obtain ⟨d,hd,hred,hsortd⟩ := ih c (by omega : last - p < fuel)
      have hsides' := (hsides.rearranged hrec).rearranged_above hred
      refine ⟨d,?_,?_,?_⟩
      · simp only [hpart,hc,Option.bind_eq_bind,Option.bind_some,hd]
      · exact (hre.trans (hrec.mono le_rfl hpl.le)).trans (hred.mono hp.le le_rfl)
      · intro i j h1 h2 h3
        rcases Nat.lt_or_ge j p with hj | hj
        · rw [hred.outside (.inl (by omega)),hred.outside (.inl hj)]
          exact hsortc i j h1 h2 hj
        · rcases Nat.lt_or_ge i p with hi | hi
          · exact (hsides'.below i h1 hi).trans (hsides'.above j hj h3)
          · exact hsortd i j hi h2 h3

theorem Sorted.pairwise (h : Sorted a first last) : (segment a first last).Pairwise (· ≤ ·) := by
  rw [segment,List.pairwise_map]
  refine List.Pairwise.imp_of_mem (fun hi hj hlt => ?_) List.pairwise_lt_range'
  have hi := List.mem_range'_1.mp hi
  have hj := List.mem_range'_1.mp hj
  exact h _ _ hi.1 hlt.le (by omega)

theorem qsort_sorts (a : Nat → α) (first last : Nat) :
    ∃ a', qsort (last - first + 1) a first last = some a' ∧
      (segment a' first last).Pairwise (· ≤ ·) ∧
      (segment a' first last).Perm (segment a first last) ∧
      ∀ k, k < first ∨ last ≤ k → a' k = a k := by
  obtain ⟨a',hrun,hre,hsorted⟩ := qsort_spec (last - first + 1) a (Nat.lt_succ_self _)
  exact ⟨a',hrun,hsorted.pairwise,hre.perm,fun k hk => hre.outside hk⟩

end SabaOS.Klib.Qsort
