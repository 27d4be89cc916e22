import Mathlib.Data.Set.Function

namespace SabaOS.Lib

variable {K Q ι : Type}

structure Indexed (get : K → Option ι) (key : Q → K) (registered : Set Q) (occupied : Set ι)
    (index : Q → ι) : Prop where
  get_iff : ∀ k i, get k = some i ↔ ∃ q ∈ registered, key q = k ∧ index q = i
  bij : Set.BijOn index registered occupied

namespace Indexed

variable {get get' : K → Option ι} {key : Q → K} {registered : Set Q} {occupied : Set ι}
  {index : Q → ι} {q q' : Q} {j : ι} (h : Indexed get key registered occupied index)

include h

theorem get_self (hq : q ∈ registered) : get (key q) = some (index q) :=
  (h.get_iff _ _).mpr ⟨q,hq,rfl,rfl⟩

theorem key_inj (hq : q ∈ registered) (hq' : q' ∈ registered) (hk : key q = key q') : q = q' := by
  have heq := h.get_self hq'
  rw [← hk,h.get_self hq] at heq
  exact h.bij.injOn hq hq' (Option.some.inj heq)

theorem mem_of_get (hget : get (key q) = some j)
    (hkey : ∀ q' ∈ registered, key q' = key q → q' = q) : q ∈ registered ∧ index q = j := by
  obtain ⟨q',hq',hk,hj⟩ := (h.get_iff _ _).mp hget
  obtain rfl := hkey q' hq' hk
  exact ⟨hq',hj⟩

theorem not_mem_of_get (hget : get (key q) = none) : q ∉ registered := by
  intro hq
  cases (h.get_self hq).symm.trans hget

theorem insert [DecidableEq K] [DecidableEq Q] (hget : get (key q) = none) (hj : j ∉ occupied)
    (hget' : ∀ k, get' k = if k = key q then some j else get k) :
    Indexed get' key (insert q registered) (insert j occupied) (Function.update index q j) := by
  have hnot := h.not_mem_of_get hget
  have hsame : Set.EqOn index (Function.update index q j) registered := by
    intro q' hq'
    rw [Function.update_of_ne]
    rintro rfl
    exact hnot hq'
  refine ⟨?_,?_⟩
  · intro k i
    rw [hget']
    constructor
    · intro hi
      split_ifs at hi with hk
      · cases hi
        exact ⟨q,Set.mem_insert q registered,hk.symm,Function.update_self _ _ _⟩
      · obtain ⟨q',hq',hk',hi'⟩ := (h.get_iff k i).mp hi
        exact ⟨q',Set.mem_insert_of_mem q hq',hk',(hsame hq').symm.trans hi'⟩
    · rintro ⟨q',hq',hk',hi'⟩
      rcases Set.mem_insert_iff.mp hq' with rfl | hq'
      · rw [if_pos hk'.symm,← hi',Function.update_self]
      · rw [if_neg,← hi',← hsame hq',← hk']
        · exact h.get_self hq'
        · intro hk
          rw [← hk,← hk',h.get_self hq'] at hget
          cases hget
  · have hbij := (h.bij.congr hsame).insert (a := q) (by rwa [Function.update_self])
    rwa [Function.update_self] at hbij

theorem erase [DecidableEq K] (hq : q ∈ registered)
    (hget' : ∀ k, get' k = if k = key q then none else get k) :
    Indexed get' key (registered \ {q}) (occupied \ {index q}) index := by
  refine ⟨?_,h.bij.sdiff_singleton hq⟩
  intro k i
  rw [hget']
  constructor
  · intro hi
    split_ifs at hi with hk
    obtain ⟨q',hq',hk',hi'⟩ := (h.get_iff k i).mp hi
    refine ⟨q',⟨hq',?_⟩,hk',hi'⟩
    rintro rfl
    exact hk hk'.symm
  · rintro ⟨q',⟨hq',hne⟩,hk',hi'⟩
    rw [if_neg]
    · exact (h.get_iff k i).mpr ⟨q',hq',hk',hi'⟩
    · intro hk
      exact hne (h.key_inj hq' hq (hk'.trans hk))

end Indexed

end SabaOS.Lib
