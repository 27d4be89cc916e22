import Mathlib.Data.List.Perm.Basic
import Mathlib.Data.List.Nodup

namespace SabaOS.Lib.Keyed

variable {α κ : Type} [DecidableEq κ] (key : α → κ)

def store (l : List α) (x : α) : List α := l.map fun y => if key y = key x then x else y

def drop (l : List α) (k : κ) : List α := l.filter fun y => key y ≠ k

def lookup (l : List α) (k : κ) : Option α := l.find? fun y => key y = k

variable {key}

theorem lookup_of_mem {l : List α} {x : α} (hn : (l.map key).Nodup) (hx : x ∈ l) :
    lookup key l (key x) = some x := by
  induction l with
  | nil => simp at hx
  | cons y l ih =>
    obtain ⟨hy,hn⟩ := List.nodup_cons.mp hn
    rcases List.mem_cons.mp hx with rfl | hx
    · simp [lookup]
    · have hne : key y ≠ key x := fun he => hy (he ▸ List.mem_map_of_mem hx)
      simpa [lookup,hne] using ih hn hx

theorem lookup_mem {l : List α} {x : α} {k : κ} (h : lookup key l k = some x) :
    x ∈ l ∧ key x = k := by
  refine ⟨List.mem_of_find?_eq_some h,?_⟩
  simpa using List.find?_some h

theorem eq_of_key {l : List α} {x y : α} (hn : (l.map key).Nodup) (hx : x ∈ l) (hy : y ∈ l)
    (he : key x = key y) : x = y := by
  have h1 := lookup_of_mem hn hx
  rw [he,lookup_of_mem hn hy] at h1
  exact (Option.some.inj h1).symm

theorem store_of_not_mem {l : List α} {x : α} (h : key x ∉ l.map key) : store key l x = l := by
  have : ∀ y ∈ l, (if key y = key x then x else y) = y := by
    intro y hy
    rw [if_neg]
    exact fun he => h (he ▸ List.mem_map_of_mem hy)
  simpa [store] using List.map_congr_left this

theorem drop_of_not_mem {l : List α} {k : κ} (h : k ∉ l.map key) : drop key l k = l := by
  rw [drop,List.filter_eq_self]
  intro y hy
  simpa using fun he : key y = k => h (he ▸ List.mem_map_of_mem hy)

theorem store_perm {l m : List α} {x y : α} (hn : (l.map key).Nodup) (hl : l.Perm (x :: m))
    (he : key y = key x) : (store key l y).Perm (y :: m) := by
  have hn' : ((x :: m).map key).Nodup := (hl.map key).nodup_iff.mp hn
  have hx : key y ∉ m.map key := he ▸ (List.nodup_cons.mp hn').1
  have h : (store key l y).Perm (store key (x :: m) y) := hl.map _
  refine h.trans ?_
  have : store key (x :: m) y = y :: store key m y := by simp [store,he]
  rw [this,store_of_not_mem hx]

theorem drop_perm {l m : List α} {x : α} (hn : (l.map key).Nodup) (hl : l.Perm (x :: m)) :
    (drop key l (key x)).Perm m := by
  have hn' : ((x :: m).map key).Nodup := (hl.map key).nodup_iff.mp hn
  have hx : key x ∉ m.map key := (List.nodup_cons.mp hn').1
  have h : (drop key l (key x)).Perm (drop key (x :: m) (key x)) := hl.filter _
  refine h.trans ?_
  have : drop key (x :: m) (key x) = drop key m (key x) := by simp [drop]
  rw [this,drop_of_not_mem hx]

theorem mem_store_iff {l : List α} {e y : α} (hn : (l.map key).Nodup) (he : e ∈ l)
    (hk : key y = key e) (x : α) : x ∈ store key l y ↔ x = y ∨ (x ∈ l ∧ x ≠ e) := by
  classical
  have hp : l.Perm (e :: l.erase e) := List.perm_cons_erase he
  have hd : l.Nodup := hn.of_map
  rw [(store_perm hn hp hk).mem_iff,List.mem_cons,hd.mem_erase_iff,and_comm]

theorem map_key_store {l : List α} {y : α} : (store key l y).map key = l.map key := by
  rw [store,List.map_map]
  refine List.map_congr_left fun x _ => ?_
  by_cases hx : key x = key y <;> simp [hx]

end SabaOS.Lib.Keyed
