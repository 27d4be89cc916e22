import Mathlib.Data.List.Basic
import Mathlib.Data.UInt
import Mathlib.Logic.Function.Basic

namespace SabaOS.Klib

-- murmur64
def hash (h : UInt64) : UInt64 :=
  let h := h ^^^ (h >>> 33)
  let h := h * 0xff51afd7ed558ccd
  let h := h ^^^ (h >>> 33)
  let h := h * 0xc4ceb9fe1a85ec53
  h ^^^ (h >>> 33)

def hashCombine (oldHash newHash : UInt64) : UInt64 :=
  oldHash ^^^ (newHash + (0x9e3779b97f4a7c15 : UInt64) + (oldHash <<< 6) + (oldHash >>> 2) : UInt64)

class Hashed (K : Type) where
  hash : K → UInt64

instance : Hashed UInt64 := ⟨hash⟩

structure HashTable (K V : Type) where
  table : Nat → List (K × V)
  tableSize : UInt64

namespace HashTable

variable {K V : Type}

def new (tableSize : UInt64) : HashTable K V := ⟨fun _ => [],tableSize⟩

variable [Hashed K] [DecidableEq K]

def getHashBucket (t : HashTable K V) (key : K) : Nat := (Hashed.hash key % t.tableSize).toNat

def get (t : HashTable K V) (key : K) : Option V :=
  ((t.table (t.getHashBucket key)).find? fun entry => entry.1 = key).map (·.2)

def emplace (t : HashTable K V) (key : K) (value : V) : HashTable K V :=
  let bucket := t.getHashBucket key
  { t with table := Function.update t.table bucket ((key,value) :: t.table bucket) }

def remove (t : HashTable K V) (key : K) : HashTable K V :=
  let bucket := t.getHashBucket key
  let entries := (t.table bucket).eraseP fun entry => entry.1 = key
  { t with table := Function.update t.table bucket entries }

omit [Hashed K] [DecidableEq K] in
def Distinct (t : HashTable K V) : Prop := ∀ b, ((t.table b).map Prod.fst).Nodup

section Bucket

variable {entries : List (K × V)} {key k : K}

omit [Hashed K]

theorem find?_erase_self (h : (entries.map Prod.fst).Nodup) :
    (entries.eraseP fun entry => entry.1 = key).find? (fun entry => entry.1 = key) = none := by
  induction entries with
  | nil => rfl
  | cons entry entries ih =>
    obtain ⟨hnot,hrest⟩ := List.nodup_cons.mp h
    by_cases hkey : entry.1 = key
    · rw [List.eraseP_cons_of_pos (by simpa using hkey),List.find?_eq_none]
      intro other hmem heq
      apply hnot
      rw [hkey,← of_decide_eq_true heq]
      exact List.mem_map_of_mem hmem
    · rw [List.eraseP_cons_of_neg (by simpa using hkey),List.find?_cons_of_neg (by simpa using hkey)]
      exact ih hrest

theorem find?_erase_other (hk : k ≠ key) :
    (entries.eraseP fun entry => entry.1 = key).find? (fun entry => entry.1 = k) =
      entries.find? fun entry => entry.1 = k := by
  induction entries with
  | nil => rfl
  | cons entry entries ih =>
    by_cases hkey : entry.1 = key
    · have hother : entry.1 ≠ k := fun h => hk (h.symm.trans hkey)
      rw [List.eraseP_cons_of_pos (by simpa using hkey),List.find?_cons_of_neg (by simpa using hother)]
    · rw [List.eraseP_cons_of_neg (by simpa using hkey),List.find?_cons,List.find?_cons,ih]

end Bucket

variable {t : HashTable K V} {key : K} {value : V}

theorem get_emplace (k : K) : (t.emplace key value).get k = if k = key then some value else t.get k := by
  have hbucket : (t.emplace key value).getHashBucket k = t.getHashBucket k := rfl
  rw [get,hbucket,emplace]
  dsimp only
  split_ifs with hk
  · subst hk
    rw [Function.update_self,List.find?_cons_of_pos (by simp)]
    rfl
  · rcases eq_or_ne (t.getHashBucket k) (t.getHashBucket key) with hb | hb
    · rw [hb,Function.update_self,List.find?_cons_of_neg (by simpa using Ne.symm hk),← hb]
      rfl
    · rw [Function.update_of_ne hb]
      rfl

namespace Distinct

variable (h : t.Distinct)

include h

theorem get_remove (k : K) : (t.remove key).get k = if k = key then none else t.get k := by
  have hbucket : (t.remove key).getHashBucket k = t.getHashBucket k := rfl
  rw [get,hbucket,HashTable.remove]
  dsimp only
  split_ifs with hk
  · subst hk
    rw [Function.update_self,find?_erase_self (h _)]
    rfl
  · rcases eq_or_ne (t.getHashBucket k) (t.getHashBucket key) with hb | hb
    · rw [hb,Function.update_self,find?_erase_other hk,← hb]
      rfl
    · rw [Function.update_of_ne hb]
      rfl

theorem emplace (hk : t.get key = none) : (t.emplace key value).Distinct := by
  intro b
  rw [HashTable.emplace]
  dsimp only
  rcases eq_or_ne b (t.getHashBucket key) with rfl | hb
  · rw [Function.update_self,List.map_cons,List.nodup_cons]
    refine ⟨fun hmem => ?_,h _⟩
    obtain ⟨entry,hentry,heq⟩ := List.mem_map.mp hmem
    rw [get,Option.map_eq_none_iff,List.find?_eq_none] at hk
    exact hk entry hentry (decide_eq_true heq)
  · rw [Function.update_of_ne hb]
    exact h b

theorem remove : (t.remove key).Distinct := by
  intro b
  rw [HashTable.remove]
  dsimp only
  rcases eq_or_ne b (t.getHashBucket key) with rfl | hb
  · rw [Function.update_self]
    exact (h _).sublist (List.eraseP_sublist.map _)
  · rw [Function.update_of_ne hb]
    exact h b

end Distinct

omit [Hashed K] [DecidableEq K] in
theorem new_distinct (tableSize : UInt64) : (new tableSize : HashTable K V).Distinct :=
  fun _ => List.nodup_nil

@[simp] theorem new_get (tableSize : UInt64) (k : K) : (new tableSize : HashTable K V).get k = none := rfl

end HashTable

end SabaOS.Klib
