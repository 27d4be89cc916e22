import SabaOS.Klib.HashTable
import SabaOS.Lib.Ring

namespace SabaOS.Klib

open SabaOS.Lib

-- A link of the table: the head of a bucket, or the `hash_link` of the entry at an address.
inductive HashNode where
  | bucket (b : Nat)
  | entry (p : Nat)
deriving DecidableEq, Repr

structure LinkedTable (K V : Type) where
  links : Links HashNode
  key : Nat → K
  value : Nat → V
  tableSize : UInt64
  numStored : Nat

namespace LinkedTable

variable {K V : Type}

def initBuckets (links : Links HashNode) : Nat → Links HashNode
  | 0 => links
  | i + 1 => (initBuckets links i).init (.bucket i)

def new (links : Links HashNode) (key : Nat → K) (value : Nat → V) (tableSize : UInt64) :
    LinkedTable K V := ⟨initBuckets links tableSize.toNat,key,value,tableSize,0⟩

variable [Hashed K] [DecidableEq K]

def getHashBucket (t : LinkedTable K V) (key : K) : Nat := (Hashed.hash key % t.tableSize).toNat

def find (t : LinkedTable K V) (bucket : Nat) (key : K) : Nat → HashNode → Option (Option Nat)
  | 0,_ => none
  | _ + 1,.bucket b => if b = bucket then some none else none
  | fuel + 1,.entry p =>
    if t.key p = key then some (some p)
    else (t.links (.entry p)).next.bind (t.find bucket key fuel)

def get (t : LinkedTable K V) (key : K) : Option (Option Nat) :=
  (t.links (.bucket (t.getHashBucket key))).next.bind
    (t.find (t.getHashBucket key) key (t.numStored + 1))

-- `p` is what `new Entry` returns.
def emplace (t : LinkedTable K V) (p : Nat) (key : K) (value : V) : Option (LinkedTable K V × Nat) := do
  let links : Links HashNode := Function.update t.links (.entry p) .null
  let links ← links.add (.bucket (t.getHashBucket key)) (.entry p)
  return ({ t with
    links := links
    key := Function.update t.key p key
    value := Function.update t.value p value
    numStored := t.numStored + 1 },p)

def remove (t : LinkedTable K V) (key : K) : Option (LinkedTable K V) := do
  match ← t.get key with
  | none => return t
  | some p =>
    let links ← t.links.remove (.entry p)
    return { t with links := links, numStored := t.numStored - 1 }

def bucketHead {n : Nat} (b : Fin n) : HashNode := .bucket b

def entryNodes (entries : List (K × Nat)) : List HashNode := entries.map fun e => .entry e.2

structure Refines (t : LinkedTable K V) (h : HashTable K Nat) : Prop where
  size : t.tableSize = h.tableSize
  rings : Links.Rings t.links (@bucketHead t.tableSize.toNat) fun b => entryNodes (h.table b)
  keys : ∀ b, ∀ e ∈ h.table b, t.key e.2 = e.1 ∧ t.getHashBucket e.1 = b
  distinct : h.Distinct
  stored : ∃ keys : List K, keys.Nodup ∧ (∀ k, k ∈ keys ↔ (h.get k).isSome) ∧
    t.numStored = keys.length

variable {t t' : LinkedTable K V} {h : HashTable K Nat} {key k : K} {value : V} {p : Nat}

omit [Hashed K] in
theorem find_spec {b : Nat} (key : K) (pre : List (K × Nat)) {entries : List (K × Nat)} (fuel : Nat)
    (hf : entries.length < fuel)
    (hr : Links.Path t.links (.bucket b) (entryNodes (pre ++ entries)) (.bucket b))
    (hkeys : ∀ e ∈ entries, t.key e.2 = e.1) :
    ((entryNodes entries ++ [HashNode.bucket b]).head?).bind (t.find b key fuel) =
      some ((entries.find? fun e => e.1 = key).map (·.2)) := by
  induction entries generalizing pre fuel with
  | nil =>
    obtain ⟨fuel,rfl⟩ : ∃ m, fuel = m + 1 := ⟨fuel - 1,by omega⟩
    simp [entryNodes,find]
  | cons e entries ih =>
    obtain ⟨fuel,rfl⟩ : ∃ m, fuel = m + 1 := ⟨fuel - 1,by omega⟩
    have hkey := hkeys e List.mem_cons_self
    simp only [entryNodes,List.map_cons,List.cons_append,List.head?_cons,Option.bind_some,find,hkey]
    by_cases heq : e.1 = key
    · simp [heq]
    · have hpath := hr
      rw [entryNodes,List.map_append,List.map_cons] at hpath
      have hnext := (Links.Path.append_iff.mp hpath).2.next_eq
      rw [if_neg heq,hnext,List.find?_cons_of_neg (by simpa using heq)]
      simp only [List.length_cons] at hf
      refine ih (pre ++ [e]) fuel (by omega) ?_ fun d hd => hkeys d (List.mem_cons_of_mem _ hd)
      simpa using hr

namespace Refines

variable (hr : Refines t h)

include hr

theorem bucket_eq (k : K) : t.getHashBucket k = h.getHashBucket k := by
  rw [LinkedTable.getHashBucket,HashTable.getHashBucket,hr.size]

theorem get_mem {b : Nat} {e : K × Nat} (he : e ∈ h.table b) : h.get e.1 = some e.2 := by
  have hb := (hr.keys b e he).2
  rw [hr.bucket_eq] at hb
  rw [HashTable.get,hb,Option.map_eq_some_iff]
  refine ⟨e,?_,rfl⟩
  obtain ⟨d,hd⟩ : ∃ d, (h.table b).find? (fun d => d.1 = e.1) = some d := by
    rw [← Option.isSome_iff_exists,List.find?_isSome]
    exact ⟨e,he,by simp⟩
  have hkey : d.1 = e.1 := by simpa using List.find?_some hd
  rw [hd,List.inj_on_of_nodup_map (hr.distinct b) (List.mem_of_find?_eq_some hd) he hkey]

theorem bucket_length_le (b : Nat) : (h.table b).length ≤ t.numStored := by
  obtain ⟨keys,-,hmem,hlen⟩ := hr.stored
  have hsub : (h.table b).map Prod.fst ⊆ keys := by
    intro k hk
    obtain ⟨e,he,rfl⟩ := List.mem_map.mp hk
    rw [hmem,hr.get_mem he]
    rfl
  rw [hlen,← List.length_map (f := Prod.fst)]
  exact (List.subperm_of_subset (hr.distinct b) hsub).length_le

omit hr [DecidableEq K] in
theorem bucket_lt (hpos : t.tableSize ≠ 0) (k : K) : t.getHashBucket k < t.tableSize.toNat := by
  rw [LinkedTable.getHashBucket,UInt64.toNat_mod]
  refine Nat.mod_lt _ (Nat.pos_of_ne_zero fun h0 => hpos ?_)
  exact UInt64.toNat_inj.mp h0

theorem get_spec (hpos : t.tableSize ≠ 0) (k : K) : t.get k = some (h.get k) := by
  have hpath : Links.Path t.links (.bucket (t.getHashBucket k))
      (entryNodes (h.table (t.getHashBucket k))) (.bucket (t.getHashBucket k)) :=
    (hr.rings.ring ⟨t.getHashBucket k,bucket_lt hpos k⟩).path
  have hfind := find_spec k [] (t.numStored + 1)
    (Nat.lt_succ_of_le (hr.bucket_length_le (t.getHashBucket k))) hpath
    fun e he => (hr.keys _ e he).1
  rw [LinkedTable.get,HashTable.get,← hr.bucket_eq,← hfind,hpath.next_eq]

theorem fresh_off (hp : ∀ k, h.get k ≠ some p) (j : Fin t.tableSize.toNat) :
    HashNode.entry p ∉ bucketHead j :: entryNodes (h.table j) := by
  rw [List.mem_cons,not_or]
  refine ⟨nofun,fun hm => ?_⟩
  obtain ⟨e,he,heq⟩ := List.mem_map.mp hm
  cases heq
  exact hp e.1 (hr.get_mem he)

theorem emplace_spec (value : V) (hpos : t.tableSize ≠ 0) (hk : h.get key = none) (hp : ∀ k, h.get k ≠ some p) :
    ∃ t', t.emplace p key value = some (t',p) ∧ Refines t' (h.emplace key p) ∧
      t'.tableSize = t.tableSize ∧ t'.value = Function.update t.value p value := by
  have hoff := hr.fresh_off hp
  obtain ⟨links,hadd,hrings⟩ :=
    (hr.rings.update hoff .null).add ⟨t.getHashBucket key,bucket_lt hpos key⟩ hoff
  have hother : ∀ b, ∀ e ∈ h.table b, e.2 ≠ p := by
    rintro b e he rfl
    exact hp e.1 (hr.get_mem he)
  have htable : ∀ b, (h.emplace key p).table b =
      if b = t.getHashBucket key then (key,p) :: h.table b else h.table b := by
    intro b
    rw [HashTable.emplace,← hr.bucket_eq]
    by_cases hb : b = t.getHashBucket key
    · simp [hb]
    · simp [hb]
  refine ⟨{ t with
    links := links
    key := Function.update t.key p key
    value := Function.update t.value p value
    numStored := t.numStored + 1 },?_,⟨hr.size,?_,?_,hr.distinct.emplace hk,?_⟩,rfl,rfl⟩
  · simp only [LinkedTable.emplace]
    rw [show Links.add _ (HashNode.bucket (t.getHashBucket key)) (.entry p) = some links from hadd]
    rfl
  · convert hrings using 1
    funext b
    rw [htable]
    by_cases hb : b = ⟨t.getHashBucket key,bucket_lt hpos key⟩
    · subst hb
      rw [if_pos rfl,Function.update_self]
      rfl
    · rw [if_neg (fun heq => hb (Fin.ext heq)),Function.update_of_ne hb]
  · intro b e he
    rw [htable] at he
    split_ifs at he with hb
    · rcases List.mem_cons.mp he with rfl | he
      · exact ⟨Function.update_self _ _ _,hb.symm⟩
      · dsimp only
        rw [Function.update_of_ne (hother b e he)]
        exact hr.keys b e he
    · dsimp only
      rw [Function.update_of_ne (hother b e he)]
      exact hr.keys b e he
  · obtain ⟨keys,hnodup,hmem,hlen⟩ := hr.stored
    refine ⟨key :: keys,List.nodup_cons.mpr ⟨?_,hnodup⟩,fun k => ?_,by simp [hlen]⟩
    · rw [hmem,hk]
      exact Bool.false_ne_true
    · rw [HashTable.get_emplace,List.mem_cons,hmem]
      split_ifs with heq
      · simp [heq]
      · simp [heq]

theorem remove_spec (hpos : t.tableSize ≠ 0) (key : K) :
    ∃ t', t.remove key = some t' ∧ Refines t' (h.remove key) ∧ t'.tableSize = t.tableSize ∧
      t'.value = t.value := by
  have hget := hr.get_spec hpos key
  have htable : ∀ b, (h.remove key).table b =
      if b = t.getHashBucket key then (h.table b).eraseP (fun e => e.1 = key) else h.table b := by
    intro b
    rw [HashTable.remove,← hr.bucket_eq]
    by_cases hb : b = t.getHashBucket key
    · simp [hb]
    · simp [hb]
  have hsub : ∀ b, ∀ e ∈ (h.remove key).table b, e ∈ h.table b := by
    intro b e he
    rw [htable] at he
    split_ifs at he
    · exact List.mem_of_mem_eraseP he
    · exact he
  have hfind : h.get key = ((h.table (t.getHashBucket key)).find? fun e => e.1 = key).map (·.2) := by
    rw [HashTable.get,← hr.bucket_eq]
  cases hsome : (h.table (t.getHashBucket key)).find? fun e => e.1 = key with
  | none =>
    have hnone := List.find?_eq_none.mp hsome
    have hsame : (h.remove key).table = h.table := by
      funext b
      rw [htable]
      split_ifs with hb
      · subst hb
        exact List.eraseP_of_forall_not hnone
      · rfl
    have hremove : h.remove key = h := by
      calc h.remove key = { h with table := (h.remove key).table } := rfl
        _ = h := by rw [hsame]
    rw [hsome] at hfind
    rw [hremove]
    refine ⟨t,?_,hr,rfl,rfl⟩
    simp [LinkedTable.remove,hget,hfind]
  | some e =>
    obtain ⟨hkey,ys,zs,hsplit,hys⟩ := List.find?_eq_some_iff_append.mp hsome
    obtain rfl : e.1 = key := by simpa using hkey
    rw [hsome] at hfind
    have hx : (fun b : Fin t.tableSize.toNat => entryNodes (h.table b))
        ⟨t.getHashBucket e.1,bucket_lt hpos e.1⟩ =
          entryNodes ys ++ HashNode.entry e.2 :: entryNodes zs := by
      simp [hsplit,entryNodes]
    obtain ⟨links,hremove,hrings⟩ := hr.rings.remove hx
    refine ⟨{ t with links := links, numStored := t.numStored - 1 },?_,
      ⟨hr.size,?_,fun b d hd => hr.keys b d (hsub b d hd),hr.distinct.remove,?_⟩,rfl,rfl⟩
    · simp [LinkedTable.remove,hget,hfind,hremove]
    · convert hrings using 1
      funext b
      rw [htable]
      by_cases hb : b = ⟨t.getHashBucket e.1,bucket_lt hpos e.1⟩
      · subst hb
        rw [if_pos rfl,Function.update_self]
        dsimp only
        rw [hsplit,List.eraseP_append_right _ fun d hd => by simpa using hys d hd,
          List.eraseP_cons_of_pos (by simp)]
        simp [entryNodes]
      · rw [if_neg (fun heq => hb (Fin.ext heq)),Function.update_of_ne hb]
    · obtain ⟨keys,hnodup,hmem,hlen⟩ := hr.stored
      have hin : e.1 ∈ keys := by
        rw [hmem,hfind]
        rfl
      refine ⟨keys.erase e.1,hnodup.erase e.1,fun k => ?_,by rw [List.length_erase_of_mem hin,hlen]⟩
      rw [hr.distinct.get_remove,hnodup.mem_erase_iff,hmem]
      split_ifs with heq
      · simp [heq]
      · simp [heq]

end Refines

theorem initBuckets_at {links : Links HashNode} {n b : Nat} (hb : b < n) :
    initBuckets links n (.bucket b) = ⟨some (.bucket b),some (.bucket b)⟩ := by
  induction n with
  | zero => omega
  | succ n ih =>
    rw [initBuckets,Links.init]
    by_cases heq : b = n
    · rw [heq,Function.update_self]
    · rw [Function.update_of_ne (by simpa using heq)]
      exact ih (by omega)

theorem new_refines (links : Links HashNode) (keys : Nat → K) (values : Nat → V) (tableSize : UInt64) :
    Refines (new links keys values tableSize) (HashTable.new tableSize) where
  size := rfl
  rings := by
    refine ⟨fun b => ⟨?_,by simp [entryNodes,HashTable.new]⟩,?_,?_,?_⟩
    · have hat : (new links keys values tableSize).links (bucketHead b) = _ := initBuckets_at b.isLt
      exact ⟨by rw [hat]; rfl,by rw [hat]; rfl⟩
    · exact fun i j heq => Fin.ext (by simpa [bucketHead] using heq)
    · simp [entryNodes,HashTable.new]
    · simp [entryNodes,HashTable.new]
  keys := nofun
  distinct := HashTable.new_distinct tableSize
  stored := ⟨[],List.nodup_nil,by simp,rfl⟩

end LinkedTable

inductive TableOp (K V : Type) where
  | emplace (p : Nat) (key : K) (value : V)
  | remove (key : K)
  | get (key : K)

abbrev Places (K V : Type) := K → Option (Nat × V)

namespace Places

variable {K V : Type} [DecidableEq K]

def step (m : Places K V) : TableOp K V → Places K V × Option Nat
  | .emplace p key value => (Function.update m key (some (p,value)),some p)
  | .remove key => (Function.update m key none,none)
  | .get key => (m,(m key).map (·.1))

def run (m : Places K V) : List (TableOp K V) → Places K V × List (Option Nat)
  | [] => (m,[])
  | op :: ops => ((run (m.step op).1 ops).1,(m.step op).2 :: (run (m.step op).1 ops).2)

def Allows (m : Places K V) : TableOp K V → Prop
  | .emplace p key _ => m key = none ∧ ∀ k v, m k ≠ some (p,v)
  | _ => True

def AllowsAll (m : Places K V) : List (TableOp K V) → Prop
  | [] => True
  | op :: ops => m.Allows op ∧ AllowsAll (m.step op).1 ops

end Places

namespace LinkedTable

variable {K V : Type} [Hashed K] [DecidableEq K] {t : LinkedTable K V} {m : Places K V}

def step (t : LinkedTable K V) : TableOp K V → Option (LinkedTable K V × Option Nat)
  | .emplace p key value => (t.emplace p key value).map fun r => (r.1,some r.2)
  | .remove key => (t.remove key).map fun t => (t,none)
  | .get key => (t.get key).map fun found => (t,found)

def run (t : LinkedTable K V) : List (TableOp K V) → Option (LinkedTable K V × List (Option Nat))
  | [] => some (t,[])
  | op :: ops => (t.step op).bind fun r => (r.1.run ops).map fun s => (s.1,r.2 :: s.2)

structure Holds (t : LinkedTable K V) (m : Places K V) : Prop where
  size : t.tableSize ≠ 0
  refines : ∃ h, Refines t h ∧ ∀ k, h.get k = (m k).map (·.1)
  value : ∀ k p v, m k = some (p,v) → t.value p = v

theorem Holds.get (h : Holds t m) (k : K) : t.get k = some ((m k).map (·.1)) := by
  obtain ⟨table,hr,hget⟩ := h.refines
  rw [hr.get_spec h.size,hget]

theorem Holds.numStored (h : Holds t m) : ∃ keys : List K, keys.Nodup ∧
    (∀ k, k ∈ keys ↔ (m k).isSome) ∧ t.numStored = keys.length := by
  obtain ⟨table,hr,hget⟩ := h.refines
  obtain ⟨keys,hnodup,hmem,hlen⟩ := hr.stored
  refine ⟨keys,hnodup,fun k => ?_,hlen⟩
  rw [hmem,hget,Option.isSome_map]

theorem Holds.step (h : Holds t m) {op : TableOp K V} (hop : m.Allows op) :
    ∃ t', t.step op = some (t',(m.step op).2) ∧ Holds t' (m.step op).1 := by
  obtain ⟨table,hr,hget⟩ := h.refines
  cases op with
  | emplace p key value =>
    obtain ⟨hkey,hp⟩ := hop
    have hfresh : ∀ k, table.get k ≠ some p := by
      intro k hk
      rw [hget,Option.map_eq_some_iff] at hk
      obtain ⟨⟨q,v⟩,hk,rfl⟩ := hk
      exact hp k v hk
    obtain ⟨t',hstep,hr',hsize,hvalue⟩ :=
      hr.emplace_spec value h.size (by rw [hget,hkey]; rfl) hfresh
    refine ⟨t',by rw [LinkedTable.step,hstep]; rfl,hsize ▸ h.size,⟨_,hr',fun k => ?_⟩,fun k q v hk => ?_⟩
    · rw [HashTable.get_emplace,hget]
      by_cases heq : k = key
      · simp [heq,Places.step]
      · simp [heq,Places.step]
    · rw [hvalue]
      by_cases heq : k = key
      · simp only [Places.step,heq,Function.update_self,Option.some.injEq,Prod.mk.injEq] at hk
        rw [← hk.1,Function.update_self,hk.2]
      · simp only [Places.step,Function.update_of_ne heq] at hk
        have hq : q ≠ p := by
          rintro rfl
          exact hp k v hk
        rw [Function.update_of_ne hq]
        exact h.value k q v hk
  | remove key =>
    obtain ⟨t',hstep,hr',hsize,hvalue⟩ := hr.remove_spec h.size key
    refine ⟨t',by rw [LinkedTable.step,hstep]; rfl,hsize ▸ h.size,⟨_,hr',fun k => ?_⟩,fun k q v hk => ?_⟩
    · rw [hr.distinct.get_remove,hget]
      by_cases heq : k = key
      · simp [heq,Places.step]
      · simp [heq,Places.step]
    · rw [hvalue]
      by_cases heq : k = key
      · simp [Places.step,heq] at hk
      · simp only [Places.step,Function.update_of_ne heq] at hk
        exact h.value k q v hk
  | get key => exact ⟨t,by rw [LinkedTable.step,h.get]; rfl,h⟩

theorem Holds.run (h : Holds t m) {ops : List (TableOp K V)} (hops : m.AllowsAll ops) :
    ∃ t', t.run ops = some (t',(m.run ops).2) ∧ Holds t' (m.run ops).1 := by
  induction ops generalizing t m with
  | nil => exact ⟨t,rfl,h⟩
  | cons op ops ih =>
    obtain ⟨t₁,hstep,h₁⟩ := h.step hops.1
    obtain ⟨t₂,hrun,h₂⟩ := ih h₁ hops.2
    refine ⟨t₂,?_,h₂⟩
    rw [LinkedTable.run,hstep,Option.bind_some,hrun]
    rfl

theorem hash_table_is_map (links : Links HashNode) (keys : Nat → K) (values : Nat → V)
    (tableSize : UInt64) (hsize : tableSize ≠ 0) (ops : List (TableOp K V))
    (hops : Places.AllowsAll (fun _ => none) ops) :
    ∃ t, (new links keys values tableSize).run ops =
        some (t,(Places.run (fun _ => none) ops).2) ∧
      (∀ k, t.get k = some ((Places.run (fun _ => none) ops).1 k |>.map (·.1))) ∧
      (∀ k p v, (Places.run (fun _ => none) ops).1 k = some (p,v) → t.value p = v) ∧
      ∃ stored : List K, stored.Nodup ∧
        (∀ k, k ∈ stored ↔ ((Places.run (fun _ => none) ops).1 k).isSome) ∧
        t.numStored = stored.length := by
  have hnew : Holds (new links keys values tableSize) (fun _ => none) :=
    ⟨hsize,⟨_,new_refines links keys values tableSize,fun k => HashTable.new_get tableSize k⟩,nofun⟩
  obtain ⟨t,hrun,h⟩ := hnew.run hops
  exact ⟨t,hrun,h.get,h.value,h.numStored⟩

def collided : List (TableOp UInt64 Nat) :=
  [.emplace 0 5 50,.emplace 1 6 60,.get 5,.remove 5,.get 5,.get 6]

theorem collided_allowed : Places.AllowsAll (fun _ => none) collided := by
  refine ⟨⟨rfl,nofun⟩,⟨rfl,fun k v => ?_⟩,trivial,trivial,trivial,trivial,trivial⟩
  by_cases hk : k = 5
  · simp [Places.step,hk]
  · simp [Places.step,hk]

theorem hash_table_is_map_collided : ∃ t,
    (new (fun _ => .null) (fun _ => 0) (fun _ => 0) 1 : LinkedTable UInt64 Nat).run collided =
      some (t,[some 0,some 1,some 0,none,none,some 1]) := by
  obtain ⟨t,hrun,-⟩ := hash_table_is_map (fun _ => .null) (fun _ => (0 : UInt64)) (fun _ => 0) 1
    (by decide) collided collided_allowed
  have hreplies : (Places.run (fun _ => none) collided).2 =
      [some 0,some 1,some 0,none,none,some 1] := by decide
  exact ⟨t,hreplies ▸ hrun⟩

end LinkedTable

end SabaOS.Klib
