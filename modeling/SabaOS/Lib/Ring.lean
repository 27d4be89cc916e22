import Mathlib.Data.List.Nodup
import Mathlib.Logic.Function.Basic

namespace SabaOS.Lib

structure ListHead (α : Type) where
  next : Option α
  prev : Option α
deriving DecidableEq, Repr

def ListHead.null {α : Type} : ListHead α := ⟨none,none⟩

abbrev Links (α : Type) := α → ListHead α

namespace Links

variable {α : Type} [DecidableEq α]

def setNext (l : Links α) (a : α) (b : Option α) : Links α :=
  Function.update l a { l a with next := b }

def setPrev (l : Links α) (a : α) (b : Option α) : Links α :=
  Function.update l a { l a with prev := b }

def init (l : Links α) (a : α) : Links α := Function.update l a ⟨some a,some a⟩

def add (l : Links α) (this entry : α) : Option (Links α) := do
  let n ← (l this).next
  let l := l.setPrev n (some entry)
  let l := l.setNext entry (l this).next
  let l := l.setPrev entry (some this)
  return l.setNext this (some entry)

def addBefore (l : Links α) (this entry : α) : Option (Links α) := do
  let p ← (l this).prev
  let l := l.setNext p (some entry)
  let l := l.setPrev entry (l this).prev
  let l := l.setNext entry (some this)
  return l.setPrev this (some entry)

def remove (l : Links α) (this : α) : Option (Links α) := do
  let n ← (l this).next
  let l := l.setPrev n (l this).prev
  let p ← (l this).prev
  let l := l.setNext p (l this).next
  return Function.update l this .null

def isEmpty (l : Links α) (a : α) : Bool := (l a).next = some a

def findFrom (l : Links α) (h : α) (p : α → Bool) : Nat → α → Option α
  | 0,_ => none
  | fuel + 1,a => if a = h ∨ p a then some a else (l a).next.bind (l.findFrom h p fuel)

def find (l : Links α) (h : α) (p : α → Bool) (fuel : Nat) : Option α :=
  (l h).next.bind (l.findFrom h p fuel)

def collectFrom (l : Links α) (h : α) : Nat → α → Option (List α)
  | 0,_ => none
  | fuel + 1,a => if a = h then some [] else do
    let n ← (l a).next
    let rest ← l.collectFrom h fuel n
    return a :: rest

def collect (l : Links α) (h : α) (fuel : Nat) : Option (List α) :=
  (l h).next.bind (l.collectFrom h fuel)

@[simp] theorem setNext_prev (l : Links α) (a c : α) (b : Option α) :
    (l.setNext a b c).prev = (l c).prev := by
  by_cases h : c = a
  · simp [setNext,h]
  · simp [setNext,Function.update_of_ne h]

@[simp] theorem setPrev_next (l : Links α) (a c : α) (b : Option α) :
    (l.setPrev a b c).next = (l c).next := by
  by_cases h : c = a
  · simp [setPrev,h]
  · simp [setPrev,Function.update_of_ne h]

theorem setNext_next (l : Links α) (a c : α) (b : Option α) :
    (l.setNext a b c).next = if c = a then b else (l c).next := by
  by_cases h : c = a
  · simp [setNext,h]
  · simp [setNext,h]

theorem setPrev_prev (l : Links α) (a c : α) (b : Option α) :
    (l.setPrev a b c).prev = if c = a then b else (l c).prev := by
  by_cases h : c = a
  · simp [setPrev,h]
  · simp [setPrev,h]

theorem addBefore_next {l l' : Links α} {h e p : α} (hp : (l h).prev = some p)
    (h' : l.addBefore h e = some l') (c : α) :
    (l' c).next = if c = e then some h else if c = p then some e else (l c).next := by
  simp only [addBefore,hp,Option.bind_eq_bind,Option.bind_some,Option.pure_def,
    Option.some.injEq] at h'
  subst h'
  simp [setNext_next]

theorem addBefore_prev {l l' : Links α} {h e p : α} (hp : (l h).prev = some p)
    (h' : l.addBefore h e = some l') (c : α) :
    (l' c).prev = if c = h then some e else if c = e then some p else (l c).prev := by
  simp only [addBefore,hp,Option.bind_eq_bind,Option.bind_some,Option.pure_def,
    Option.some.injEq] at h'
  subst h'
  simp [setPrev_prev,hp]

theorem remove_eq {l : Links α} {a n p : α} (hn : (l a).next = some n) (hp : (l a).prev = some p) :
    l.remove a = some (Function.update ((l.setPrev n (some p)).setNext p (some n)) a .null) := by
  have hp' : (l.setPrev n (some p) a).prev = some p := by
    rw [setPrev_prev]
    split_ifs
    · rfl
    · exact hp
  simp [remove,hn,hp,hp']

theorem remove_next {l l' : Links α} {a n p : α} (hn : (l a).next = some n)
    (hp : (l a).prev = some p) (h' : l.remove a = some l') (c : α) :
    (l' c).next = if c = a then none else if c = p then some n else (l c).next := by
  rw [remove_eq hn hp,Option.some.injEq] at h'
  subst h'
  by_cases hc : c = a
  · simp [hc,ListHead.null]
  · simp [hc,setNext_next]

theorem remove_prev {l l' : Links α} {a n p : α} (hn : (l a).next = some n)
    (hp : (l a).prev = some p) (h' : l.remove a = some l') (c : α) :
    (l' c).prev = if c = a then none else if c = n then some p else (l c).prev := by
  rw [remove_eq hn hp,Option.some.injEq] at h'
  subst h'
  by_cases hc : c = a
  · simp [hc,ListHead.null]
  · simp [hc,setPrev_prev]

def Joined (l : Links α) (a b : α) : Prop := (l a).next = some b ∧ (l b).prev = some a

def Path (l : Links α) : α → List α → α → Prop
  | a, [], b => Joined l a b
  | a, x :: xs, b => Joined l a x ∧ Path l x xs b

omit [DecidableEq α] in
theorem Path.append_iff {l : Links α} {a b x : α} {xs ys : List α} :
    Path l a (xs ++ x :: ys) b ↔ Path l a xs x ∧ Path l x ys b := by
  induction xs generalizing a with
  | nil => simp [Path]
  | cons y xs ih => simp [Path,ih,and_assoc]

omit [DecidableEq α] in
theorem Path.congr {l l' : Links α} {a b : α} {xs : List α} (hp : Path l a xs b)
    (hnext : ∀ x ∈ a :: xs, (l' x).next = (l x).next)
    (hprev : ∀ x ∈ xs ++ [b], (l' x).prev = (l x).prev) : Path l' a xs b := by
  induction xs generalizing a with
  | nil =>
    obtain ⟨h1,h2⟩ := hp
    exact ⟨(hnext a (by simp)).trans h1,(hprev b (by simp)).trans h2⟩
  | cons x xs ih =>
    obtain ⟨⟨h1,h2⟩,hr⟩ := hp
    refine ⟨⟨(hnext a (by simp)).trans h1,(hprev x (by simp)).trans h2⟩,ih hr ?_ ?_⟩
    · intro y hy
      exact hnext y (List.mem_cons_of_mem _ hy)
    · intro y hy
      exact hprev y (List.mem_cons_of_mem _ hy)

omit [DecidableEq α] in
theorem Path.next_mem {l : Links α} {a b : α} {xs : List α} (hp : Path l a xs b) :
    ∃ n ∈ xs ++ [b], (l a).next = some n := by
  cases xs with
  | nil => exact ⟨b,by simp,hp.1⟩
  | cons x xs => exact ⟨x,by simp,hp.1.1⟩

omit [DecidableEq α] in
theorem Path.next_eq {l : Links α} {a b : α} {xs : List α} (hp : Path l a xs b) :
    (l a).next = (xs ++ [b]).head? := by
  cases xs with
  | nil => exact hp.1
  | cons x xs => exact hp.1.1

omit [DecidableEq α] in
theorem Path.prev_mem {l : Links α} {a b : α} {xs : List α} (hp : Path l a xs b) :
    ∃ p ∈ a :: xs, (l b).prev = some p := by
  induction xs generalizing a with
  | nil => exact ⟨a,by simp,hp.2⟩
  | cons x xs ih =>
    obtain ⟨p,hm,h⟩ := ih hp.2
    exact ⟨p,List.mem_cons_of_mem _ hm,h⟩

omit [DecidableEq α] in
theorem Path.retarget {l l' : Links α} {a b c p : α} {xs : List α} (hp : Path l a xs b)
    (hb : (l b).prev = some p) (hnd : (a :: xs).Nodup) (hj : Joined l' p c)
    (hnext : ∀ x ∈ a :: xs, x ≠ p → (l' x).next = (l x).next)
    (hprev : ∀ x ∈ xs, (l' x).prev = (l x).prev) : Path l' a xs c := by
  induction xs generalizing a with
  | nil =>
    obtain rfl : a = p := Option.some.inj (hp.2.symm.trans hb)
    exact hj
  | cons x xs ih =>
    obtain ⟨⟨h1,h2⟩,hr⟩ := hp
    obtain ⟨hnot,hnd⟩ := List.nodup_cons.mp hnd
    have hap : a ≠ p := by
      rintro rfl
      obtain ⟨q,hq,hbq⟩ := hr.prev_mem
      obtain rfl : q = a := Option.some.inj (hbq.symm.trans hb)
      exact hnot hq
    refine ⟨⟨(hnext a (by simp) hap).trans h1,(hprev x (by simp)).trans h2⟩,ih hr hnd ?_ ?_⟩
    · intro y hy
      exact hnext y (List.mem_cons_of_mem _ hy)
    · intro y hy
      exact hprev y (List.mem_cons_of_mem _ hy)

omit [DecidableEq α] in
theorem eq_of_fields {l l' : Links α} {a : α} (hn : (l' a).next = (l a).next)
    (hp : (l' a).prev = (l a).prev) : l' a = l a := by
  cases h : l' a
  cases h' : l a
  simp_all

omit [DecidableEq α] in
theorem Path.unique {l : Links α} {a b : α} {xs ys : List α} (hx : Path l a xs b)
    (hy : Path l a ys b) (hbx : b ∉ xs) (hby : b ∉ ys) : xs = ys := by
  induction xs generalizing a ys with
  | nil =>
    cases ys with
    | nil => rfl
    | cons y ys =>
      have heq : b = y := Option.some.inj (hx.1.symm.trans hy.1.1)
      exact absurd heq (List.ne_of_not_mem_cons hby)
  | cons x xs ih =>
    cases ys with
    | nil =>
      have heq : x = b := Option.some.inj (hx.1.1.symm.trans hy.1)
      exact absurd heq.symm (List.ne_of_not_mem_cons hbx)
    | cons y ys =>
      obtain rfl : x = y := Option.some.inj (hx.1.1.symm.trans hy.1.1)
      rw [ih hx.2 hy.2 (List.not_mem_of_not_mem_cons hbx) (List.not_mem_of_not_mem_cons hby)]

structure Ring (l : Links α) (h : α) (xs : List α) : Prop where
  path : Path l h xs h
  nodup : (h :: xs).Nodup

namespace Ring

omit [DecidableEq α] in
theorem congr {l l' : Links α} {h : α} {xs : List α} (hr : Ring l h xs)
    (he : ∀ a ∈ h :: xs, l' a = l a) : Ring l' h xs := by
  refine ⟨hr.path.congr ?_ ?_,hr.nodup⟩
  · intro x hx
    rw [he x hx]
  · intro x hx
    rw [he x (by simpa [or_comm] using hx)]

omit [DecidableEq α] in
theorem next_mem {l : Links α} {h a : α} {xs : List α} (hr : Ring l h xs) (ha : a ∈ h :: xs) :
    ∃ b ∈ h :: xs, (l a).next = some b := by
  have hswap : ∀ ys : List α, (∀ y ∈ ys, y ∈ xs) → ∀ b ∈ ys ++ [h], b ∈ h :: xs := by
    intro ys hys b hb
    rcases List.mem_append.mp hb with hy | hh
    · exact List.mem_cons_of_mem _ (hys b hy)
    · simp [List.mem_singleton.mp hh]
  rcases List.mem_cons.mp ha with rfl | hx
  · obtain ⟨b,hb,h⟩ := hr.path.next_mem
    exact ⟨b,hswap xs (fun _ h => h) b hb,h⟩
  · obtain ⟨ys,zs,rfl⟩ := List.append_of_mem hx
    obtain ⟨b,hb,h⟩ := (Path.append_iff.mp hr.path).2.next_mem
    exact ⟨b,hswap zs (fun y hy => by simp [hy]) b hb,h⟩

omit [DecidableEq α] in
theorem prev_joined {l : Links α} {h a : α} {xs : List α} (hr : Ring l h xs) (ha : a ∈ xs) :
    ∃ p, Joined l p a := by
  obtain ⟨ys,zs,rfl⟩ := List.append_of_mem ha
  have hp := (Path.append_iff.mp hr.path).1
  rcases List.eq_nil_or_concat ys with rfl | ⟨ws,p,rfl⟩
  · exact ⟨h,hp⟩
  · rw [List.concat_eq_append] at hp
    exact ⟨p,(Path.append_iff.mp hp).2⟩

omit [DecidableEq α] in
theorem unique {l : Links α} {h : α} {xs ys : List α} (hx : Ring l h xs) (hy : Ring l h ys) :
    xs = ys :=
  hx.path.unique hy.path (List.nodup_cons.mp hx.nodup).1 (List.nodup_cons.mp hy.nodup).1

theorem findFrom_path {l : Links α} {h a x : α} {xs : List α} {p : α → Bool} {fuel : Nat}
    (hp : Path l x xs h) (hn : (l x).next = some a) (hh : h ∉ xs) (hf : xs.length < fuel) :
    l.findFrom h p fuel a = some ((xs.find? p).getD h) := by
  induction xs generalizing x a fuel with
  | nil =>
    obtain ⟨fuel,rfl⟩ : ∃ k, fuel = k + 1 := ⟨fuel - 1,by simp only [List.length_nil] at hf; omega⟩
    obtain rfl : h = a := Option.some.inj (hp.1.symm.trans hn)
    simp [findFrom]
  | cons y ys ih =>
    rw [List.length_cons] at hf
    obtain ⟨fuel,rfl⟩ : ∃ k, fuel = k + 1 := ⟨fuel - 1,by omega⟩
    obtain ⟨hj,hp⟩ := hp
    obtain rfl : y = a := Option.some.inj (hj.1.symm.trans hn)
    rw [List.mem_cons,not_or] at hh
    rw [findFrom]
    by_cases hy : p y = true
    · rw [if_pos (.inr hy),List.find?_cons_of_pos hy]
      rfl
    · rw [if_neg (by simp [Ne.symm hh.1,hy]),List.find?_cons_of_neg hy]
      obtain ⟨b,-,hb⟩ := hp.next_mem
      rw [hb,Option.bind_some]
      exact ih hp hb hh.2 (by omega)

theorem find_eq {l : Links α} {h : α} {xs : List α} (hr : Ring l h xs) (p : α → Bool) {fuel : Nat}
    (hf : xs.length < fuel) : l.find h p fuel = some ((xs.find? p).getD h) := by
  obtain ⟨a,-,ha⟩ := hr.path.next_mem
  rw [find,ha,Option.bind_some]
  exact findFrom_path hr.path ha (List.nodup_cons.mp hr.nodup).1 hf

theorem collectFrom_path {l : Links α} {h a x : α} {xs : List α} {fuel : Nat}
    (hp : Path l x xs h) (hn : (l x).next = some a) (hh : h ∉ xs) (hf : xs.length < fuel) :
    l.collectFrom h fuel a = some xs := by
  induction xs generalizing x a fuel with
  | nil =>
    obtain ⟨fuel,rfl⟩ : ∃ k, fuel = k + 1 := ⟨fuel - 1,by simp only [List.length_nil] at hf; omega⟩
    obtain rfl : h = a := Option.some.inj (hp.1.symm.trans hn)
    simp [collectFrom]
  | cons y ys ih =>
    rw [List.length_cons] at hf
    obtain ⟨fuel,rfl⟩ : ∃ k, fuel = k + 1 := ⟨fuel - 1,by omega⟩
    obtain ⟨hj,hp⟩ := hp
    obtain rfl : y = a := Option.some.inj (hj.1.symm.trans hn)
    rw [List.mem_cons,not_or] at hh
    obtain ⟨b,-,hb⟩ := hp.next_mem
    rw [collectFrom,if_neg (Ne.symm hh.1),hb,Option.bind_eq_bind,Option.bind_some,
      ih hp hb hh.2 (by omega)]
    rfl

theorem collect_eq {l : Links α} {h : α} {xs : List α} (hr : Ring l h xs) {fuel : Nat}
    (hf : xs.length < fuel) : l.collect h fuel = some xs := by
  obtain ⟨a,-,ha⟩ := hr.path.next_mem
  rw [collect,ha,Option.bind_some]
  exact collectFrom_path hr.path ha (List.nodup_cons.mp hr.nodup).1 hf

theorem nil_init (l : Links α) (h : α) : Ring (l.init h) h [] :=
  ⟨by simp [Path,Joined,init],by simp⟩

theorem init_eq {l : Links α} {h : α} (hr : Ring l h []) : l.init h = l := by
  have hself : (⟨some h,some h⟩ : ListHead α) = l h := by
    obtain ⟨hn,hp⟩ : Joined l h h := hr.path
    rcases hl : l h with ⟨n,p⟩
    simp only [hl] at hn hp
    rw [hn,hp]
  rw [init,hself,Function.update_eq_self]

theorem addBefore {l : Links α} {h e : α} {xs : List α} (hr : Ring l h xs) (he : e ∉ h :: xs) :
    ∃ l', l.addBefore h e = some l' ∧ Ring l' h (xs ++ [e]) ∧
      ∀ a, a ∉ e :: h :: xs → l' a = l a := by
  obtain ⟨p,hpm,hp⟩ := hr.path.prev_mem
  have heh : e ≠ h := fun hc => he (by simp [hc])
  have hpe : p ≠ e := fun hc => he (hc ▸ hpm)
  obtain ⟨l',hl⟩ : ∃ l', l.addBefore h e = some l' := by simp [Links.addBefore,hp]
  have hnext := addBefore_next hp hl
  have hprev := addBefore_prev hp hl
  have hmid : Joined l' p e := ⟨by simp [hnext,hpe],by simp [hprev,heh]⟩
  have hend : Joined l' e h := ⟨by simp [hnext],by simp [hprev]⟩
  have hxe : ∀ x ∈ h :: xs, x ≠ e := fun x hx hc => he (hc ▸ hx)
  refine ⟨l',hl,⟨Path.append_iff.mpr ⟨hr.path.retarget hp hr.nodup hmid ?_ ?_,hend⟩,?_⟩,?_⟩
  · intro x hx hxp
    simp [hnext,hxe x hx,hxp]
  · intro x hx
    have hxh : x ≠ h := fun hc => (List.nodup_cons.mp hr.nodup).1 (hc ▸ hx)
    simp [hprev,hxe x (List.mem_cons_of_mem _ hx),hxh]
  · rw [← List.cons_append]
    refine List.nodup_append.mpr ⟨hr.nodup,by simp,?_⟩
    intro a ha b hb
    rw [List.mem_singleton.mp hb]
    exact hxe a ha
  · intro a ha
    simp only [List.mem_cons,not_or] at ha
    have hap : a ≠ p := by
      rintro rfl
      exact (List.not_mem_cons_of_ne_of_not_mem ha.2.1 ha.2.2) hpm
    exact eq_of_fields (by simp [hnext,ha.1,hap]) (by simp [hprev,ha.1,ha.2.1])

theorem addBefore_all {l : Links α} {h : α} {xs es : List α} (hr : Ring l h xs)
    (hnd : (h :: (xs ++ es)).Nodup) :
    ∃ l', es.foldlM (fun l e => l.addBefore h e) l = some l' ∧ Ring l' h (xs ++ es) := by
  induction es generalizing l xs with
  | nil => exact ⟨l,rfl,by simpa using hr⟩
  | cons e es ih =>
    have hout : e ∉ h :: xs := by
      rw [← List.cons_append] at hnd
      exact fun hm => (List.nodup_append.mp hnd).2.2 e hm e List.mem_cons_self rfl
    obtain ⟨l₁,hl₁,hr₁,-⟩ := hr.addBefore hout
    rw [List.append_cons] at hnd ⊢
    obtain ⟨l',hl',hr'⟩ := ih hr₁ hnd
    exact ⟨l',by rw [List.foldlM_cons,hl₁]; exact hl',hr'⟩

theorem remove {l : Links α} {h x : α} {ys zs : List α} (hr : Ring l h (ys ++ x :: zs)) :
    ∃ l', l.remove x = some l' ∧ Ring l' h (ys ++ zs) ∧ l' x = .null ∧
      ∀ a, a ∉ h :: (ys ++ x :: zs) → l' a = l a := by
  obtain ⟨hleft,hright⟩ := Path.append_iff.mp hr.path
  obtain ⟨p,hpm,hp⟩ := hleft.prev_mem
  obtain ⟨n,hnm,hn⟩ := hright.next_mem
  have hnd := hr.nodup
  rw [← List.cons_append] at hnd
  obtain ⟨hndl,hndr,hdis⟩ := List.nodup_append.mp hnd
  obtain ⟨hxz,hndz⟩ := List.nodup_cons.mp hndr
  have hly : ∀ a ∈ h :: ys, a ≠ x ∧ a ∉ zs := fun a ha =>
    ⟨hdis a ha x (by simp),fun hc => hdis a ha a (by simp [hc]) rfl⟩
  have hhy : h ∉ ys := (List.nodup_cons.mp hndl).1
  have hzx : ∀ a ∈ zs, a ≠ x := fun a ha hc => hxz (hc ▸ ha)
  have hxn : n ≠ x := by
    rcases List.mem_append.mp hnm with hz | hh
    · exact hzx n hz
    · rw [List.mem_singleton.mp hh]
      exact (hly h (by simp)).1
  have hl := remove_eq hn hp
  set l' := Function.update ((l.setPrev n (some p)).setNext p (some n)) x .null
  have hnext := remove_next hn hp hl
  have hprev := remove_prev hn hp hl
  have hjoin : Joined l' p n := ⟨by simp [hnext,(hly p hpm).1],by simp [hprev,hxn]⟩
  have hpath : Path l' h ys n := by
    refine hleft.retarget hp hndl hjoin ?_ ?_
    · intro a ha hap
      simp [hnext,(hly a ha).1,hap]
    · intro a ha
      have han : a ≠ n := by
        rintro rfl
        rcases List.mem_append.mp hnm with hz | hh
        · exact (hly a (List.mem_cons_of_mem _ ha)).2 hz
        · exact hhy (List.mem_singleton.mp hh ▸ ha)
      simp [hprev,(hly a (List.mem_cons_of_mem _ ha)).1,han]
  refine ⟨l',hl,⟨?_,hr.nodup.sublist (by simp)⟩,?_,?_⟩
  · cases zs with
    | nil =>
      obtain rfl : n = h := by simpa using hnm
      simpa using hpath
    | cons z zs =>
      obtain rfl : z = n := Option.some.inj (hright.1.1.symm.trans hn)
      refine Path.append_iff.mpr ⟨hpath,hright.2.congr ?_ ?_⟩
      · intro a ha
        have hap : a ≠ p := fun hc => (hly p hpm).2 (hc ▸ ha)
        simp [hnext,hzx a ha,hap]
      · intro a ha
        have haz : a ≠ z ∧ a ≠ x := by
          rcases List.mem_append.mp ha with hz | hh
          · exact ⟨fun hc => (List.nodup_cons.mp hndz).1 (hc ▸ hz),
              hzx a (List.mem_cons_of_mem _ hz)⟩
          · rw [List.mem_singleton.mp hh]
            exact ⟨fun hc => (hly h (by simp)).2 (by simp [hc]),(hly h (by simp)).1⟩
        simp [hprev,haz]
  · have h1 := hnext x
    have h2 := hprev x
    cases hla : l' x
    simp_all [ListHead.null]
  · intro a ha
    simp only [List.mem_cons,List.mem_append,not_or] at ha
    have hap : a ≠ p := by
      rintro rfl
      exact (List.not_mem_cons_of_ne_of_not_mem ha.1 ha.2.1) hpm
    have han : a ≠ n := by
      rintro rfl
      rcases List.mem_append.mp hnm with hz | hh
      · exact ha.2.2.2 hz
      · exact ha.1 (List.mem_singleton.mp hh)
    exact eq_of_fields (by simp [hnext,ha.2.2.1,hap]) (by simp [hprev,ha.2.2.1,han])

omit [DecidableEq α] in
theorem rotate {l : Links α} {h x : α} {ys zs : List α} (hr : Ring l h (ys ++ x :: zs)) :
    Ring l x (zs ++ h :: ys) := by
  obtain ⟨hleft,hright⟩ := Path.append_iff.mp hr.path
  refine ⟨Path.append_iff.mpr ⟨hright,hleft⟩,?_⟩
  have hnd := hr.nodup
  simp only [List.nodup_cons,List.nodup_append,List.mem_append,List.mem_cons] at hnd ⊢
  grind

theorem addBefore_at {l : Links α} {h x e : α} {ys zs : List α}
    (hr : Ring l h (ys ++ x :: zs)) (he : e ∉ h :: (ys ++ x :: zs)) :
    ∃ l', l.addBefore x e = some l' ∧ Ring l' h (ys ++ e :: x :: zs) ∧
      ∀ a, a ∉ e :: h :: (ys ++ x :: zs) → l' a = l a := by
  have hperm : ∀ a, a ∈ x :: (zs ++ h :: ys) ↔ a ∈ h :: (ys ++ x :: zs) := by
    intro a
    simp only [List.mem_cons,List.mem_append]
    tauto
  obtain ⟨l',hl,hr',hframe⟩ := hr.rotate.addBefore (mt (hperm e).mp he)
  refine ⟨l',hl,?_,?_⟩
  · rw [List.append_assoc,List.cons_append] at hr'
    simpa using hr'.rotate
  · intro a ha
    apply hframe
    simpa only [List.mem_cons (a := a) (b := e),hperm a] using ha

end Ring

theorem add_eq_addBefore {l : Links α} {a n e : α} (hj : Joined l a n) (ha : e ≠ a) (hn : e ≠ n) :
    l.add a e = l.addBefore n e := by
  obtain ⟨h1,h2⟩ := hj
  simp only [add,addBefore,h1,h2,Option.bind_eq_bind,Option.bind_some,setPrev_next,setNext_prev,
    Option.pure_def,Option.some.injEq]
  funext c
  apply eq_of_fields
  · simp only [setNext_next,setPrev_next]
    grind
  · simp only [setPrev_prev,setNext_prev]
    grind

theorem Ring.add {l : Links α} {h e : α} {xs : List α} (hr : Ring l h xs) (he : e ∉ h :: xs) :
    ∃ l', l.add h e = some l' ∧ Ring l' h (e :: xs) ∧ ∀ a, a ∉ e :: h :: xs → l' a = l a := by
  have heh : e ≠ h := fun hc => he (by simp [hc])
  cases xs with
  | nil =>
    rw [add_eq_addBefore hr.path heh heh]
    exact hr.addBefore he
  | cons x xs =>
    have hex : e ≠ x := fun hc => he (by simp [hc])
    rw [add_eq_addBefore hr.path.1 heh hex]
    exact Ring.addBefore_at (show Ring l h ([] ++ x :: xs) from hr) he

theorem Ring.add_at {l : Links α} {h x e : α} {ys zs : List α} (hr : Ring l h (ys ++ x :: zs))
    (he : e ∉ h :: (ys ++ x :: zs)) :
    ∃ l', l.add x e = some l' ∧ Ring l' h (ys ++ x :: e :: zs) := by
  have hout : e ∉ x :: (zs ++ h :: ys) := by
    simp only [List.mem_cons,List.mem_append] at he ⊢
    tauto
  obtain ⟨l',hl,hr',-⟩ := hr.rotate.add hout
  refine ⟨l',hl,?_⟩
  rw [← List.cons_append] at hr'
  exact hr'.rotate

end Links

end SabaOS.Lib

namespace SabaOS.Lib.Links

variable {ι α : Type}

structure Rings (l : Links α) (head : ι → α) (xs : ι → List α) : Prop where
  ring : ∀ i, Ring l (head i) (xs i)
  heads : ∀ i j, head i = head j → i = j
  off : ∀ i j, head i ∉ xs j
  once : ∀ i j a, a ∈ xs i → a ∈ xs j → i = j

namespace Rings

variable {l l' : Links α} {head : ι → α} {xs : ι → List α} {i j : ι} {a e x : α}
  {ys zs : List α}

theorem apart (hr : Rings l head xs) (hne : i ≠ j) (ha : a ∈ head i :: xs i) :
    a ∉ head j :: xs j := by
  intro haj
  rcases List.mem_cons.mp ha with rfl | hx
  · rcases List.mem_cons.mp haj with heq | hy
    · exact hne (hr.heads i j heq)
    · exact hr.off i j hy
  · rcases List.mem_cons.mp haj with rfl | hy
    · exact hr.off j i hx
    · exact hne (hr.once i j a hx hy)

theorem congr (hr : Rings l head xs) (he : ∀ i a, a ∈ head i :: xs i → l' a = l a) :
    Rings l' head xs :=
  ⟨fun i => (hr.ring i).congr (he i),hr.heads,hr.off,hr.once⟩

section Changed

variable [DecidableEq α]

theorem update (hr : Rings l head xs) (he : ∀ i, e ∉ head i :: xs i) (x : ListHead α) :
    Rings (Function.update l e x) head xs := by
  refine hr.congr fun i a ha => Function.update_of_ne ?_ _ _
  rintro rfl
  exact he i ha

theorem init (hr : Rings l head xs) (hx : xs i = []) : Rings (l.init (head i)) head xs := by
  refine ⟨fun j => ?_,hr.heads,hr.off,hr.once⟩
  by_cases hji : j = i
  · subst hji
    rw [hx]
    exact Ring.nil_init l (head j)
  · refine (hr.ring j).congr fun a ha => Function.update_of_ne ?_ _ _
    rintro rfl
    exact hr.apart hji ha List.mem_cons_self

variable [DecidableEq ι]

omit [DecidableEq α] in
theorem inserted (hr : Rings l head xs) (i : ι) (he : ∀ j, e ∉ head j :: xs j)
    (hring : Ring l' (head i) ys) (hys : ∀ a ∈ ys, a ∈ xs i ∨ a = e)
    (hsame : ∀ a, a ∉ e :: head i :: xs i → l' a = l a) : Rings l' head (Function.update xs i ys) := by
  have hmem : ∀ j a, a ∈ Function.update xs i ys j → a ∈ xs j ∨ a = e ∧ j = i := by
    intro j a ha
    by_cases hji : j = i
    · subst hji
      rw [Function.update_self] at ha
      exact (hys a ha).imp_right fun heq => ⟨heq,rfl⟩
    · rw [Function.update_of_ne hji] at ha
      exact .inl ha
  refine ⟨fun j => ?_,hr.heads,fun j k ha => ?_,fun j k a haj hak => ?_⟩
  · by_cases hji : j = i
    · subst hji
      rw [Function.update_self]
      exact hring
    · rw [Function.update_of_ne hji]
      refine (hr.ring j).congr fun a ha => hsame a ?_
      rw [List.mem_cons,not_or]
      refine ⟨?_,hr.apart hji ha⟩
      rintro rfl
      exact he j ha
  · rcases hmem k (head j) ha with ha | ⟨heq,-⟩
    · exact hr.off j k ha
    · exact he j (heq ▸ List.mem_cons_self)
  · rcases hmem j a haj with hj | ⟨rfl,rfl⟩
    · rcases hmem k a hak with hk | ⟨rfl,-⟩
      · exact hr.once j k a hj hk
      · exact absurd (List.mem_cons_of_mem _ hj) (he j)
    · rcases hmem k a hak with hk | ⟨-,rfl⟩
      · exact absurd (List.mem_cons_of_mem _ hk) (he k)
      · rfl

theorem addBefore (hr : Rings l head xs) (i : ι) (he : ∀ j, e ∉ head j :: xs j) :
    ∃ l', l.addBefore (head i) e = some l' ∧
      Rings l' head (Function.update xs i (xs i ++ [e])) := by
  obtain ⟨l',hl,hring,hsame⟩ := (hr.ring i).addBefore (he i)
  exact ⟨l',hl,hr.inserted i he hring (by simp) hsame⟩

theorem add (hr : Rings l head xs) (i : ι) (he : ∀ j, e ∉ head j :: xs j) :
    ∃ l', l.add (head i) e = some l' ∧ Rings l' head (Function.update xs i (e :: xs i)) := by
  obtain ⟨l',hl,hring,hsame⟩ := (hr.ring i).add (he i)
  refine ⟨l',hl,hr.inserted i he hring (fun a ha => ?_) hsame⟩
  exact (List.mem_cons.mp ha).symm

theorem addBefore_at (hr : Rings l head xs) (hx : xs i = ys ++ x :: zs)
    (he : ∀ j, e ∉ head j :: xs j) : ∃ l', l.addBefore x e = some l' ∧
      Rings l' head (Function.update xs i (ys ++ e :: x :: zs)) := by
  have hring := hr.ring i
  have hei := he i
  rw [hx] at hring hei
  obtain ⟨l',hl,hring',hsame⟩ := hring.addBefore_at hei
  rw [← hx] at hsame
  refine ⟨l',hl,hr.inserted i he hring' (fun a ha => ?_) hsame⟩
  rw [hx]
  simp only [List.mem_append,List.mem_cons] at ha ⊢
  tauto

theorem add_at (hr : Rings l head xs) (hx : xs i = ys ++ x :: zs)
    (he : ∀ j, e ∉ head j :: xs j) : ∃ l', l.add x e = some l' ∧
      Rings l' head (Function.update xs i (ys ++ x :: e :: zs)) := by
  have hei := he i
  have hring := hr.ring i
  rw [hx] at hei hring
  have hright := (Path.append_iff.mp hring.path).2
  have hex : e ≠ x := fun hc => hei (by simp [hc])
  cases zs with
  | nil =>
    have heh : e ≠ head i := fun hc => hei (by simp [hc])
    rw [add_eq_addBefore hright hex heh]
    obtain ⟨l',hl,hr'⟩ := hr.addBefore i he
    rw [hx,List.append_assoc] at hr'
    exact ⟨l',hl,hr'⟩
  | cons z zs =>
    have hez : e ≠ z := fun hc => hei (by simp [hc])
    rw [add_eq_addBefore hright.1 hex hez]
    have hx' : xs i = (ys ++ [x]) ++ z :: zs := by simpa using hx
    obtain ⟨l',hl,hr'⟩ := hr.addBefore_at hx' he
    rw [List.append_assoc] at hr'
    exact ⟨l',hl,hr'⟩

theorem remove (hr : Rings l head xs) (hx : xs i = ys ++ x :: zs) :
    ∃ l', l.remove x = some l' ∧ Rings l' head (Function.update xs i (ys ++ zs)) := by
  have hring := hr.ring i
  rw [hx] at hring
  obtain ⟨l',hl,hring',-,hsame⟩ := hring.remove
  have hsub : ∀ j a, a ∈ Function.update xs i (ys ++ zs) j → a ∈ xs j := by
    intro j a ha
    by_cases hji : j = i
    · subst hji
      rw [Function.update_self] at ha
      rw [hx]
      exact ((List.sublist_cons_self x zs).append_left ys).subset ha
    · rwa [Function.update_of_ne hji] at ha
  refine ⟨l',hl,fun j => ?_,hr.heads,fun j k ha => hr.off j k (hsub k _ ha),
    fun j k a haj hak => hr.once j k a (hsub j a haj) (hsub k a hak)⟩
  by_cases hji : j = i
  · subst hji
    rw [Function.update_self]
    exact hring'
  · rw [Function.update_of_ne hji]
    refine (hr.ring j).congr fun a ha => hsame a ?_
    have hout := hr.apart hji ha
    rwa [hx] at hout

end Changed

end Rings

structure Tidy (l : Links α) (head : ι → α) (xs : ι → List α) : Prop extends Rings l head xs where
  null : ∀ a, (∀ i, a ∉ head i :: xs i) → l a = .null

namespace Tidy

variable {l l' : Links α} {head : ι → α} {xs : ι → List α} {i : ι} {e x : α} {ys zs : List α}

theorem linked (h : Tidy l head xs) (hx : x ∈ xs i) :
    (∃ n, (l x).next = some n) ∧ ∃ p, (l x).prev = some p := by
  obtain ⟨n,-,hn⟩ := (h.ring i).next_mem (List.mem_cons_of_mem _ hx)
  obtain ⟨p,hp⟩ := (h.ring i).prev_joined hx
  exact ⟨⟨n,hn⟩,⟨p,hp.2⟩⟩

theorem next_eq (h : Tidy l head xs) (hx : xs i = ys ++ x :: zs) :
    (l x).next = (zs ++ [head i]).head? := by
  have hpath := (h.ring i).path
  rw [hx] at hpath
  exact (Path.append_iff.mp hpath).2.next_eq

variable [DecidableEq α] [DecidableEq ι]

theorem addBefore (h : Tidy l head xs) (i : ι) (he : ∀ j, e ∉ head j :: xs j) :
    ∃ l', l.addBefore (head i) e = some l' ∧ Tidy l' head (Function.update xs i (xs i ++ [e])) := by
  obtain ⟨l',hl,hrings⟩ := h.toRings.addBefore i he
  obtain ⟨l2,hl2,-,hsame⟩ := (h.ring i).addBefore (he i)
  obtain rfl : l2 = l' := Option.some.inj (hl2.symm.trans hl)
  refine ⟨l2,hl,hrings,fun a ha => ?_⟩
  have hai := ha i
  rw [Function.update_self] at hai
  simp only [List.mem_cons,List.mem_append,List.not_mem_nil,or_false,not_or] at hai
  rw [hsame a (by simp [hai])]
  refine h.null a fun j => ?_
  rcases eq_or_ne j i with rfl | hji
  · simp [hai]
  · have haj := ha j
    rwa [Function.update_of_ne hji] at haj

theorem remove (h : Tidy l head xs) (hx : xs i = ys ++ x :: zs) :
    ∃ l', l.remove x = some l' ∧ Tidy l' head (Function.update xs i (ys ++ zs)) := by
  obtain ⟨l',hl,hrings⟩ := h.toRings.remove hx
  have hring := h.ring i
  rw [hx] at hring
  obtain ⟨l2,hl2,-,hnull,hsame⟩ := hring.remove
  obtain rfl : l2 = l' := Option.some.inj (hl2.symm.trans hl)
  refine ⟨l2,hl,hrings,fun a ha => ?_⟩
  rcases eq_or_ne a x with rfl | hax
  · exact hnull
  · have hai := ha i
    rw [Function.update_self] at hai
    simp only [List.mem_cons,List.mem_append,not_or] at hai
    rw [hsame a (by simp [hai,hax])]
    refine h.null a fun j => ?_
    rcases eq_or_ne j i with rfl | hji
    · simp [hx,hai,hax]
    · have haj := ha j
      rwa [Function.update_of_ne hji] at haj

section Mapped

variable {β : Type} [DecidableEq β] {f : β → α} {A : ι → List β} {b : β}

omit [DecidableEq α] [DecidableEq ι] [DecidableEq β] in
theorem nodup_of_map (h : Tidy l head fun i => (A i).map f) (i : ι) : (A i).Nodup :=
  (List.nodup_cons.mp (h.ring i).nodup).2.of_map

omit [DecidableEq α] in
theorem update_map (xs : List β) (hx : ∀ j, j ≠ i → (A j).erase b = A j) (hi : (A i).erase b = xs) :
    (Function.update (fun j => (A j).map f) i (xs.map f)) = fun j => ((A j).erase b).map f := by
  funext j
  by_cases hj : j = i
  · subst hj
    rw [Function.update_self,hi]
  · rw [Function.update_of_ne hj,hx j hj]

theorem detach (h : Tidy l head fun i => (A i).map f) (hb : b ∈ A i) :
    ∃ l', l.remove (f b) = some l' ∧ Tidy l' head fun j => ((A j).erase b).map f := by
  obtain ⟨ys,zs,hA⟩ := List.append_of_mem hb
  have hnd := h.nodup_of_map i
  have hys : b ∉ ys := by
    rw [hA] at hnd
    exact fun hm => (List.nodup_append.mp hnd).2.2 b hm b List.mem_cons_self rfl
  obtain ⟨l',hl,hl'⟩ := h.remove (i := i)
    (show (A i).map f = ys.map f ++ f b :: zs.map f by simp [hA])
  refine ⟨l',hl,?_⟩
  rw [← List.map_append] at hl'
  rwa [update_map (b := b) (ys ++ zs)] at hl'
  · intro j hj
    refine List.erase_of_not_mem fun hm => hj ?_
    exact h.once j i (f b) (List.mem_map_of_mem hm) (List.mem_map_of_mem hb)
  · rw [hA,List.erase_append_right _ hys,List.erase_cons_head]

omit [DecidableEq β] in
theorem attach (h : Tidy l head fun i => (A i).map f) (hf : Function.Injective f)
    (hhead : ∀ j, f b ≠ head j) (hb : ∀ j, b ∉ A j) (i : ι) :
    ∃ l', l.addBefore (head i) (f b) = some l' ∧
      Tidy l' head fun j => (if j = i then A j ++ [b] else A j).map f := by
  have hout : ∀ j, f b ∉ head j :: (A j).map f := by
    intro j hm
    rcases List.mem_cons.mp hm with heq | hm
    · exact hhead j heq
    · obtain ⟨c,hc,heq⟩ := List.mem_map.mp hm
      exact hb j (hf heq ▸ hc)
  obtain ⟨l',hl,hl'⟩ := h.addBefore i hout
  refine ⟨l',hl,?_⟩
  convert hl' using 1
  funext j
  by_cases hj : j = i
  · subst hj
    simp
  · simp [hj]

end Mapped

end Tidy

end SabaOS.Lib.Links
