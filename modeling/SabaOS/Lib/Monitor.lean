import Mathlib.Data.List.Basic
import Mathlib.Logic.Function.Basic
import Mathlib.Logic.Relation
import Mathlib.Tactic.Ring

namespace SabaOS.Lib

inductive Attempt (R A : Type) where
  | done (resource : R) (drop : Bool) (answer : A)
  | refuse (answer : A)
  | wait
deriving DecidableEq, Repr

inductive Call (Q : Type) where
  | idle
  | asleep (q : Q)
  | woken (q : Q)
deriving DecidableEq, Repr

def Call.wake {Q : Type} : Call Q → Call Q
  | .asleep q => .woken q
  | c => c

structure Monitor (T R Q : Type) where
  resource : R
  pending : Int
  listeners : List T
  calls : T → Call Q

namespace Monitor

variable {T R Q A : Type} [DecidableEq T]

-- the counter is a 32-bit signed integer
def wrap (n : Int) : Int := n.bmod (2 ^ 32)

def trigger (m : Monitor T R Q) (drop : Bool) : Monitor T R Q :=
  if m.listeners = [] then
    if drop then m else { m with pending := wrap (m.pending + 1) }
  else { m with calls := fun t => if t ∈ m.listeners then (m.calls t).wake else m.calls t }

def sleep (m : Monitor T R Q) (t : T) (q : Q) : Monitor T R Q :=
  { m with listeners := m.listeners ++ [t], calls := Function.update m.calls t (.asleep q) }

def settle (attempt : R → Attempt R A) (t : T) (q : Q) :
    Nat → Monitor T R Q → Option (Monitor T R Q × Option A)
  | fuel, m =>
    match attempt m.resource with
    | .done r drop answer => some (trigger { m with resource := r } drop,some answer)
    | .refuse answer => some (m,some answer)
    | .wait =>
      if m.pending > 0 then
        match fuel with
        | 0 => none
        | fuel + 1 => settle attempt t q fuel { m with pending := m.pending - 1 }
      else some (m.sleep t q,none)

def enter (attempt : Q → R → Attempt R A) (m : Monitor T R Q) (t : T) (q : Q) :
    Option (Monitor T R Q × Option A) :=
  match m.calls t with
  | .idle => settle (attempt q) t q m.pending.toNat m
  | _ => none

def unlisten (m : Monitor T R Q) (t : T) : Monitor T R Q :=
  { m with listeners := m.listeners.erase t, calls := Function.update m.calls t .idle }

def resume (attempt : Q → R → Attempt R A) (m : Monitor T R Q) (t : T) :
    Option (Monitor T R Q × Option A) :=
  match m.calls t with
  | .woken q => settle (attempt q) t q m.pending.toNat (m.unlisten t)
  | _ => none

structure Quiet (attempt : Q → R → Attempt R A) (m : Monitor T R Q) : Prop where
  stuck : ∀ t q, m.calls t = .asleep q → attempt q m.resource = .wait
  listed : ∀ t q, m.calls t = .asleep q → t ∈ m.listeners

section Rules

variable {attempt : Q → R → Attempt R A} {m m' : Monitor T R Q} {t : T} {q : Q} {fuel : Nat}

omit [DecidableEq T] in
theorem wake_ne_asleep (c : Call Q) (q : Q) : c.wake ≠ .asleep q := by
  cases c with
  | idle => nofun
  | asleep q => nofun
  | woken q => nofun

theorem trigger_awake (hl : ∀ t q, m.calls t = .asleep q → t ∈ m.listeners) (drop : Bool) (t : T)
    (q : Q) : (m.trigger drop).calls t ≠ .asleep q := by
  intro hc
  unfold trigger at hc
  split_ifs at hc with hnone
  · have := hl t q hc
    rw [hnone] at this
    cases this
  · have := hl t q hc
    rw [hnone] at this
    cases this
  · dsimp only at hc
    split_ifs at hc with hm
    · exact wake_ne_asleep _ q hc
    · exact hm (hl t q hc)

theorem Quiet.change (hq : Quiet attempt m) (r : R) (drop : Bool) :
    Quiet attempt (trigger { m with resource := r } drop) := by
  have hawake := trigger_awake (m := { m with resource := r }) hq.listed drop
  exact ⟨fun t q hc => absurd hc (hawake t q),fun t q hc => absurd hc (hawake t q)⟩

theorem Quiet.sleep (hq : Quiet attempt m) (hw : attempt q m.resource = .wait) :
    Quiet attempt (m.sleep t q) := by
  refine ⟨?_,?_⟩
  · intro u p hc
    by_cases hu : u = t
    · subst hu
      simp only [Monitor.sleep,Function.update_self,Call.asleep.injEq] at hc
      exact hc ▸ hw
    · simp only [Monitor.sleep,Function.update_of_ne hu] at hc
      exact hq.stuck u p hc
  · intro u p hc
    by_cases hu : u = t
    · subst hu
      simp [Monitor.sleep]
    · simp only [Monitor.sleep,Function.update_of_ne hu] at hc
      exact List.mem_append_left _ (hq.listed u p hc)

theorem Quiet.unlisten (hq : Quiet attempt m) : Quiet attempt (m.unlisten t) := by
  have hother : ∀ u p, (m.unlisten t).calls u = .asleep p → u ≠ t ∧ m.calls u = .asleep p := by
    intro u p hc
    by_cases hu : u = t
    · subst hu
      simp [Monitor.unlisten] at hc
    · simp only [Monitor.unlisten,Function.update_of_ne hu] at hc
      exact ⟨hu,hc⟩
  refine ⟨?_,?_⟩
  · intro u p hc
    exact hq.stuck u p (hother u p hc).2
  · intro u p hc
    obtain ⟨hne,hc⟩ := hother u p hc
    exact (List.mem_erase_of_ne hne).mpr (hq.listed u p hc)

theorem Quiet.settle {answer : Option A} (hq : Quiet attempt m)
    (h : Monitor.settle (attempt q) t q fuel m = some (m',answer)) : Quiet attempt m' := by
  induction fuel generalizing m with
  | zero =>
    unfold Monitor.settle at h
    split at h
    · cases h
      exact hq.change _ _
    · cases h
      exact hq
    · rename_i hw
      split_ifs at h
      cases h
      exact hq.sleep hw
  | succ fuel ih =>
    unfold Monitor.settle at h
    split at h
    · cases h
      exact hq.change _ _
    · cases h
      exact hq
    · rename_i hw
      split_ifs at h
      · exact ih (m := { m with pending := m.pending - 1 }) ⟨hq.stuck,hq.listed⟩ h
      · cases h
        exact hq.sleep hw

theorem Quiet.enter {answer : Option A} (hq : Quiet attempt m)
    (h : m.enter attempt t q = some (m',answer)) : Quiet attempt m' := by
  unfold Monitor.enter at h
  split at h
  · exact hq.settle h
  · cases h

theorem Quiet.resume {answer : Option A} (hq : Quiet attempt m)
    (h : m.resume attempt t = some (m',answer)) : Quiet attempt m' := by
  unfold Monitor.resume at h
  split at h
  · exact hq.unlisten.settle h
  · cases h

theorem settle_isSome (attempt : R → Attempt R A) (h : m.pending.toNat ≤ fuel) :
    (settle attempt t q fuel m).isSome := by
  induction fuel generalizing m with
  | zero =>
    unfold settle
    split
    · rfl
    · rfl
    · rw [if_neg (by omega)]
      rfl
  | succ fuel ih =>
    unfold settle
    split
    · rfl
    · rfl
    · split_ifs
      · exact ih (by dsimp only; omega)
      · rfl

theorem resume_isSome (hc : m.calls t = .woken q) : (m.resume attempt t).isSome := by
  unfold Monitor.resume
  rw [hc]
  exact settle_isSome _ (Nat.le_refl _)

end Rules

inductive Step (attempt : Q → R → Attempt R A) (change : R → R → Prop) (drop : Bool) :
    Monitor T R Q → Monitor T R Q → Prop where
  | enter {m m' : Monitor T R Q} {answer : Option A} (t : T) (q : Q)
      (h : m.enter attempt t q = some (m',answer)) : Step attempt change drop m m'
  | resume {m m' : Monitor T R Q} {answer : Option A} (t : T)
      (h : m.resume attempt t = some (m',answer)) : Step attempt change drop m m'
  | change {m : Monitor T R Q} (r : R) (h : change m.resource r) :
      Step attempt change drop m (trigger { m with resource := r } drop)

theorem Quiet.run {attempt : Q → R → Attempt R A} {change : R → R → Prop} {drop : Bool}
    {m m' : Monitor T R Q} (hq : Quiet attempt m)
    (hrun : Relation.ReflTransGen (Step attempt change drop) m m') : Quiet attempt m' := by
  induction hrun with
  | refl => exact hq
  | tail _ hstep ih =>
    cases hstep with
    | enter t q h => exact ih.enter h
    | resume t h => exact ih.resume h
    | change r h => exact ih.change r drop

omit [DecidableEq T] in
theorem Quiet.idle {attempt : Q → R → Attempt R A} {m : Monitor T R Q}
    (h : ∀ t, m.calls t = .idle) : Quiet attempt m :=
  ⟨fun t _ hc => absurd ((h t).symm.trans hc) nofun,
    fun t _ hc => absurd ((h t).symm.trans hc) nofun⟩

def interrupt (m : Monitor T R Q) (t : T) : Option (Monitor T R Q) :=
  match m.calls t with
  | .idle => none
  | _ => some (m.unlisten t)

inductive Served (attempt : Q → R → Attempt R A) :
    Monitor T R Q → Option (Q × A) → Monitor T R Q → Prop where
  | enter {m m' : Monitor T R Q} {answer : Option A} (t : T) (q : Q)
      (h : m.enter attempt t q = some (m',answer)) :
      Served attempt m (answer.map fun a => (q,a)) m'
  | resume {m m' : Monitor T R Q} {answer : Option A} (t : T) (q : Q) (hc : m.calls t = .woken q)
      (h : m.resume attempt t = some (m',answer)) :
      Served attempt m (answer.map fun a => (q,a)) m'
  | interrupt {m m' : Monitor T R Q} (t : T) (h : m.interrupt t = some m') :
      Served attempt m none m'

inductive Ledger (attempt : Q → R → Attempt R A) :
    Monitor T R Q → List (Q × A) → Monitor T R Q → Prop where
  | refl (m : Monitor T R Q) : Ledger attempt m [] m
  | tail {m₀ m m' : Monitor T R Q} {log : List (Q × A)} {entry : Option (Q × A)}
      (hrun : Ledger attempt m₀ log m) (hstep : Served attempt m entry m') :
      Ledger attempt m₀ (log ++ entry.toList) m'

section Ledgers

variable {attempt : Q → R → Attempt R A} {m m' : Monitor T R Q} {t : T} {q : Q} {fuel : Nat}

inductive Booked (attempt : Q → R → Attempt R A) (q : Q) (r r' : R) : Option A → Prop where
  | done (drop : Bool) (a : A) (h : attempt q r = .done r' drop a) : Booked attempt q r r' (some a)
  | refuse (a : A) (h : attempt q r = .refuse a) (hr : r' = r) : Booked attempt q r r' (some a)
  | wait (hr : r' = r) : Booked attempt q r r' none

theorem trigger_resource (m : Monitor T R Q) (drop : Bool) :
    (m.trigger drop).resource = m.resource := by
  unfold trigger
  split_ifs <;> rfl

theorem settle_booked {answer : Option A} (h : settle (attempt q) t q fuel m = some (m',answer)) :
    Booked attempt q m.resource m'.resource answer := by
  induction fuel generalizing m with
  | zero =>
    unfold Monitor.settle at h
    split at h
    · rename_i r drop a hdone
      cases h
      exact .done drop a (hdone.trans (by rw [trigger_resource]))
    · rename_i a hrefuse
      cases h
      exact .refuse a hrefuse rfl
    · split_ifs at h
      cases h
      exact .wait rfl
  | succ fuel ih =>
    unfold Monitor.settle at h
    split at h
    · rename_i r drop a hdone
      cases h
      exact .done drop a (hdone.trans (by rw [trigger_resource]))
    · rename_i a hrefuse
      cases h
      exact .refuse a hrefuse rfl
    · split_ifs at h
      · exact ih (m := { m with pending := m.pending - 1 }) h
      · cases h
        exact .wait rfl

theorem Served.booked {entry : Option (Q × A)} (h : Served attempt m entry m') :
    (entry = none ∧ m'.resource = m.resource) ∨
      ∃ q a, entry = some (q,a) ∧ Booked attempt q m.resource m'.resource (some a) := by
  cases h with
  | enter t q h =>
    rename_i answer
    unfold Monitor.enter at h
    split at h
    · have hb := settle_booked h
      cases answer with
      | none =>
        cases hb with
        | wait hr => exact .inl ⟨rfl,hr⟩
      | some a => exact .inr ⟨q,a,rfl,hb⟩
    · cases h
  | resume t q hc h =>
    rename_i answer
    unfold Monitor.resume at h
    rw [hc] at h
    have hb := settle_booked h
    cases answer with
    | none =>
      cases hb with
      | wait hr => exact .inl ⟨rfl,hr⟩
    | some a => exact .inr ⟨q,a,rfl,hb⟩
  | interrupt t h =>
    unfold Monitor.interrupt at h
    split at h
    · cases h
    · cases h
      exact .inl ⟨rfl,rfl⟩

theorem Ledger.keeps {P : R → List (Q × A) → Prop} {log : List (Q × A)}
    (hstep : ∀ q r r' a log, Booked attempt q r r' (some a) → P r log → P r' (log ++ [(q,a)]))
    (h₀ : P m.resource []) (hrun : Ledger attempt m log m') : P m'.resource log := by
  induction hrun with
  | refl => exact h₀
  | tail _ hs ih =>
    rcases hs.booked with ⟨rfl,hr⟩ | ⟨q,a,rfl,hb⟩
    · rw [hr,Option.toList_none,List.append_nil]
      exact ih
    · exact hstep q _ _ a _ hb ih

end Ledgers

end Monitor

end SabaOS.Lib
