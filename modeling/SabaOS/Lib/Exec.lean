import Mathlib.Order.Basic

namespace SabaOS.Lib

def Exec (σ ε α : Type) : Type := σ → Except ε (α × σ)

namespace Exec

variable {σ ε α β : Type}

instance : Monad (Exec σ ε) where
  pure a s := .ok (a,s)
  bind x f s := match x s with
    | .ok r => f r.1 r.2
    | .error e => .error e

def get : Exec σ ε σ := fun s => .ok (s,s)

def modify (f : σ → σ) : Exec σ ε Unit := fun s => .ok ((),f s)

variable {x : Exec σ ε α} {f : α → Exec σ ε β} {s s' : σ} {a : α} {e : ε}

@[simp]
theorem pure_apply : (pure a : Exec σ ε α) s = .ok (a,s) := rfl

theorem bind_apply : (x >>= f) s = match x s with
    | .ok r => f r.1 r.2
    | .error e => .error e := rfl

theorem bind_ok (h : x s = .ok (a,s')) : (x >>= f) s = f a s' := by
  rw [bind_apply,h]

theorem bind_error (h : x s = .error e) : (x >>= f) s = .error e := by
  rw [bind_apply,h]

end Exec

def Outcome {σ ε α : Type} (Q : α → σ → Prop) (E : ε → Prop) : Except ε (α × σ) → Prop
  | .ok r => Q r.1 r.2
  | .error e => E e

def Triple {σ ε α : Type} (P : σ → Prop) (x : Exec σ ε α) (Q : α → σ → Prop) (E : ε → Prop) : Prop :=
  ∀ s, P s → Outcome Q E (x s)

namespace Triple

open Exec

variable {σ ε α β : Type} {P P' : σ → Prop} {Q Q' : α → σ → Prop} {R : β → σ → Prop}
variable {E : ε → Prop} {x y : Exec σ ε α} {f : α → Exec σ ε β}

theorem pure {a : α} (h : ∀ s, P s → Q a s) : Triple P (pure a : Exec σ ε α) Q E :=
  fun s hs => h s hs

theorem bind (hx : Triple P x Q E) (hf : ∀ a, Triple (Q a) (f a) R E) :
    Triple P (x >>= f) R E := by
  intro s hs
  have hout := hx s hs
  cases h : x s with
  | ok r =>
    rw [h] at hout
    rw [bind_ok h]
    exact hf r.1 r.2 hout
  | error e =>
    rw [h] at hout
    rw [bind_error h]
    exact hout

theorem weaken (hx : Triple P x Q E) (hP : ∀ s, P' s → P s) (hQ : ∀ a s, Q a s → Q' a s) :
    Triple P' x Q' E := by
  intro s hs
  have hout := hx s (hP s hs)
  cases h : x s with
  | ok r =>
    rw [h] at hout
    exact hQ r.1 r.2 hout
  | error e =>
    rw [h] at hout
    exact hout

theorem stops {E' : ε → Prop} (hx : Triple P x Q E) (hE : ∀ e, E e → E' e) : Triple P x Q E' := by
  intro s hs
  have hout := hx s hs
  cases h : x s with
  | ok r =>
    rw [h] at hout
    exact hout
  | error e =>
    rw [h] at hout
    exact hE e hout

theorem ite {c : Prop} [Decidable c] (ht : c → Triple P x Q E) (hf : ¬c → Triple P y Q E) :
    Triple P (if c then x else y) Q E := by
  split_ifs with h
  · exact ht h
  · exact hf h

theorem modify {g : σ → σ} {Q : σ → Prop} (h : ∀ s, P s → Q (g s)) :
    Triple P (modify g : Exec σ ε Unit) (fun _ => Q) E :=
  fun s hs => h s hs

end Triple

end SabaOS.Lib
