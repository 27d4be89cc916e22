import Mathlib.Data.List.Basic
import Mathlib.Data.List.Infix

namespace SabaOS.Lib

variable {σ ω α : Type}

def Runs (step : σ → ω → σ → Prop) : σ → List ω → σ → Prop
  | s,[],t => s = t
  | s,op :: ops,t => ∃ u, step s op u ∧ Runs step u ops t

def Along (step : σ → ω → σ → Prop) (P : σ → ω → σ → Prop) : σ → List ω → Prop
  | _,[] => True
  | s,op :: ops => ∀ u, step s op u → P s op u ∧ Along step P u ops

namespace Along

variable {step : σ → ω → σ → Prop} {Good Safe : σ → ω → σ → Prop} {Inv : σ → Prop}

theorem runs {s t : σ} {ops : List ω} (hinv : ∀ {s op u}, Inv s → step s op u → Safe s op u → Inv u)
    (hi : Inv s) (h : Along step Safe s ops) (hrun : Runs step s ops t) : Inv t := by
  induction ops generalizing s with
  | nil =>
    cases hrun
    exact hi
  | cons op ops ih =>
    obtain ⟨u,hu,hrun⟩ := hrun
    obtain ⟨hsafe,hrest⟩ := h u hu
    exact ih (hinv hi hu hsafe) hrest hrun

theorem of_safe (hstep : ∀ {s op u}, Inv s → step s op u → Safe s op u → Good s op u ∧ Inv u)
    {s : σ} {ops : List ω} (hi : Inv s) (h : Along step Safe s ops) : Along step Good s ops := by
  induction ops generalizing s with
  | nil => trivial
  | cons op ops ih =>
    intro u hu
    obtain ⟨hsafe,hrest⟩ := h u hu
    obtain ⟨hgood,hinv⟩ := hstep hi hu hsafe
    exact ⟨hgood,ih hinv hrest⟩

theorem append {s : σ} {ops ops' : List ω} (h : Along step Safe s (ops ++ ops')) :
    Along step Safe s ops ∧ ∀ t, Runs step s ops t → Along step Safe t ops' := by
  induction ops generalizing s with
  | nil =>
    refine ⟨trivial,?_⟩
    rintro t rfl
    exact h
  | cons op ops ih =>
    refine ⟨fun u hu => ⟨(h u hu).1,(ih (h u hu).2).1⟩,?_⟩
    rintro t ⟨u,hu,hrun⟩
    exact (ih (h u hu).2).2 t hrun

theorem iff_safe (hstep : ∀ {s op u}, Inv s → step s op u → (Good s op u ↔ Safe s op u))
    (hinv : ∀ {s op u}, Inv s → step s op u → Good s op u → Inv u) {s : σ} {ops : List ω}
    (hi : Inv s) : Along step Good s ops ↔ Along step Safe s ops := by
  induction ops generalizing s with
  | nil => exact Iff.rfl
  | cons op ops ih =>
    constructor
    · intro h u hu
      obtain ⟨hgood,hrest⟩ := h u hu
      exact ⟨(hstep hi hu).mp hgood,(ih (hinv hi hu hgood)).mp hrest⟩
    · intro h u hu
      obtain ⟨hsafe,hrest⟩ := h u hu
      have hgood := (hstep hi hu).mpr hsafe
      exact ⟨hgood,(ih (hinv hi hu hgood)).mpr hrest⟩

end Along

structure Tracking (step : σ → ω → σ → Prop) (apply : α → ω → α) where
  Inv : σ → α → Prop
  View : σ → α → Prop
  Ok : ω → Prop
  Safe : σ → ω → Prop
  view_step : ∀ {s s' a op}, Inv s a → View s a → Ok op → step s op s' →
    (View s' (apply a op) ↔ Safe s op)
  inv_step : ∀ {s s' a op}, Inv s a → View s a → Ok op → Safe s op → step s op s' →
    Inv s' (apply a op)

namespace Tracking

variable {step : σ → ω → σ → Prop} {apply : α → ω → α}

theorem view_iff_safe (T : Tracking step apply) {s : σ} {a : α} {ops : List ω}
    (hops : ∀ op ∈ ops, T.Ok op) (hi : T.Inv s a) (hv : T.View s a) :
    (∀ pre, pre <+: ops → ∀ t, Runs step s pre t → T.View t (pre.foldl apply a)) ↔
      ∀ pre op, pre ++ [op] <+: ops → ∀ t t', Runs step s pre t → step t op t' → T.Safe t op := by
  induction ops generalizing s a with
  | nil =>
    constructor
    · intro _ pre op hpre
      simp at hpre
    · intro _ pre hpre t ht
      obtain rfl := List.prefix_nil.mp hpre
      cases ht
      exact hv
  | cons op ops ih =>
    have hok := hops op List.mem_cons_self
    have hrest : ∀ op ∈ ops, T.Ok op := fun o ho => hops o (List.mem_cons_of_mem _ ho)
    constructor
    · intro hview pre op' hpre t t' ht ht'
      cases pre with
      | nil =>
        cases ht
        obtain ⟨rfl,-⟩ := List.cons_prefix_cons.mp hpre
        exact (T.view_step hi hv hok ht').mp (hview [op'] hpre t' ⟨t',ht',rfl⟩)
      | cons o pre =>
        obtain ⟨rfl,htail⟩ := List.cons_prefix_cons.mp hpre
        obtain ⟨u,hu,ht⟩ := ht
        have hvu := hview [o] (by simp) u ⟨u,hu,rfl⟩
        have hsafe := (T.view_step hi hv hok hu).mp hvu
        refine (ih hrest (T.inv_step hi hv hok hsafe hu) hvu).mp ?_ pre op' htail t t' ht ht'
        intro pre' hpre' v hrun
        exact hview (o :: pre') (List.cons_prefix_cons.mpr ⟨rfl,hpre'⟩) v ⟨u,hu,hrun⟩
    · intro hall pre hpre t ht
      cases pre with
      | nil =>
        cases ht
        exact hv
      | cons o pre =>
        obtain ⟨rfl,htail⟩ := List.cons_prefix_cons.mp hpre
        obtain ⟨u,hu,ht⟩ := ht
        have hsafe : T.Safe s o := hall [] o (by simp) s u rfl hu
        have hvu := (T.view_step hi hv hok hu).mpr hsafe
        refine (ih hrest (T.inv_step hi hv hok hsafe hu) hvu).mpr ?_ pre htail t ht
        intro pre' op' hpre' v v' hrun
        exact hall (o :: pre') op' (List.cons_prefix_cons.mpr ⟨rfl,hpre'⟩) v v' ⟨u,hu,hrun⟩

end Tracking

end SabaOS.Lib
