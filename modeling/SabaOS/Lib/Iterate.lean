import Mathlib.Data.Fintype.EquivFin
import Mathlib.Data.List.Basic
import Mathlib.Data.Set.Finite.Basic
import Mathlib.Logic.Relation
import Mathlib.Order.WellFounded

namespace SabaOS.Lib

section Turns

variable {γ ρ : Type}

inductive Turn (γ ρ : Type) where
  | again (c : γ)
  | stop (r : ρ)
  | stuck
deriving DecidableEq, Repr

namespace Turn

variable {ρ' : Type}

def map (f : ρ → ρ') : Turn γ ρ → Turn γ ρ'
  | again c => again c
  | stop r => stop (f r)
  | stuck => stuck

@[simp]
theorem map_again (f : ρ → ρ') (c : γ) : (again c).map f = again c := rfl

@[simp]
theorem map_stop (f : ρ → ρ') (r : ρ) : (stop r : Turn γ ρ).map f = stop (f r) := rfl

@[simp]
theorem map_stuck (f : ρ → ρ') : (stuck : Turn γ ρ).map f = stuck := rfl

end Turn

def run (step : γ → Turn γ ρ) : Nat → γ → Option ρ
  | 0,_ => none
  | n + 1,c => match step c with
    | .again c' => run step n c'
    | .stop r => some r
    | .stuck => none

def Visits (step : γ → Turn γ ρ) : γ → γ → Prop :=
  Relation.ReflTransGen fun c c' => step c = .again c'

def Ends (step : γ → Turn γ ρ) (c : γ) (r : ρ) : Prop := ∃ n, run step n c = some r

def EndsFrom (step : γ → Turn γ ρ) : Turn γ ρ → ρ → Prop
  | .again c,r => Ends step c r
  | .stop r',r => r' = r
  | .stuck,_ => False

variable {step : γ → Turn γ ρ} {c c' : γ} {r r' : ρ} {n m : Nat}

attribute [local simp] run

theorem Ends.stop (h : step c = .stop r) : Ends step c r := ⟨1,by simp [run,h]⟩

theorem ends_again (h : step c = .again c') : Ends step c r ↔ Ends step c' r := by
  constructor
  · rintro ⟨n,hn⟩
    cases n with
    | zero => simp [run] at hn
    | succ n => exact ⟨n,by simpa only [run,h] using hn⟩
  · rintro ⟨n,hn⟩
    exact ⟨n + 1,by simpa only [run,h] using hn⟩

theorem ends_stop (h : step c = .stop r) : Ends step c r' ↔ r = r' := by
  constructor
  · rintro ⟨n,hn⟩
    cases n with
    | zero => simp [run] at hn
    | succ n => simpa [run,h] using hn
  · rintro rfl
    exact .stop h

theorem not_ends_stuck (h : step c = .stuck) : ¬Ends step c r := by
  rintro ⟨n,hn⟩
  cases n with
  | zero => simp [run] at hn
  | succ n => simp [run,h] at hn

theorem ends_visits (h : Visits step c c') : Ends step c r ↔ Ends step c' r := by
  induction h with
  | refl => exact Iff.rfl
  | tail _ hstep ih => exact ih.trans (ends_again hstep)

theorem visits_again (h : step c = .again c') {d : γ} (hd : Visits step c d) :
    d = c ∨ Visits step c' d := by
  rcases Relation.ReflTransGen.cases_head hd with rfl | ⟨u,hu,hrest⟩
  · exact .inl rfl
  · exact .inr (Turn.again.inj (h.symm.trans hu) ▸ hrest)

theorem visits_stop (h : step c = .stop r) {d : γ} (hd : Visits step c d) : d = c := by
  rcases Relation.ReflTransGen.cases_head hd with rfl | ⟨u,hu,-⟩
  · rfl
  · cases h.symm.trans hu

theorem visits_linear {d : γ} (h : Visits step c c') (hd : Visits step c d) :
    Visits step c' d ∨ Visits step d c' := by
  have huniq : Relator.RightUnique fun u u' => step u = .again u' :=
    fun _ _ _ h1 h2 => Turn.again.inj (h1.symm.trans h2)
  exact Relation.ReflTransGen.total_of_right_unique huniq h hd

theorem visits_last (hstop : step c' = .stop r) (h : Visits step c c') {d : γ}
    (hd : Visits step c d) : Visits step d c' := by
  rcases visits_linear h hd with hback | hon
  · rw [visits_stop hstop hback]
    exact .refl
  · exact hon

theorem run_le (h : run step n c = some r) (hnm : n ≤ m) : run step m c = some r := by
  induction n generalizing c m with
  | zero => simp [run] at h
  | succ n ih =>
    obtain ⟨m,rfl⟩ : ∃ k, m = k + 1 := ⟨m - 1,by omega⟩
    simp only [run] at h ⊢
    cases hs : step c with
    | again c' =>
      simp only [hs] at h ⊢
      exact ih h (by omega)
    | stop r' => simpa only [hs] using h
    | stuck => simp [hs] at h

theorem run_map {ρ' : Type} (f : ρ → ρ') :
    run (fun c => (step c).map f) n c = (run step n c).map f := by
  induction n generalizing c with
  | zero => rfl
  | succ n ih =>
    simp only [run]
    cases step c with
    | again c' => exact ih
    | stop r => rfl
    | stuck => rfl

theorem Ends.unique (h : Ends step c r) (h' : Ends step c r') : r = r' := by
  obtain ⟨n,hn⟩ := h
  obtain ⟨m,hm⟩ := h'
  have h1 := run_le hn (Nat.le_max_left n m)
  have h2 := run_le hm (Nat.le_max_right n m)
  exact Option.some.inj (h1.symm.trans h2)

theorem EndsFrom.unique {t : Turn γ ρ} (h : EndsFrom step t r) (h' : EndsFrom step t r') :
    r = r' := by
  cases t with
  | again c => exact Ends.unique h h'
  | stop r₀ => exact h.symm.trans h'
  | stuck => exact h.elim

theorem Ends.last (h : Ends step c r) : ∃ c', Visits step c c' ∧ step c' = .stop r := by
  obtain ⟨n,hn⟩ := h
  induction n generalizing c with
  | zero => simp [run] at hn
  | succ n ih =>
    cases hs : step c with
    | again c' =>
      simp only [run,hs] at hn
      obtain ⟨d,hd,hstop⟩ := ih hn
      exact ⟨d,.head hs hd,hstop⟩
    | stop r' =>
      simp only [run,hs,Option.some.injEq] at hn
      subst hn
      exact ⟨c,.refl,hs⟩
    | stuck => simp [run,hs] at hn

theorem run_visits (hv : Visits step c c') (h : run step n c = some r) :
    ∃ m ≤ n, run step m c' = some r := by
  induction hv with
  | refl => exact ⟨n,Nat.le_refl n,h⟩
  | tail _ hstep ih =>
    obtain ⟨m,hm,hrun⟩ := ih
    cases m with
    | zero => simp [run] at hrun
    | succ m =>
      simp only [run,hstep] at hrun
      exact ⟨m,by omega,hrun⟩

theorem visits_of_measure {I P : γ → Prop} (μ : γ → Nat)
    (hturn : ∀ c, I c → P c ∨ ∃ c', step c = .again c' ∧ I c' ∧ μ c' < μ c) (h : I c) :
    ∃ d, Visits step c d ∧ P d := by
  induction hn : μ c using Nat.strongRecOn generalizing c with
  | ind n ih =>
    rcases hturn c h with hP | ⟨c',hc',hI,hlt⟩
    · exact ⟨c,.refl,hP⟩
    · obtain ⟨d,hd,hP⟩ := ih (μ c') (hn ▸ hlt) hI rfl
      exact ⟨d,.head hc' hd,hP⟩

theorem ends_of_measure {I : γ → Prop} (μ : γ → Nat)
    (hturn : ∀ c, I c → (∃ r, step c = .stop r) ∨ ∃ c', step c = .again c' ∧ I c' ∧ μ c' < μ c)
    (h : I c) : ∃ r, Ends step c r := by
  obtain ⟨d,hd,r,hr⟩ := visits_of_measure μ hturn h
  exact ⟨r,(ends_visits hd).mpr (.stop hr)⟩

theorem run_none_of_again {I : γ → Prop} (hturn : ∀ c, I c → ∃ c', step c = .again c' ∧ I c')
    (n : Nat) (h : I c) : run step n c = none := by
  induction n generalizing c with
  | zero => rfl
  | succ n ih =>
    obtain ⟨c',hc',hI⟩ := hturn c h
    simp only [run,hc']
    exact ih hI

def trace (step : γ → Turn γ ρ) : Nat → γ → List γ
  | 0,_ => []
  | n + 1,c => c :: match step c with
    | .again c' => trace step n c'
    | _ => []

theorem mem_trace_iff {μ : γ → Nat} (hless : ∀ c c', step c = .again c' → μ c' < μ c) {d : γ}
    (hn : μ c < n) : d ∈ trace step n c ↔ Visits step c d := by
  induction n generalizing c with
  | zero => exact absurd hn (Nat.not_lt_zero _)
  | succ n ih =>
    rw [trace,List.mem_cons]
    cases hs : step c with
    | again c' =>
      have hlt := hless c c' hs
      rw [ih (by omega)]
      constructor
      · rintro (rfl | hd)
        · exact .refl
        · exact .head hs hd
      · exact visits_again hs
    | stop r =>
      constructor
      · rintro (rfl | hd)
        · exact .refl
        · exact absurd hd List.not_mem_nil
      · exact fun hd => .inl (visits_stop hs hd)
    | stuck =>
      constructor
      · rintro (rfl | hd)
        · exact .refl
        · exact absurd hd List.not_mem_nil
      · intro hd
        rcases Relation.ReflTransGen.cases_head hd with rfl | ⟨u,hu,-⟩
        · exact .inl rfl
        · cases hs.symm.trans hu

theorem visits_le {f : γ → Nat} (hmore : ∀ c c', step c = .again c' → f c < f c')
    (h : Visits step c c') : f c ≤ f c' := by
  induction h with
  | refl => exact Nat.le_refl _
  | tail _ hstep ih => exact Nat.le_trans ih (Nat.le_of_lt (hmore _ _ hstep))

theorem trace_pairwise {f : γ → Nat} (hmore : ∀ c c', step c = .again c' → f c < f c') (n : Nat)
    (c : γ) : (trace step n c).Pairwise (f · < f ·) ∧ ∀ d ∈ trace step n c, f c ≤ f d := by
  induction n generalizing c with
  | zero => exact ⟨.nil,fun _ hd => absurd hd List.not_mem_nil⟩
  | succ n ih =>
    rw [trace]
    cases hs : step c with
    | again c' =>
      have hlt := hmore c c' hs
      obtain ⟨hpair,hle⟩ := ih c'
      refine ⟨.cons (fun d hd => Nat.lt_of_lt_of_le hlt (hle d hd)) hpair,?_⟩
      rintro d (_ | ⟨_,hd⟩)
      · exact Nat.le_refl _
      · exact Nat.le_trans (Nat.le_of_lt hlt) (hle d hd)
    | stop r => exact ⟨.cons (fun _ hd => absurd hd List.not_mem_nil) .nil,by simp⟩
    | stuck => exact ⟨.cons (fun _ hd => absurd hd List.not_mem_nil) .nil,by simp⟩

section Stutter

variable {γ' ρ' : Type} {step' : γ' → Turn γ' ρ'} {R : γ → γ' → Prop} {P : ρ → ρ' → Prop}

def Matches (R : γ → γ' → Prop) (P : ρ → ρ' → Prop) : Turn γ ρ → Turn γ' ρ' → Prop
  | .again c,.again c' => R c c'
  | .stop r,.stop r' => P r r'
  | .stuck,.stuck => True
  | _,_ => False

attribute [local simp] Matches

def Stutters (step : γ → Turn γ ρ) (step' : γ' → Turn γ' ρ') (R : γ → γ' → Prop)
    (P : ρ → ρ' → Prop) : Prop :=
  ∀ c c', R c c' → ∃ d, Visits step c d ∧ Matches R P (step d) (step' c')

theorem matches_again_left {t : Turn γ' ρ'} : Matches R P (.again c) t ↔
    ∃ c', t = .again c' ∧ R c c' := by
  cases t with
  | again c' => simp [Matches]
  | stop r' => simp [Matches]
  | stuck => simp [Matches]

theorem matches_stop_left {t : Turn γ' ρ'} : Matches R P (.stop r) t ↔
    ∃ r', t = .stop r' ∧ P r r' := by
  cases t with
  | again c' => simp [Matches]
  | stop r' => simp [Matches]
  | stuck => simp [Matches]

theorem matches_again_right {t : Turn γ ρ} {c' : γ'} : Matches R P t (.again c') ↔
    ∃ c, t = .again c ∧ R c c' := by
  cases t with
  | again c => simp [Matches]
  | stop r => simp [Matches]
  | stuck => simp [Matches]

theorem matches_stop_right {t : Turn γ ρ} {r' : ρ'} : Matches R P t (.stop r') ↔
    ∃ r, t = .stop r ∧ P r r' := by
  cases t with
  | again c => simp [Matches]
  | stop r => simp [Matches]
  | stuck => simp [Matches]

theorem Stutters.forth (h : Stutters step step' R P) {c : γ} {c' : γ'} (hR : R c c')
    (hends : Ends step c r) : ∃ r', Ends step' c' r' ∧ P r r' := by
  obtain ⟨n,hn⟩ := hends
  induction n using Nat.strongRecOn generalizing c c' with
  | ind n ih =>
    obtain ⟨d,hd,hmatch⟩ := h c c' hR
    obtain ⟨m,hm,hrun⟩ := run_visits hd hn
    cases m with
    | zero => simp [run] at hrun
    | succ m =>
      rw [run] at hrun
      cases hs : step d with
      | again u =>
        rw [hs] at hrun hmatch
        obtain ⟨u',hu',hR'⟩ := matches_again_left.mp hmatch
        obtain ⟨r',hr',hP⟩ := ih m (by omega) hR' hrun
        exact ⟨r',(ends_again hu').mpr hr',hP⟩
      | stop r0 =>
        rw [hs] at hrun hmatch
        obtain ⟨r',hr',hP⟩ := matches_stop_left.mp hmatch
        cases hrun
        exact ⟨r',.stop hr',hP⟩
      | stuck =>
        rw [hs] at hrun
        cases hrun

theorem Stutters.back (h : Stutters step step' R P) {c : γ} {c' : γ'} {r' : ρ'} (hR : R c c')
    (hends : Ends step' c' r') : ∃ r, Ends step c r ∧ P r r' := by
  obtain ⟨n,hn⟩ := hends
  induction n generalizing c c' with
  | zero => simp [run] at hn
  | succ n ih =>
    obtain ⟨d,hd,hmatch⟩ := h c c' hR
    rw [run] at hn
    cases hs' : step' c' with
    | again u' =>
      rw [hs'] at hn hmatch
      obtain ⟨u,hu,hR'⟩ := matches_again_right.mp hmatch
      obtain ⟨r,hr,hP⟩ := ih hR' hn
      exact ⟨r,(ends_visits hd).mpr ((ends_again hu).mpr hr),hP⟩
    | stop r0 =>
      rw [hs'] at hn hmatch
      obtain ⟨r,hr,hP⟩ := matches_stop_right.mp hmatch
      cases hn
      exact ⟨r,(ends_visits hd).mpr (.stop hr),hP⟩
    | stuck =>
      rw [hs'] at hn
      cases hn

end Stutter

section Loops

variable {σ : Type}

-- `for (i = a; i < b; i++)`
def up (a b : Int) : List Int := (List.range (b - a).toNat).map fun i : Nat => a + (i : Int)

-- `for (i = a; i >= b; i--)`
def down (a b : Int) : List Int := (List.range (a - b + 1).toNat).map fun i : Nat => a - (i : Int)

def each : List Int → (Int → σ → σ) → σ → σ
  | [], _, s => s
  | i :: is, f, s => each is f (f i s)

variable {a b i : Int} {is : List Int} {f : Int → σ → σ} {s : σ} {P : σ → Prop}

theorem mem_up : i ∈ up a b ↔ a ≤ i ∧ i < b := by
  simp only [up,List.mem_map,List.mem_range]
  constructor
  · rintro ⟨k,hk,rfl⟩
    omega
  · intro h
    exact ⟨(i - a).toNat,by omega,by omega⟩

theorem mem_down : i ∈ down a b ↔ b ≤ i ∧ i ≤ a := by
  simp only [down,List.mem_map,List.mem_range]
  constructor
  · rintro ⟨k,hk,rfl⟩
    omega
  · intro h
    exact ⟨(a - i).toNat,by omega,by omega⟩

theorem each_keeps (h : ∀ i s, i ∈ is → P s → P (f i s)) (hs : P s) : P (each is f s) := by
  induction is generalizing s with
  | nil => exact hs
  | cons i is ih =>
    have hfirst := h i s List.mem_cons_self hs
    exact ih (fun j u hj => h j u (List.mem_cons_of_mem i hj)) hfirst

theorem each_reaches (hi : i ∈ is) (hit : ∀ s, P (f i s)) (keep : ∀ j s, P s → P (f j s)) :
    P (each is f s) := by
  induction is generalizing s with
  | nil => cases hi
  | cons j is ih =>
    rcases List.mem_cons.mp hi with rfl | hi
    · exact each_keeps (s := f i s) (fun j u _ => keep j u) (hit s)
    · exact ih hi

end Loops

end Turns

section Cycles

variable {γ ρ : Type} {step : γ → Turn γ ρ} {c : γ} {r : ρ}

def Next (step : γ → Turn γ ρ) (c c' : γ) : Prop := step c = .again c'

def Cyclic (step : γ → Turn γ ρ) (c : γ) : Prop := Relation.TransGen (Next step) c c

theorem Ends.not_cyclic (h : Ends step c r) : ¬Cyclic step c := by
  intro hcycle
  obtain ⟨n,hn⟩ := h
  induction n using Nat.strongRecOn with
  | ind n ih =>
    obtain ⟨d,hd,hback⟩ := Relation.TransGen.head'_iff.mp hcycle
    cases n with
    | zero => cases hn
    | succ n =>
      have hrest : run step n d = some r := by
        rw [run,show step c = .again d from hd] at hn
        exact hn
      obtain ⟨m,hm,hrun⟩ := run_visits hback hrest
      exact ih m (Nat.lt_succ_of_le hm) hrun

theorem ends_of_acyclic (hfin : {d | Visits step c d}.Finite)
    (hstuck : ∀ d, Visits step c d → step d ≠ .stuck)
    (hcycle : ∀ d, Visits step c d → ¬Cyclic step d) : ∃ r, Ends step c r := by
  have : Finite {d // Visits step c d} := hfin
  have htrans : IsTrans {d // Visits step c d} fun a b => Relation.TransGen (Next step) b.1 a.1 :=
    ⟨fun _ _ _ hab hbc => hbc.trans hab⟩
  have hirrefl : Std.Irrefl fun a b : {d // Visits step c d} =>
      Relation.TransGen (Next step) b.1 a.1 := ⟨fun a => hcycle a.1 a.2⟩
  have hwf := Finite.wellFounded_of_trans_of_irrefl
    fun a b : {d // Visits step c d} => Relation.TransGen (Next step) b.1 a.1
  suffices ∀ a : {d // Visits step c d}, ∃ r, Ends step a.1 r from this ⟨c,.refl⟩
  intro a
  induction a using hwf.induction with
  | _ a ih =>
    cases hs : step a.1 with
    | again d =>
      obtain ⟨r,hr⟩ := ih ⟨d,.tail a.2 hs⟩ (.single hs)
      exact ⟨r,(ends_again hs).mpr hr⟩
    | stop r => exact ⟨r,.stop hs⟩
    | stuck => exact absurd hs (hstuck a.1 a.2)

theorem ends_iff_acyclic (hfin : {d | Visits step c d}.Finite) : (∃ r, Ends step c r) ↔
    ∀ d, Visits step c d → step d ≠ .stuck ∧ ¬Cyclic step d := by
  constructor
  · rintro ⟨r,hr⟩ d hd
    have hends := (ends_visits hd).mp hr
    exact ⟨fun hs => not_ends_stuck hs hends,hends.not_cyclic⟩
  · intro h
    exact ends_of_acyclic hfin (fun d hd => (h d hd).1) fun d hd => (h d hd).2

end Cycles

end SabaOS.Lib
