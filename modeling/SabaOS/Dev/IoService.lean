import Mathlib.Logic.Relation
import SabaOS.Lib.Tracking

namespace SabaOS.Dev

open SabaOS.Lib

-- Where the worker is between two of its steps: interrupts are enabled at each of them, and
-- `asleep` and `woken` are within `queue_event.wait`.
inductive Phase (T : Type) where
  | pop
  | run (task : T)
  | wait
  | asleep
  | woken
deriving DecidableEq, Repr

-- `executed` has the tasks whose function has returned.
structure IoService (T : Type) where
  taskList : List T := []
  pending : Int := 0
  numListeners : Nat := 0
  phase : Phase T := .pop
  executed : List T := []
deriving DecidableEq, Repr

inductive Action (T : Type) where
  | push (task : T)
  | work
deriving DecidableEq, Repr

namespace IoService

variable {T : Type}

def enqueueThread : Phase T → Phase T
  | .asleep => .woken
  | p => p

def trigger (s : IoService T) (drop : Bool) : IoService T :=
  if s.numListeners = 0 then
    if drop then s else { s with pending := s.pending + 1 }
  else { s with phase := enqueueThread s.phase }

def push (s : IoService T) (task : T) : IoService T :=
  { s with taskList := s.taskList ++ [task] }.trigger true

def popTask (s : IoService T) : IoService T :=
  match s.taskList with
  | [] => { s with phase := .wait }
  | task :: tasks => { s with taskList := tasks, phase := .run task }

def waitEvent (s : IoService T) : IoService T :=
  if 0 < s.pending then { s with pending := s.pending - 1, phase := .pop }
  else { s with numListeners := s.numListeners + 1, phase := .asleep }

-- The worker's next step, if it has one: `woken` clears its listener and returns from `wait`.
def work (s : IoService T) : Option (IoService T) :=
  match s.phase with
  | .pop => some s.popTask
  | .run task => some { s with phase := .pop, executed := s.executed ++ [task] }
  | .wait => some s.waitEvent
  | .asleep => none
  | .woken => some { s with numListeners := s.numListeners - 1, phase := .pop }

def Step (s : IoService T) : Action T → IoService T → Prop
  | .push task,t => s.push task = t
  | .work,t => s.work = some t

def Works : IoService T → IoService T → Prop :=
  Relation.ReflTransGen fun s t => s.work = some t

def current (s : IoService T) : List T :=
  match s.phase with
  | .run task => [task]
  | _ => []

def Stuck (s : IoService T) : Prop := s.phase = .asleep ∧ s.taskList ≠ []

structure Served (s : IoService T) (pushed : List T) : Prop where
  order : s.executed ++ s.current ++ s.taskList = pushed
  awake : ∀ u, Works s u → ¬u.Stuck
  done : ∃ u, Works s u ∧ u.executed = pushed

def pushedBy (pushed : List T) : Action T → List T
  | .push task => pushed ++ [task]
  | .work => pushed

def Clear (s : IoService T) : Action T → Prop
  | .push _ => s.phase ≠ .wait
  | .work => True

def listenersOf : Phase T → Nat
  | .asleep => 1
  | .woken => 1
  | _ => 0

def resting : Phase T → Bool
  | .wait => true
  | .asleep => true
  | _ => false

structure Sound (s : IoService T) (pushed : List T) : Prop where
  order : s.executed ++ s.current ++ s.taskList = pushed
  pending : s.pending = 0
  listeners : s.numListeners = listenersOf s.phase
  resting : resting s.phase = true → s.taskList = []

variable {s t u : IoService T} {pushed : List T} {task : T} {a : Action T}

theorem Sound.not_stuck (h : s.Sound pushed) : ¬s.Stuck := by
  rintro ⟨hphase,htasks⟩
  exact htasks (h.resting (by rw [hphase]; rfl))

theorem Sound.work (h : s.Sound pushed) (hw : s.work = some t) : t.Sound pushed := by
  obtain ⟨horder,hpending,hlisten,hrest⟩ := h
  obtain ⟨tasks,pending,listeners,phase,executed⟩ := s
  dsimp only at hpending hlisten hrest
  subst hpending hlisten
  cases phase with
  | pop =>
    cases tasks with
    | nil =>
      cases hw
      exact ⟨horder,rfl,rfl,fun _ => rfl⟩
    | cons task tasks =>
      cases hw
      have hnext : executed ++ [task] ++ tasks = pushed := by simpa [current] using horder
      exact ⟨hnext,rfl,rfl,by rintro ⟨⟩⟩
  | run task =>
    cases hw
    have hnext : executed ++ [task] ++ [] ++ tasks = pushed := by simpa [current] using horder
    exact ⟨hnext,rfl,rfl,by rintro ⟨⟩⟩
  | wait =>
    cases hw
    exact ⟨horder,rfl,rfl,fun _ => hrest rfl⟩
  | asleep => cases hw
  | woken =>
    cases hw
    exact ⟨horder,rfl,rfl,by rintro ⟨⟩⟩

theorem Sound.works (h : s.Sound pushed) (hw : Works s t) : t.Sound pushed := by
  induction hw with
  | refl => exact h
  | tail _ hstep ih => exact ih.work hstep

-- With no listener the event is dropped; otherwise the worker is in `wait` and is woken.
theorem Sound.push (h : s.Sound pushed) (hclear : s.phase ≠ .wait) :
    (s.push task).Sound (pushed ++ [task]) := by
  obtain ⟨horder,hpending,hlisten,hrest⟩ := h
  obtain ⟨tasks,pending,listeners,phase,executed⟩ := s
  dsimp only at hpending hlisten hrest hclear
  subst hpending hlisten
  have happend : ∀ now, executed ++ now ++ tasks = pushed →
      executed ++ now ++ (tasks ++ [task]) = pushed ++ [task] := by
    rintro now rfl
    simp
  cases phase with
  | pop => exact ⟨happend _ horder,rfl,rfl,by rintro ⟨⟩⟩
  | run now => exact ⟨happend _ horder,rfl,rfl,by rintro ⟨⟩⟩
  | wait => exact absurd rfl hclear
  | asleep => exact ⟨happend _ horder,rfl,rfl,by rintro ⟨⟩⟩
  | woken => exact ⟨happend _ horder,rfl,rfl,by rintro ⟨⟩⟩

theorem Sound.step (h : s.Sound pushed) (hclear : s.Clear a) (hstep : Step s a t) :
    t.Sound (pushedBy pushed a) := by
  cases a with
  | push task =>
    cases hstep
    exact h.push hclear
  | work => exact h.work hstep

theorem Sound.drain (h : s.Sound pushed) (hpop : s.phase = .pop) :
    ∃ u, Works s u ∧ u.executed = pushed := by
  obtain ⟨tasks,pending,listeners,phase,executed⟩ := s
  cases hpop
  induction tasks generalizing executed with
  | nil =>
    have horder : executed ++ [] ++ [] = pushed := h.order
    exact ⟨_,.refl,by simpa using horder⟩
  | cons task tasks ih =>
    have hrun : Works ⟨task :: tasks,pending,listeners,.pop,executed⟩
        ⟨tasks,pending,listeners,.pop,executed ++ [task]⟩ :=
      .head (b := ⟨tasks,pending,listeners,.run task,executed⟩) rfl (.single rfl)
    obtain ⟨u,hu,hdone⟩ := ih (executed ++ [task]) (h.works hrun)
    exact ⟨u,hrun.trans hu,hdone⟩

theorem Sound.finish (h : s.Sound pushed) : ∃ u, Works s u ∧ u.executed = pushed := by
  cases hphase : s.phase with
  | pop => exact h.drain hphase
  | run task =>
    have hw : s.work = some { s with phase := .pop, executed := s.executed ++ [task] } := by
      rw [IoService.work,hphase]
    obtain ⟨u,hu,hdone⟩ := (h.work hw).drain rfl
    exact ⟨u,.head hw hu,hdone⟩
  | wait =>
    have horder := h.order
    rw [current,hphase,h.resting (by rw [hphase]; rfl)] at horder
    exact ⟨s,.refl,by simpa using horder⟩
  | asleep =>
    have horder := h.order
    rw [current,hphase,h.resting (by rw [hphase]; rfl)] at horder
    exact ⟨s,.refl,by simpa using horder⟩
  | woken =>
    have hw : s.work = some { s with numListeners := s.numListeners - 1, phase := .pop } := by
      rw [IoService.work,hphase]
    obtain ⟨u,hu,hdone⟩ := (h.work hw).drain rfl
    exact ⟨u,.head hw hu,hdone⟩

theorem Sound.served (h : s.Sound pushed) : s.Served pushed :=
  ⟨h.order,fun _ hu => (h.works hu).not_stuck,h.finish⟩

-- A push that falls into the window is lost: the worker's next step is to fall asleep.
variable (task) in
theorem Sound.lost (h : s.Sound pushed) (hwait : s.phase = .wait) : ∃ u, Works (s.push task) u ∧ u.Stuck := by
  obtain ⟨-,hpending,hlisten,-⟩ := h
  obtain ⟨tasks,pending,listeners,phase,executed⟩ := s
  cases hwait
  cases hpending
  cases hlisten
  refine ⟨⟨tasks ++ [task],0,1,.asleep,executed⟩,.single rfl,rfl,?_⟩
  simp

theorem served_iff_clear (h : s.Sound pushed) (hstep : Step s a t) :
    t.Served (pushedBy pushed a) ↔ s.Clear a := by
  constructor
  · intro hserved
    cases a with
    | push task =>
      cases hstep
      intro hwait
      obtain ⟨u,hu,hstuck⟩ := h.lost task hwait
      exact hserved.awake u hu hstuck
    | work => trivial
  · intro hclear
    exact (h.step hclear hstep).served

def tracking : Tracking (Step (T := T)) pushedBy where
  Inv := Sound
  View := Served
  Ok _ := True
  Safe := Clear
  view_step h _ _ hstep := served_iff_clear h hstep
  inv_step h _ _ hclear hstep := h.step hclear hstep

def boot : IoService T := {}

theorem boot_sound : (boot : IoService T).Sound [] := ⟨rfl,rfl,rfl,by rintro ⟨⟩⟩

theorem served_iff (actions : List (Action T)) :
    (∀ pre, pre <+: actions → ∀ s, Runs Step boot pre s → s.Served (pre.foldl pushedBy [])) ↔
      ∀ pre a, pre ++ [a] <+: actions → ∀ s t, Runs Step boot pre s → Step s a t → s.Clear a :=
  tracking.view_iff_safe (fun _ _ => trivial) boot_sound boot_sound.served

end IoService

theorem push_in_window : ∃ s, Runs IoService.Step (IoService.boot (T := Nat)) [.work,.push 7,.work] s ∧ s.Stuck :=
  ⟨_,⟨_,rfl,_,rfl,_,rfl,rfl⟩,rfl,by decide⟩

end SabaOS.Dev
