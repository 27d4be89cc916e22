import SabaOS.Sched.QueueRun

namespace SabaOS.Sched

open SabaOS.Lib

structure Booted (m : Machine) : Prop where
  retrying : m.retrying = false
  running : m.state.cpu.runningThread = none
  queue : ∃ q : List Tid, m.state.schedLinks.Ring none (q.map some) ∧
    (∀ t, t ∉ q → m.state.schedLinks (some t) = .null) ∧
    (∀ t, (m.state.threads t).isSome ↔ t ∈ q ∨ t = m.state.idleThread) ∧ m.state.idleThread ∉ q
  ready : ∀ t thread, m.state.threads t = some thread → thread.state = .ready ∧
    thread.listeners = {} ∧ thread.registered = [] ∧ thread.inWait = false ∧ thread.futexAddr = none
  heads : ∀ e, m.state.listenerLinks (.head e) = ⟨some (.head e),some (.head e)⟩ ∧
    (m.state.events e).numListeners = 0

def Step (m m' : Machine) : Prop := ∃ op, m.step op = some m'

def QueueStep (m m' : Machine) : Prop := ∃ op, OpSafe m.state op ∧ m.step op = some m'

theorem Booted.queued {m : Machine} (hb : Booted m) : ∃ q, Queued m.state q := by
  obtain ⟨q,hring,hfree,hmem,hidle⟩ := hb.queue
  have hready : ∀ t, (m.state.threads t).isSome → m.state.stateOf t = some .ready := by
    intro t ht
    obtain ⟨thread,ht⟩ := Option.isSome_iff_exists.mp ht
    simp [State.stateOf,ht,(hb.ready t thread ht).1]
  have hstate : ∀ t st, m.state.stateOf t = some st → (m.state.threads t).isSome := by
    intro t st h
    simp only [State.stateOf,Option.map_eq_some_iff] at h
    obtain ⟨thread,ht,-⟩ := h
    simp [ht]
  refine ⟨q,hring,hfree,hidle,.inl (hready _ ((hmem _).mpr (.inr rfl))),?_,?_,?_⟩
  · intro t hne hr
    have hs : (m.state.threads t).isSome := by
      rcases hr with hr | hr
      · exact hstate t _ hr
      · exact hstate t _ hr
    exact ((hmem t).mp hs).resolve_right hne
  · intro t hr
    have hs : (m.state.threads t).isSome := by
      rcases hr with hr | hr
      · exact hstate t _ hr
      · exact hstate t _ hr
    simp [hready t hs] at hr
  · intro t ht
    simp [hready t ((hmem t).mpr (.inl ht))]

theorem Queued.step {m m' : Machine} {q : List Tid} (hq : Queued m.state q)
    (h : QueueStep m m') : ∃ q', Queued m'.state q' := by
  obtain ⟨op,hsafe,h⟩ := h
  cases op with
  | interrupt =>
    simp only [Machine.step,Option.bind_eq_bind,Option.bind_eq_some_iff,Option.pure_def] at h
    obtain ⟨⟨s,retry⟩,hp,h⟩ := h
    cases h
    exact hq.schedulerPass hsafe hp
  | _ =>
    simp only [Machine.step] at h
    split_ifs at h
    simp only [Option.map_eq_some_iff] at h
    obtain ⟨s,hc,rfl⟩ := h
    exact hq.call hsafe hc

theorem queue_reach {m₀ m : Machine} (hb : Booted m₀)
    (hrun : Relation.ReflTransGen QueueStep m₀ m) : ∃ q, Queued m.state q := by
  induction hrun with
  | refl => exact hb.queued
  | tail _ hstep ih =>
    obtain ⟨q,hq⟩ := ih
    exact hq.step hstep

def RunQueueOk (s : State) : Prop :=
  ∃ q : List Tid, s.schedLinks.Ring none (q.map some) ∧
    ∀ t thread, s.threads t = some thread →
      (thread.state = .blocked ∨ thread.state = .zombie → t ∉ q) ∧
      (t ≠ s.idleThread → thread.state = .ready ∨ thread.state = .running → t ∈ q)

theorem run_queue_kept {m₀ m : Machine} (hb : Booted m₀)
    (hrun : Relation.ReflTransGen QueueStep m₀ m) : RunQueueOk m.state := by
  obtain ⟨q,hq⟩ := queue_reach hb hrun
  refine ⟨q,hq.ring,?_⟩
  intro t thread ht
  refine ⟨?_,?_⟩
  · intro hst
    exact hq.off t (by simpa [State.stateOf,ht] using hst)
  · intro hidle hst
    exact hq.runnable t hidle (by simpa [State.stateOf,ht] using hst)

def Machine.runOps (m : Machine) (ops : List Op) : Option Machine := ops.foldlM Machine.step m

theorem runOps_reaches {m m' : Machine} (ops : List Op) (h : m.runOps ops = some m') :
    Relation.ReflTransGen Step m m' := by
  induction ops generalizing m with
  | nil =>
    cases h
    exact .refl
  | cons op ops ih =>
    simp only [Machine.runOps,List.foldlM_cons,Option.bind_eq_bind,Option.bind_eq_some_iff] at h
    obtain ⟨m₁,h₁,h⟩ := h
    exact .head ⟨op,h₁⟩ (ih h)

def blankMemory : Memory where
  word _ _ := 0
  frame _ _ := {}
  fpstate _ _ := []
  physicalAddr _ addr := some (addr.toNat / 4096 * 4096)

-- process 2 is the kernel's, with the idle thread 3; process 1 is init
def bootMachine : Machine where
  retrying := false
  state :=
    { threads := fun t => if t = 3 then some { process := 2, state := .ready } else none
      processes := fun p =>
        if p = 1 then some { threadList := [], numLivingThreads := 0, parent := some 1 }
        else if p = 2 then some { threadList := [3], numLivingThreads := 1 }
        else none
      schedLinks := Links.init (fun _ => .null) none
      events := fun _ => {}
      nodes := fun _ _ => {}
      listenerLinks := fun a => match a with
        | .head e => ⟨some (.head e),some (.head e)⟩
        | .node _ _ => .null
      nextBuffer := 0
      cellCount := 0
      futexTable := []
      memory := blankMemory
      cpu := {}
      idleThread := 3
      kernelProcess := 2
      initProcess := 1
      extendedStateSize := 832 }

theorem bootMachine_booted : Booted bootMachine := by
  refine ⟨rfl,rfl,⟨[],Links.Ring.nil_init _ none,?_,?_,by simp⟩,?_,?_⟩
  · intro t _
    simp [bootMachine,Links.init]
  · intro t
    by_cases h : t = 3
    · simp [bootMachine,h]
    · simp [bootMachine,h]
  · intro t thread ht
    simp only [bootMachine] at ht
    split_ifs at ht
    cases ht
    exact ⟨rfl,rfl,rfl,rfl,rfl⟩
  · intro e
    exact ⟨rfl,rfl⟩

def userContext (rip : UInt64) : Context where
  gprState := { cs := 0x23, rip := rip, rflags := 0x202 }
  extendedState := some []

def initSpawned : Machine :=
  (bootMachine.step (.spawn 1 1 (userContext 0x1000) {})).get (by decide +kernel)

def initBlocked : Machine := (initSpawned.step (.dequeue 1 none)).get (by decide +kernel)

def initWoken : Machine := (initBlocked.step (.enqueue 1 (-1))).get (by decide +kernel)

theorem run_queue_kept_woken :
    Relation.ReflTransGen QueueStep bootMachine initWoken ∧ RunQueueOk initWoken.state := by
  have h₁ : QueueStep bootMachine initSpawned :=
    ⟨.spawn 1 1 (userContext 0x1000) {},trivial,(Option.some_get _).symm⟩
  have h₂ : QueueStep initSpawned initBlocked := ⟨.dequeue 1 none,trivial,(Option.some_get _).symm⟩
  have h₃ : QueueStep initBlocked initWoken :=
    ⟨.enqueue 1 (-1),fun h => absurd h (by decide),(Option.some_get _).symm⟩
  have hrun := ((Relation.ReflTransGen.single h₁).tail h₂).tail h₃
  exact ⟨hrun,run_queue_kept bootMachine_booted hrun⟩

-- init forks 4; 4 takes SIGSTOP; init sends it SIGCONT, forks 5 and sends SIGCONT once more
def contTwice : List Op :=
  [.spawn 1 1 (userContext 0x1000) {},.interrupt,.spawn 4 4 (userContext 0x4000) {},
    .sendSignal 4 19,.interrupt,.adjust 4 { enteringSignal := true },.interrupt,.interrupt,.interrupt,
    .sendSignal 4 18,.spawn 5 5 (userContext 0x5000) {},.sendSignal 4 18]

def contMachine : Machine := (bootMachine.runOps contTwice).get (by decide +kernel)

theorem run_queue_broken : Booted bootMachine ∧
    Relation.ReflTransGen Step bootMachine contMachine ∧ ¬RunQueueOk contMachine.state := by
  refine ⟨bootMachine_booted,runOps_reaches contTwice (Option.some_get _).symm,?_⟩
  rintro ⟨q,hring,hq⟩
  have hidle : 5 ≠ contMachine.state.idleThread := by decide +kernel
  have hready : (contMachine.state.threads 5).map (·.state) = some .ready := by decide +kernel
  have hprev : (contMachine.state.schedLinks (some 5)).prev = some (some 4) := by decide +kernel
  have hnext : (contMachine.state.schedLinks (some 4)).next = some none := by decide +kernel
  rw [Option.map_eq_some_iff] at hready
  obtain ⟨thread,ht,hst⟩ := hready
  have hm : 5 ∈ q := (hq 5 thread ht).2 hidle (.inl hst)
  obtain ⟨p,hp1,hp2⟩ := hring.prev_joined (List.mem_map_of_mem hm)
  obtain rfl : some 4 = p := Option.some.inj (hprev.symm.trans hp2)
  exact absurd (hnext.symm.trans hp1) (by simp)

end SabaOS.Sched
