import SabaOS.Sched.Machine

namespace SabaOS.Sched

open SabaOS.Lib

structure Thread.Kept where
  process : Pid
  context : Context
  yieldAwait : Bool
  listeners : ListenerVector
  signals : SignalState
  inWait : Bool
  registered : List (Nat × EventId)
  futexAddr : Option Nat

def Thread.kept (thread : Thread) : Thread.Kept :=
  ⟨thread.process,thread.context,thread.yieldAwait,thread.listeners,thread.signals,thread.inWait,
    thread.registered,thread.futexAddr⟩

def Thread.standing (thread : Thread) : ThreadState × Int := (thread.state,thread.enqueuedBySignal)

structure Still (s s' : State) : Prop where
  cpu : s'.cpu = s.cpu
  nodes : s'.nodes = s.nodes
  listenerLinks : s'.listenerLinks = s.listenerLinks
  nextBuffer : s'.nextBuffer = s.nextBuffer
  cellCount : s'.cellCount = s.cellCount
  futexTable : s'.futexTable = s.futexTable
  physicalAddr : s'.memory.physicalAddr = s.memory.physicalAddr
  idleThread : s'.idleThread = s.idleThread
  kernelProcess : s'.kernelProcess = s.kernelProcess
  numListeners : ∀ e, (s'.events e).numListeners = (s.events e).numListeners
  threadLists : ∀ p, (s'.processes p).map (·.threadList) = (s.processes p).map (·.threadList)
  kept : ∀ t, (s'.threads t).map Thread.kept = (s.threads t).map Thread.kept

structure Quiet (s s' : State) : Prop extends Still s s' where
  schedLinks : s'.schedLinks = s.schedLinks
  standing : ∀ t, (s'.threads t).map Thread.standing = (s.threads t).map Thread.standing

structure Wakes (t : Tid) (s s' : State) : Prop extends Still s s' where
  addBefore : s.schedLinks.addBefore none (some t) = some s'.schedLinks
  blocked : (s.threads t).map (·.state) = some .blocked
  ready : (s'.threads t).map (·.state) = some .ready
  others : ∀ u, u ≠ t → (s'.threads u).map Thread.standing = (s.threads u).map Thread.standing

inductive Move (s s' : State) : Prop where
  | quiet (h : Quiet s s')
  | wakes (t : Tid) (h : Wakes t s s')

abbrev Woken := Relation.ReflTransGen Move

structure Unlinks (t : Tid) (st : ThreadState) (s s' : State) : Prop extends Still s s' where
  removed : s.schedLinks.remove (some t) = some s'.schedLinks
  before : ∃ thread, s.threads t = some thread ∧ (thread.state = .ready ∨ thread.state = .running)
  after : (s'.threads t).map (·.state) = some st
  others : ∀ u, u ≠ t → (s'.threads u).map Thread.standing = (s.threads u).map Thread.standing

structure Ends (t : Tid) (s s' : State) : Prop extends Still s s' where
  schedLinks : s'.schedLinks = s.schedLinks
  before : ∃ thread, s.threads t = some thread ∧ (thread.state = .blocked ∨ thread.state = .stopped)
  after : (s'.threads t).map (·.state) = some .zombie
  others : ∀ u, u ≠ t → (s'.threads u).map Thread.standing = (s.threads u).map Thread.standing

structure Conts (t : Tid) (s s' : State) : Prop extends Still s s' where
  addBefore : s.schedLinks.addBefore none (some t) = some s'.schedLinks
  stopped : (s.threads t).map (·.state) = some .stopped
  linked : (s'.threads t).map Thread.standing = some (ThreadState.stopped,(sigCont : Int))
  others : ∀ u, u ≠ t → (s'.threads u).map Thread.standing = (s.threads u).map Thread.standing

structure Calm (s s' : State) : Prop where
  cpu : s'.cpu = s.cpu
  schedLinks : s'.schedLinks = s.schedLinks
  idleThread : s'.idleThread = s.idleThread
  processes : s'.processes = s.processes
  standing : ∀ t, (s'.threads t).map Thread.standing = (s.threads t).map Thread.standing
  context : ∀ t, (s'.threads t).map (·.context) = (s.threads t).map (·.context)

theorem Still.refl (s : State) : Still s s :=
  ⟨rfl,rfl,rfl,rfl,rfl,rfl,rfl,rfl,rfl,fun _ => rfl,fun _ => rfl,fun _ => rfl⟩

theorem Still.trans {s₁ s₂ s₃ : State} (h : Still s₁ s₂) (k : Still s₂ s₃) : Still s₁ s₃ :=
  ⟨k.cpu.trans h.cpu,k.nodes.trans h.nodes,k.listenerLinks.trans h.listenerLinks,
    k.nextBuffer.trans h.nextBuffer,k.cellCount.trans h.cellCount,k.futexTable.trans h.futexTable,
    k.physicalAddr.trans h.physicalAddr,k.idleThread.trans h.idleThread,
    k.kernelProcess.trans h.kernelProcess,fun e => (k.numListeners e).trans (h.numListeners e),
    fun p => (k.threadLists p).trans (h.threadLists p),fun t => (k.kept t).trans (h.kept t)⟩

theorem Calm.refl (s : State) : Calm s s := ⟨rfl,rfl,rfl,rfl,fun _ => rfl,fun _ => rfl⟩

theorem Calm.trans {s₁ s₂ s₃ : State} (h : Calm s₁ s₂) (k : Calm s₂ s₃) : Calm s₁ s₃ :=
  ⟨k.cpu.trans h.cpu,k.schedLinks.trans h.schedLinks,k.idleThread.trans h.idleThread,
    k.processes.trans h.processes,fun t => (k.standing t).trans (h.standing t),
    fun t => (k.context t).trans (h.context t)⟩

theorem Move.still {s s' : State} (h : Move s s') : Still s s' := by
  cases h with
  | quiet h => exact h.toStill
  | wakes t h => exact h.toStill

theorem Woken.still {s s' : State} (h : Woken s s') : Still s s' := by
  induction h with
  | refl => exact .refl s
  | tail _ hm ih => exact ih.trans hm.still

theorem Quiet.woken {s s' : State} (h : Quiet s s') : Woken s s' := .single (.quiet h)

theorem update_map {α β : Type} (f : α → β) (g : Tid → Option α) {t : Tid} {x y : α}
    (hx : g t = some x) (hf : f y = f x) (u : Tid) :
    (Function.update g t (some y) u).map f = (g u).map f := by
  by_cases h : u = t
  · subst h
    simp [hx,hf]
  · simp [h]

namespace State

variable {s s' : State}

theorem setSched_still {links : Links (Option Tid)} : Still s (s.setSched links) :=
  { Still.refl s with }

theorem setThread_still {t : Tid} {thread thread' : Thread} (h : s.threads t = some thread)
    (hk : thread'.kept = thread.kept) : Still s (s.setThread t thread') :=
  { Still.refl s with kept := update_map Thread.kept s.threads h hk }

theorem setThread_quiet {t : Tid} {thread thread' : Thread} (h : s.threads t = some thread)
    (hk : thread'.kept = thread.kept) (hs : thread'.standing = thread.standing) :
    Quiet s (s.setThread t thread') :=
  { setThread_still h hk with
    schedLinks := rfl
    standing := update_map Thread.standing s.threads h hs }

theorem setProcess_quiet {p : Pid} {process process' : Process} (h : s.processes p = some process)
    (ht : process'.threadList = process.threadList) : Quiet s (s.setProcess p process') :=
  { Still.refl s with
    threadLists := update_map (·.threadList) s.processes h ht
    schedLinks := rfl
    standing := fun _ => rfl }

theorem setEvent_quiet {e : EventId} {event : Event}
    (h : event.numListeners = (s.events e).numListeners) : Quiet s (s.setEvent e event) := by
  refine { Still.refl s with numListeners := ?_, schedLinks := rfl, standing := fun _ => rfl }
  intro e'
  by_cases he : e' = e
  · subst he
    simp [setEvent,h]
  · simp [setEvent,he]

theorem setWord_quiet (p : Pid) (a : UInt64) (w : UInt32) : Quiet s (s.setWord p a w) :=
  { Still.refl s with schedLinks := rfl, standing := fun _ => rfl }

theorem enqueueThread_cases {t : Tid} {signal : Int} (h : s.enqueueThread t signal = some s') :
    ∃ thread, s.threads t = some thread ∧
      (s' = s ∧ thread.state ≠ .blocked ∧ (thread.state = .stopped → signal ≠ sigCont) ∨
      ∃ links, s.schedLinks.addBefore none (some t) = some links ∧
        (thread.state = .blocked ∧ s' = (s.setSched links).setThread t
            { thread with enqueuedBySignal := signal, state := .ready } ∨
          thread.state = .stopped ∧ signal = sigCont ∧ s' = (s.setSched links).setThread t
            { thread with enqueuedBySignal := signal })) := by
  simp only [enqueueThread,Option.bind_eq_bind,Option.bind_eq_some_iff] at h
  obtain ⟨thread,ht,h⟩ := h
  refine ⟨thread,ht,?_⟩
  split_ifs at h with h1 h2 h3
  · cases h
    exact .inl ⟨rfl,h1.1,fun hc => absurd hc h1.2⟩
  · cases h
    exact .inl ⟨rfl,by simp [h2.1],fun _ => h2.2⟩
  · simp only [Option.bind_eq_some_iff,Option.pure_def,Option.some.injEq] at h
    obtain ⟨links,hl,rfl⟩ := h
    exact .inr ⟨links,hl,.inl ⟨h3,rfl⟩⟩
  · simp only [Option.bind_eq_some_iff,Option.pure_def,Option.some.injEq] at h
    obtain ⟨links,hl,rfl⟩ := h
    have hs : thread.state = .stopped := by tauto
    exact .inr ⟨links,hl,.inr ⟨hs,by tauto,rfl⟩⟩

theorem enqueueThread_woken {t : Tid} {signal : Int} (h : s.enqueueThread t signal = some s')
    (hs : (s.threads t).map (·.state) = some .stopped → signal ≠ sigCont) : Woken s s' := by
  obtain ⟨thread,ht,⟨rfl,-,-⟩ | ⟨links,hl,⟨hb,rfl⟩ | ⟨hst,hc,-⟩⟩⟩ := enqueueThread_cases h
  · exact .refl
  · refine .single (.wakes t ⟨?_,hl,by simp [ht,hb],by simp [setThread],?_⟩)
    · exact setSched_still.trans (setThread_still ht rfl)
    · intro u hu
      simp [setThread,setSched,hu]
  · exact absurd hc (hs (by simp [ht,hst]))

theorem enqueueThread_conts {t : Tid} (h : s.enqueueThread t sigCont = some s')
    (hs : (s.threads t).map (·.state) = some .stopped) : Conts t s s' := by
  obtain ⟨thread,ht,h⟩ := enqueueThread_cases h
  simp only [ht,Option.map_some,Option.some.injEq] at hs
  obtain ⟨rfl,-,hc⟩ | ⟨links,hl,⟨hb,-⟩ | ⟨-,-,rfl⟩⟩ := h
  · exact absurd rfl (hc hs)
  · exact absurd (hs.symm.trans hb) (by simp)
  · refine ⟨?_,hl,by simp [ht,hs],?_,?_⟩
    · exact setSched_still.trans (setThread_still ht (by rfl))
    · simp [setThread,Thread.standing,hs]
    · intro u hu
      simp [setThread,setSched,hu]

theorem wake_woken {listener : Listener} (h : s.wake listener = some s') : Woken s s' := by
  simp only [wake,Option.bind_eq_bind,Option.bind_eq_some_iff] at h
  obtain ⟨thread,ht,h⟩ := h
  refine .trans ?_ (enqueueThread_woken h fun _ => by decide)
  exact (setThread_quiet ht (by rfl) (by rfl)).woken

theorem triggerLoop_woken {e : EventId} {maxToWake : Int} {fuel woken n : Nat}
    {pos : ListenerAddr} {next : Option ListenerAddr}
    (h : triggerLoop e maxToWake fuel s pos next woken = some (s',n)) : Woken s s' := by
  induction fuel generalizing s pos next woken with
  | zero => simp [triggerLoop] at h
  | succ fuel ih =>
    unfold triggerLoop at h
    split at h
    · cases h
      exact .refl
    · split at h
      · cases h
      · simp only [Option.bind_eq_bind,Option.bind_eq_some_iff] at h
        obtain ⟨s₁,hw,h⟩ := h
        split at h
        · cases h
          exact wake_woken hw
        · simp only [Option.bind_eq_some_iff] at h
          obtain ⟨pos',-,h⟩ := h
          exact (wake_woken hw).trans (ih h)

theorem trigger_woken {e : EventId} {drop : Bool} {maxToWake : Int} {n : Nat}
    (h : s.trigger e drop maxToWake = some (s',n)) : Woken s s' := by
  unfold trigger at h
  split_ifs at h
  · cases h
    exact .refl
  · cases h
    exact (setEvent_quiet (by rfl)).woken
  · simp only [Option.bind_eq_bind,Option.bind_eq_some_iff] at h
    obtain ⟨pos,-,h⟩ := h
    exact triggerLoop_woken h

theorem sendSignal_woken {t : Tid} {signal : Nat} (h : s.sendSignal t signal = some s')
    (hs : (s.threads t).map (·.state) = some .stopped → signal ≠ sigCont) : Woken s s' := by
  simp only [sendSignal,Option.bind_eq_bind,Option.bind_eq_some_iff,Option.pure_def] at h
  obtain ⟨thread,ht,s₁,he,⟨s₂,n⟩,hg,h⟩ := h
  cases h
  refine .trans (.trans ?_ (enqueueThread_woken he ?_)) (trigger_woken hg)
  · exact (setThread_quiet ht (by rfl) (by rfl)).woken
  · intro hc
    have := hs (by simpa [setThread,ht] using hc)
    exact_mod_cast this

theorem sendProcessSignal_woken {p : Pid} {signal : Nat} (hs : signal ≠ sigCont)
    (h : s.sendProcessSignal p signal = some s') : Woken s s' := by
  simp only [sendProcessSignal,Option.bind_eq_bind,Option.bind_eq_some_iff] at h
  obtain ⟨t,-,h⟩ := h
  exact sendSignal_woken h fun _ => hs

theorem notifyStop_woken {p : Pid} {signal : Nat} (h : s.notifyStop p signal = some s') :
    Woken s s' := by
  simp only [notifyStop,Option.bind_eq_bind,Option.bind_eq_some_iff,Option.pure_def] at h
  obtain ⟨process,hp,⟨s₁,n⟩,hg,_,-,q,-,parent,-,h⟩ := h
  refine .trans (.trans ?_ (trigger_woken hg)) ?_
  · exact (setProcess_quiet hp (by rfl)).woken
  · split_ifs at h
    · exact sendProcessSignal_woken (by decide) h
    · cases h
      exact .refl

theorem setParent_woken {child newParent : Pid} (h : s.setParent child newParent = some s') :
    Woken s s' := by
  simp only [setParent,Option.bind_eq_bind,Option.bind_eq_some_iff,Option.pure_def] at h
  obtain ⟨process,hp,s₁,hold,process₁,hp₁,parent,hq,h⟩ := h
  cases h
  refine .trans (.trans ?_ (setProcess_quiet hp₁ (by rfl)).woken) (setProcess_quiet hq (by rfl)).woken
  cases hq : process.parent with
  | none =>
    rw [hq] at hold
    cases hold
    exact .refl
  | some old =>
    simp only [hq,leaveParent,Option.bind_eq_bind,Option.bind_eq_some_iff,Option.pure_def] at hold
    obtain ⟨oldProcess,ho,hold⟩ := hold
    cases hold
    exact (setProcess_quiet ho (by rfl)).woken

theorem foldlM_woken {α : Type} {f : State → α → Option State} {l : List α}
    (hf : ∀ s s' a, f s a = some s' → Woken s s') (h : l.foldlM f s = some s') : Woken s s' := by
  induction l generalizing s with
  | nil =>
    cases h
    exact .refl
  | cons a l ih =>
    simp only [List.foldlM_cons,Option.bind_eq_bind,Option.bind_eq_some_iff] at h
    obtain ⟨s₁,ha,h⟩ := h
    exact (hf s s₁ a ha).trans (ih h)

theorem triggerAll_woken {events : List (EventId × Bool)} (h : s.triggerAll events = some s') :
    Woken s s' := by
  refine foldlM_woken ?_ h
  intro s s' e he
  simp only [Option.map_eq_some_iff] at he
  obtain ⟨⟨s₁,n⟩,hg,rfl⟩ := he
  exact trigger_woken hg

theorem zombify_woken {p : Pid} {terminateSignal : Option Nat}
    (h : s.zombify p terminateSignal = some s') : Woken s s' := by
  simp only [zombify,Option.bind_eq_bind,Option.bind_eq_some_iff] at h
  obtain ⟨process,hp,h⟩ := h
  split_ifs at h
  simp only [Option.bind_eq_some_iff] at h
  obtain ⟨s₁,hc,s₂,hall,process₂,hp₂,⟨s₃,n⟩,hg,_,-,q,-,h⟩ := h
  have hstart : Woken s _ := .trans (.trans ?_ (foldlM_woken (fun _ _ _ => setParent_woken) hc))
    (triggerAll_woken hall)
  · refine (hstart.trans ?_).trans ((trigger_woken hg).trans (sendProcessSignal_woken (by decide) h))
    exact (setProcess_quiet hp₂ (by rfl)).woken
  · refine (setProcess_quiet hp ?_).woken
    split <;> rfl

theorem futexWake_woken {uaddr : UInt64} {maxToWake n : Int}
    (h : s.futexWake uaddr maxToWake = some (s',n)) : Woken s s' := by
  simp only [futexWake,Option.bind_eq_bind,Option.bind_eq_some_iff] at h
  obtain ⟨t,-,thread,-,h⟩ := h
  split at h
  · cases h
    exact .refl
  · split_ifs at h
    · simp only [Option.bind_eq_some_iff] at h
      obtain ⟨⟨s₁,k⟩,hg,h⟩ := h
      cases h
      exact trigger_woken hg
    · cases h
      exact .refl

theorem terminateRest_woken {p : Pid} {living : Int} {addr : UInt64} {terminateSignal : Option Nat}
    (h : (if living = 0 then s.zombify p terminateSignal
      else if addr ≠ 0 then
        if s.cpu.activePagemap = some p then
          ((s.setWord p addr 0).futexWake addr 1).bind fun r => pure r.1
        else none
      else pure s) = some s') : Woken s s' := by
  split_ifs at h
  · exact zombify_woken h
  · simp only [Option.bind_eq_some_iff] at h
    obtain ⟨⟨s₁,n⟩,hf,h⟩ := h
    cases h
    exact (setWord_quiet _ _ _).woken.trans (futexWake_woken hf)
  · cases h
    exact .refl

theorem sendSignal_cases {t : Tid} {signal : Nat} (h : s.sendSignal t signal = some s') :
    Woken s s' ∨ signal = sigCont ∧ ∃ s₁ s₂, Quiet s s₁ ∧ Conts t s₁ s₂ ∧ Woken s₂ s' := by
  by_cases hw : (s.threads t).map (·.state) = some .stopped → signal ≠ sigCont
  · exact .inl (sendSignal_woken h hw)
  · rw [Classical.not_imp,not_not] at hw
    obtain ⟨hst,rfl⟩ := hw
    refine .inr ⟨rfl,?_⟩
    simp only [sendSignal,Option.bind_eq_bind,Option.bind_eq_some_iff,Option.pure_def] at h
    obtain ⟨thread,ht,s₁,he,⟨s₂,n⟩,hg,h⟩ := h
    cases h
    simp only [ht,Option.map_some,Option.some.injEq] at hst
    refine ⟨_,s₁,setThread_quiet ht (by rfl) (by rfl),enqueueThread_conts he ?_,trigger_woken hg⟩
    simp [setThread,hst]

theorem dequeueThread_cases {t : Tid} {stopSignal : Option Nat}
    (h : s.dequeueThread t stopSignal = some s') :
    ∃ s₁, Woken s₁ s' ∧ Unlinks t (if stopSignal.isSome then .stopped else .blocked) s s₁ := by
  simp only [dequeueThread,Option.bind_eq_bind,Option.bind_eq_some_iff] at h
  obtain ⟨thread,ht,h⟩ := h
  split_ifs at h with hst
  simp only [Option.bind_eq_some_iff] at h
  obtain ⟨links,hl,h⟩ := h
  have hu : ∀ st, Unlinks t st s ((s.setSched links).setThread t { thread with state := st }) := by
    intro st
    refine ⟨setSched_still.trans (setThread_still ht (by rfl)),hl,⟨thread,ht,hst⟩,?_,?_⟩
    · simp [setThread]
    · intro u hu
      simp [setThread,setSched,hu]
  cases stopSignal with
  | none =>
    cases h
    exact ⟨_,.refl,hu .blocked⟩
  | some signal => exact ⟨_,notifyStop_woken h,hu .stopped⟩

theorem terminateThread_cases {t : Tid} {terminateSignal : Option Nat}
    (h : s.terminateThread t terminateSignal = some s') :
    s' = s ∨ ∃ s₁, Woken s₁ s' ∧ (Unlinks t .zombie s s₁ ∨ Ends t s s₁) := by
  simp only [terminateThread,Option.bind_eq_bind,Option.bind_eq_some_iff] at h
  obtain ⟨thread,ht,h⟩ := h
  split at h
  · cases h
    exact .inl rfl
  · rename_i hz
    simp only [Option.bind_eq_some_iff] at h
    obtain ⟨links,hl,process,hp,h⟩ := h
    refine .inr ⟨(s.setSched links).setThread t { thread with state := .zombie },?_,?_⟩
    · refine .trans (setProcess_quiet hp ?_).woken (terminateRest_woken h)
      rfl
    · have hstill : Still s ((s.setSched links).setThread t { thread with state := .zombie }) :=
        setSched_still.trans (setThread_still ht (by rfl))
      have hothers : ∀ u, u ≠ t → (((s.setSched links).setThread t { thread with
          state := .zombie }).threads u).map Thread.standing = (s.threads u).map Thread.standing := by
        intro u hu
        simp [setThread,setSched,hu]
      unfold unlinkRunnable at hl
      split_ifs at hl with hr
      · exact .inl ⟨hstill,hl,⟨thread,ht,hr⟩,by simp [setThread],hothers⟩
      · cases hl
        refine .inr ⟨hstill,rfl,⟨thread,ht,?_⟩,by simp [setThread],hothers⟩
        cases hs : thread.state <;> simp_all

theorem setThread_calm {t : Tid} {thread thread' : Thread} (h : s.threads t = some thread)
    (hs : thread'.standing = thread.standing) (hc : thread'.context = thread.context) :
    Calm s (s.setThread t thread') :=
  ⟨rfl,rfl,rfl,rfl,update_map Thread.standing s.threads h hs,update_map (·.context) s.threads h hc⟩

theorem moveNodes_calm (src dst n : Nat) :
    (s.moveNodes src dst n).threads = s.threads ∧ Calm s (s.moveNodes src dst n) := by
  induction n with
  | zero => exact ⟨rfl,.refl s⟩
  | succ n ih =>
    have hone : Calm (s.moveNodes src dst n) (s.moveNodes src dst (n + 1)) :=
      ⟨rfl,rfl,rfl,rfl,fun _ => rfl,fun _ => rfl⟩
    exact ⟨ih.1,ih.2.trans hone⟩

theorem allocate_calm (cells : Nat) : Calm s (s.allocate cells) :=
  ⟨rfl,rfl,rfl,rfl,fun _ => rfl,fun _ => rfl⟩

theorem reserveInternal_calm (v : ListenerVector) (newCap : Nat) :
    (s.reserveInternal v newCap).1.threads = s.threads ∧ Calm s (s.reserveInternal v newCap).1 := by
  by_cases hc : newCap ≤ v.capacity
  · rw [reserveInternal,if_pos hc]
    exact ⟨rfl,.refl s⟩
  · rw [reserveInternal,if_neg hc]
    dsimp only [moveBuffer]
    split
    · exact ⟨(moveNodes_calm _ _ _).1,(allocate_calm _).trans (moveNodes_calm _ _ _).2⟩
    · exact ⟨rfl,allocate_calm _⟩

theorem register_calm {t : Tid} {e : EventId} {which : Nat} (h : s.register t e which = some s') :
    Calm s s' := by
  simp only [register,emplaceBack,Option.bind_eq_bind,Option.bind_eq_some_iff,Option.pure_def] at h
  obtain ⟨⟨s₁,a⟩,⟨thread,ht,b,hb,he⟩,links,hl,h⟩ := h
  cases h
  cases he
  obtain ⟨hthreads,hcalm⟩ := reserveInternal_calm (s := s) thread.listeners (thread.listeners.size + 1)
  rw [← hthreads] at ht
  refine hcalm.trans ⟨rfl,rfl,rfl,rfl,?_,?_⟩
  · intro u
    exact update_map Thread.standing _ ht (by rfl) u
  · intro u
    exact update_map (fun th : Thread => th.context) _ ht (by rfl) u

theorem registerAll_calm {t : Tid} {i : Nat} {events : List (Option EventId)}
    (h : registerAll t i events s = some s') : Calm s s' := by
  induction events generalizing i s with
  | nil =>
    cases h
    exact .refl _
  | cons e es ih =>
    cases e with
    | none => exact ih h
    | some e =>
      simp only [registerAll,Option.bind_eq_bind,Option.bind_eq_some_iff] at h
      obtain ⟨s₁,h₁,h⟩ := h
      exact (register_calm h₁).trans (ih h)

theorem clearOne_calm {b i : Nat} (h : s.clearOne b i = some s') :
    s'.threads = s.threads ∧ Calm s s' := by
  unfold clearOne at h
  split at h
  · cases h
    exact ⟨rfl,.refl s⟩
  · simp only [Option.bind_eq_bind,Option.bind_eq_some_iff,Option.pure_def] at h
    obtain ⟨links,-,h⟩ := h
    cases h
    exact ⟨rfl,rfl,rfl,rfl,rfl,fun _ => rfl,fun _ => rfl⟩

theorem clearLoop_calm {b i n : Nat} (h : clearLoop b i n s = some s') :
    s'.threads = s.threads ∧ Calm s s' := by
  induction n generalizing i s with
  | zero =>
    cases h
    exact ⟨rfl,.refl _⟩
  | succ n ih =>
    simp only [clearLoop,Option.bind_eq_bind,Option.bind_eq_some_iff] at h
    obtain ⟨s₁,h₁,h⟩ := h
    obtain ⟨ht₁,hc₁⟩ := clearOne_calm h₁
    obtain ⟨ht,hc⟩ := ih h
    exact ⟨ht.trans ht₁,hc₁.trans hc⟩

theorem clearListeners_calm {t : Tid} (h : s.clearListeners t = some s') : Calm s s' := by
  simp only [clearListeners,Option.bind_eq_bind,Option.bind_eq_some_iff,Option.pure_def] at h
  obtain ⟨thread,ht,s₁,h₁,h⟩ := h
  cases h
  have hclear : s₁.threads = s.threads ∧ Calm s s₁ := by
    unfold clearVector at h₁
    split at h₁
    · exact clearLoop_calm h₁
    · cases h₁
      exact ⟨rfl,.refl s⟩
  exact hclear.2.trans (setThread_calm (hclear.1 ▸ ht) (by rfl) (by rfl))

theorem finishWait_calm {t : Tid} {n : Int} (h : s.finishWait t = some (s',n)) : Calm s s' := by
  simp only [finishWait,Option.bind_eq_bind,Option.bind_eq_some_iff,Option.pure_def] at h
  obtain ⟨s₁,h₁,thread,ht,h⟩ := h
  cases h
  exact (clearListeners_calm h₁).trans (setThread_calm ht (by rfl) (by rfl))

theorem takePending_calm {i j : Nat} {events : List (Option EventId)}
    (h : s.takePending i events = some (s',j)) : Calm s s' := by
  induction events generalizing i with
  | nil => cases h
  | cons e es ih =>
    cases e with
    | none => exact ih h
    | some e =>
      unfold takePending at h
      split_ifs at h
      · cases h
        exact ⟨rfl,rfl,rfl,rfl,fun _ => rfl,fun _ => rfl⟩
      · exact ih h

theorem wait_outcome {events : List (Option EventId)} {nonblocking : Bool} {ret : Option Int}
    (h : s.wait events nonblocking = some (s',ret)) :
    ∃ t thread, s.cpu.runningThread = some t ∧ s.threads t = some thread ∧
      (thread.hasPendingSignals = true ∧ ret = some (-eintr) ∧ s' = s ∨
      thread.hasPendingSignals = false ∧
        ((∃ i : Nat, s.takePending 0 events = some (s',i) ∧ ret = some (i : Int)) ∨
        s.takePending 0 events = none ∧
          (nonblocking = true ∧ ret = some (-eagain) ∧ s' = s ∨
          nonblocking = false ∧ thread.listeners.size = 0 ∧ ret = none ∧
            ∃ s₁ s₂ thread₂, registerAll t 0 events s = some s₁ ∧ s₁.dequeueThread t none = some s₂ ∧
              s₂.threads t = some thread₂ ∧ s' = s₂.setThread t
                { thread₂ with inWait := true, yieldAwait := true, registered := slots 0 events }))) := by
  simp only [wait,Option.bind_eq_bind,Option.bind_eq_some_iff] at h
  obtain ⟨t,hrun,thread,ht,h⟩ := h
  refine ⟨t,thread,hrun,ht,?_⟩
  cases hsig : thread.hasPendingSignals with
  | true =>
    rw [hsig] at h
    cases h
    exact .inl ⟨rfl,rfl,rfl⟩
  | false =>
    rw [hsig,if_neg Bool.false_ne_true] at h
    refine .inr ⟨rfl,?_⟩
    cases hp : s.takePending 0 events with
    | some out =>
      rw [hp] at h
      cases h
      exact .inl ⟨out.2,rfl,rfl⟩
    | none =>
      rw [hp] at h
      refine .inr ⟨rfl,?_⟩
      dsimp only at h
      split_ifs at h with hn hsize
      · cases h
        exact .inl ⟨hn,rfl,rfl⟩
      · simp only [Option.bind_eq_some_iff,Option.pure_def] at h
        obtain ⟨s₁,h₁,s₂,h₂,thread₂,ht₂,h⟩ := h
        cases h
        exact .inr ⟨by simpa using hn,hsize,rfl,s₁,s₂,thread₂,h₁,h₂,ht₂,rfl⟩

theorem wait_sched {events : List (Option EventId)} {nonblocking : Bool} {ret : Option Int}
    (h : s.wait events nonblocking = some (s',ret)) :
    Calm s s' ∨ ∃ t s₁ s₂, Calm s s₁ ∧ s₁.dequeueThread t none = some s₂ ∧ Calm s₂ s' := by
  obtain ⟨t,thread,-,-,⟨-,-,rfl⟩ | ⟨-,⟨i,hp,-⟩ | ⟨-,⟨-,-,rfl⟩ | ⟨-,-,-,s₁,s₂,thread₂,h₁,h₂,ht₂,rfl⟩⟩⟩⟩ :=
    wait_outcome h
  · exact .inl (.refl _)
  · exact .inl (takePending_calm hp)
  · exact .inl (.refl _)
  · exact .inr ⟨t,s₁,s₂,registerAll_calm h₁,h₂,setThread_calm ht₂ (by rfl) (by rfl)⟩

theorem openFutex_calm (t : Tid) (phyAddr : Nat) (timeout : Bool) :
    Calm s (s.openFutex t phyAddr timeout) := by
  unfold openFutex
  dsimp only
  split_ifs
  · exact ⟨rfl,rfl,rfl,rfl,fun _ => rfl,fun _ => rfl⟩
  · exact ⟨rfl,rfl,rfl,rfl,fun _ => rfl,fun _ => rfl⟩

theorem futexWait_sched {uaddr : UInt64} {expected : UInt32} {timeout : Bool} {ret : Option Int}
    (h : s.futexWait uaddr expected timeout = some (s',ret)) :
    Calm s s' ∨ ∃ t s₁ s₂, Calm s s₁ ∧ s₁.dequeueThread t none = some s₂ ∧ Calm s₂ s' := by
  simp only [futexWait,Option.bind_eq_bind,Option.bind_eq_some_iff] at h
  obtain ⟨t,hrun,thread,ht,h⟩ := h
  split at h
  · cases h
    exact .inl (.refl _)
  · split at h
    · cases h
      exact .inl (.refl _)
    · rename_i phyAddr hphy
      simp only [Option.bind_eq_some_iff] at h
      obtain ⟨⟨s₁,ret₁⟩,hw,h⟩ := h
      have hstart := openFutex_calm (s := s) t phyAddr timeout
      have hend : Calm s₁ s' := by
        cases ret₁ with
        | some r =>
          cases h
          exact .refl _
        | none =>
          simp only [Option.bind_eq_some_iff,Option.pure_def] at h
          obtain ⟨thread₁,ht₁,h⟩ := h
          cases h
          exact setThread_calm ht₁ (by rfl) (by rfl)
      rcases wait_sched hw with hc | ⟨u,s₂,s₃,hc,hd,hc'⟩
      · exact .inl ((hstart.trans hc).trans hend)
      · exact .inr ⟨u,s₂,s₃,hstart.trans hc,hd,hc'.trans hend⟩

end State

end SabaOS.Sched
