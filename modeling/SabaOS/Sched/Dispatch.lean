import SabaOS.Sched.Moves

namespace SabaOS.Sched

inductive Disposition where
  | keep
  | terminate
  | stop
  | handle
deriving DecidableEq, Repr

def disposition (signal : Nat) (action : KernelSigaction) : Disposition :=
  if action.handler = sigIgn then .keep
  else if action.handler = sigDfl then
    match signalDefaultAction signal with
    | .ignore => .keep
    | .terminate => .terminate
    | .core => .terminate
    | .cont => .keep
    | .stop => .stop
  else if action.restorer = 0 then .terminate
  else .handle

def Thread.disposition (thread : Thread) (actions : Nat → KernelSigaction) : Disposition :=
  match thread.nextSignal with
  | none => .keep
  | some signal => Sched.disposition signal (actions signal)

def Thread.signalled (thread : Thread) (actions : Nat → KernelSigaction)
    (extendedStateSize : UInt64) : Context :=
  match thread.nextSignal with
  | none => thread.context
  | some signal =>
    let action := actions signal
    let handler := if action.flags &&& saResetHand ≠ 0 then sigDfl else action.handler
    let restarted := (thread.beginDispatch.takeSignal signal).restartSyscall action
    match Sched.disposition signal action with
    | .handle =>
      (restarted.enterHandler signal action handler (frameAddr extendedStateSize restarted action)).context
    | _ => restarted.context

structure SameStore (s s' : State) : Prop where
  nodes : s'.nodes = s.nodes
  listenerLinks : s'.listenerLinks = s.listenerLinks
  events : s'.events = s.events
  nextBuffer : s'.nextBuffer = s.nextBuffer
  cellCount : s'.cellCount = s.cellCount
  futexTable : s'.futexTable = s.futexTable

theorem SameStore.trans {s₁ s₂ s₃ : State} (h : SameStore s₁ s₂) (k : SameStore s₂ s₃) :
    SameStore s₁ s₃ :=
  ⟨k.nodes.trans h.nodes,k.listenerLinks.trans h.listenerLinks,k.events.trans h.events,
    k.nextBuffer.trans h.nextBuffer,k.cellCount.trans h.cellCount,k.futexTable.trans h.futexTable⟩

def Thread.station (thread : Thread) : ListenerVector × List (Nat × EventId) × Bool × Option Nat :=
  (thread.listeners,thread.registered,thread.inWait,thread.futexAddr)

structure Local (t : Tid) (s s' : State) : Prop where
  cpu : s'.cpu = s.cpu
  schedLinks : s'.schedLinks = s.schedLinks
  idleThread : s'.idleThread = s.idleThread
  threadLists : ∀ p, (s'.processes p).map (·.threadList) = (s.processes p).map (·.threadList)
  others : ∀ u, u ≠ t → s'.threads u = s.threads u
  store : SameStore s s'

structure Dispatched (t : Tid) (s s' : State) (thread thread' : Thread) (process : Process) : Prop
    extends Local t s s' where
  before : s.threads t = some thread
  after : s'.threads t = some thread'
  state : thread'.state = thread.state
  station : thread'.station = thread.station
  context : thread'.context = thread.signalled process.signalActions s.extendedStateSize

theorem Local.trans {t : Tid} {s₁ s₂ s₃ : State} (h : Local t s₁ s₂) (k : Local t s₂ s₃) :
    Local t s₁ s₃ :=
  ⟨k.cpu.trans h.cpu,k.schedLinks.trans h.schedLinks,k.idleThread.trans h.idleThread,
    fun p => (k.threadLists p).trans (h.threadLists p),
    fun u hu => (k.others u hu).trans (h.others u hu),h.store.trans k.store⟩

namespace State

variable {s s' : State}

theorem setThread_local (t : Tid) (thread : Thread) : Local t s (s.setThread t thread) := by
  refine ⟨rfl,rfl,rfl,fun _ => rfl,?_,⟨rfl,rfl,rfl,rfl,rfl,rfl⟩⟩
  intro u hu
  simp [setThread,hu]

theorem deliver_cases {t : Tid} {thread : Thread} {process : Process} {signal : Nat}
    {action : KernelSigaction} (hp : s.processes thread.process = some process)
    (h : s.deliver t thread process signal action = some s') :
    Local t s s' ∧ s'.threads t = some (thread.enterHandler signal action
      (if action.flags &&& saResetHand ≠ 0 then sigDfl else action.handler)
      (frameAddr s.extendedStateSize thread action)) := by
  simp only [deliver,Option.bind_eq_bind,Option.bind_eq_some_iff,Option.pure_def] at h
  obtain ⟨extended,-,h⟩ := h
  cases h
  refine ⟨⟨rfl,rfl,rfl,?_,?_,⟨rfl,rfl,rfl,rfl,rfl,rfl⟩⟩,by simp [setThread,setProcess]⟩
  · intro p
    exact update_map (fun process : Process => process.threadList) s.processes hp (by rfl) p
  · intro u hu
    simp [setThread,setProcess,writeFrame,hu]

theorem restartSyscall_same (thread : Thread) (action : KernelSigaction) :
    (thread.restartSyscall action).state = thread.state ∧
    (thread.restartSyscall action).process = thread.process ∧
    (thread.restartSyscall action).station = thread.station := by
  unfold Thread.restartSyscall
  dsimp only
  split_ifs <;> exact ⟨rfl,rfl,rfl⟩

theorem nextSignal_beginDispatch (thread : Thread) :
    thread.beginDispatch.nextSignal = thread.nextSignal := rfl

theorem dispatchPendingSignal_cases {t : Tid} (h : s.dispatchPendingSignal t = some s') :
    ∃ thread, s.threads t = some thread ∧ (thread.nextSignal = none ∧
        s' = s.setThread t thread.beginDispatch ∨
      ∃ process s₁ thread₁, s.processes thread.process = some process ∧
        Dispatched t s s₁ thread thread₁ process ∧
        match thread.disposition process.signalActions with
        | .keep => s' = s₁
        | .handle => s' = s₁
        | .terminate => ∃ signal, s₁.terminateProcess thread.process (some signal) = some s'
        | .stop => ∃ signal, s₁.dequeueThread t (some signal) = some s') := by
  simp only [dispatchPendingSignal,Option.bind_eq_bind,Option.bind_eq_some_iff] at h
  obtain ⟨thread,ht,h⟩ := h
  refine ⟨thread,ht,?_⟩
  rw [nextSignal_beginDispatch] at h
  cases hn : thread.nextSignal with
  | none =>
    rw [hn] at h
    cases h
    exact .inl ⟨rfl,rfl⟩
  | some signal =>
    rw [hn] at h
    dsimp only at h
    split_ifs at h with hlt
    simp only [dispatchSignal,Option.bind_eq_bind,Option.bind_eq_some_iff] at h
    obtain ⟨process,hp,h⟩ := h
    set action := process.signalActions signal with haction
    set restarted := (thread.beginDispatch.takeSignal signal).restartSyscall action with hre
    have hsame := restartSyscall_same (thread.beginDispatch.takeSignal signal) action
    rw [← hre] at hsame
    have hproc : restarted.process = thread.process := hsame.2.1
    have hdisp : thread.disposition process.signalActions = Sched.disposition signal action := by
      simp only [Thread.disposition,hn,haction]
    have hplain : Sched.disposition signal action ≠ .handle →
        Dispatched t s (s.setThread t restarted) thread restarted process := by
      intro hne
      refine ⟨setThread_local t restarted,ht,by simp [setThread],hsame.1,hsame.2.2,?_⟩
      simp only [Thread.signalled,hn,← haction,← hre]
    refine .inr ⟨process,?_⟩
    rw [hdisp]
    by_cases hign : action.handler = sigIgn
    · have hd : Sched.disposition signal action = .keep := by simp [Sched.disposition,hign]
      rw [if_pos hign] at h
      cases h
      exact ⟨_,restarted,hp,hplain (by simp [hd]),by rw [hd]⟩
    · rw [if_neg hign] at h
      by_cases hdfl : action.handler = sigDfl
      · rw [if_pos hdfl] at h
        refine ⟨_,restarted,hp,hplain ?_,?_⟩
        · simp only [Sched.disposition,if_neg hign,if_pos hdfl]
          cases signalDefaultAction signal <;> simp
        · simp only [Sched.disposition,if_neg hign,if_pos hdfl]
          cases hact : signalDefaultAction signal with
          | ignore =>
            simp only [hact] at h
            cases h
            rfl
          | cont =>
            simp only [hact] at h
            cases h
            rfl
          | terminate =>
            simp only [hact,hproc] at h
            exact ⟨signal,h⟩
          | core =>
            simp only [hact,hproc] at h
            exact ⟨signal,h⟩
          | stop =>
            simp only [hact] at h
            exact ⟨signal,h⟩
      · rw [if_neg hdfl] at h
        by_cases hres : action.restorer = 0
        · have hd : Sched.disposition signal action = .terminate := by
            simp [Sched.disposition,hign,hdfl,hres]
          rw [if_pos hres,hproc] at h
          refine ⟨_,restarted,hp,hplain (by simp [hd]),?_⟩
          rw [hd]
          exact ⟨signal,h⟩
        · have hd : Sched.disposition signal action = .handle := by
            simp [Sched.disposition,hign,hdfl,hres]
          rw [if_neg hres] at h
          have hp' : (s.setThread t restarted).processes restarted.process = some process := by
            rw [hproc]
            exact hp
          obtain ⟨hlocal,hthread⟩ := deliver_cases hp' h
          refine ⟨s',_,hp,⟨(setThread_local t restarted).trans hlocal,ht,hthread,hsame.1,hsame.2.2,?_⟩,?_⟩
          · simp only [Thread.signalled,hn,← haction,← hre,hd]
            rfl
          · rw [hd]

theorem switchTo_cases {t : Tid} (h : s.switchTo t = some s') :
    ∃ thread pagemap, s.threads t = some thread ∧ thread.state ≠ .blocked ∧ thread.state ≠ .zombie ∧
      s' = s.setCpu { switchCpu s.cpu t thread with activePagemap := pagemap } := by
  simp only [switchTo,Option.bind_eq_bind,Option.bind_eq_some_iff] at h
  obtain ⟨thread,ht,h⟩ := h
  split_ifs at h with hst hk
  · cases h
    exact ⟨thread,s.cpu.activePagemap,ht,fun hc => hst (.inl hc),fun hc => hst (.inr hc),rfl⟩
  · simp only [Option.bind_eq_some_iff] at h
    obtain ⟨process,-,h⟩ := h
    split_ifs at h
    cases h
    exact ⟨thread,_,ht,fun hc => hst (.inl hc),fun hc => hst (.inr hc),rfl⟩

theorem returnFromSignal_cases {t : Tid} (h : s.returnFromSignal t = some s') :
    ∃ thread addr, s.threads t = some thread ∧ thread.signals.signalFrame = some addr ∧
      Woken (s.setThread t (thread.leaveHandler (s.memory.frame thread.process addr)
        (s.memory.fpstate thread.process
          (s.memory.frame thread.process addr).ucMcontext.fpstate))) s' := by
  simp only [returnFromSignal,Option.bind_eq_bind,Option.bind_eq_some_iff,Option.pure_def] at h
  obtain ⟨thread,ht,addr,ha,_,-,⟨s₁,n⟩,hg,h⟩ := h
  cases h
  exact ⟨thread,addr,ht,ha,trigger_woken hg⟩

end State

end SabaOS.Sched
