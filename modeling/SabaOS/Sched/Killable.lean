import SabaOS.Sched.Unblockable

namespace SabaOS.Sched

namespace Thread.Killable

variable {thread : Thread}

theorem setMask (hk : thread.Killable) {mask : UInt64} (hm : Unblocked mask) :
    (thread.setMask mask).Killable :=
  ⟨hm,hk.saved⟩

theorem sigprocmask (hk : thread.Killable) {how : Int} {set : Option UInt64}
    (hset : ∀ m, set = some m → how = sigBlock ∨ how = sigSetMask → Unblocked m) :
    (thread.sigprocmask how set).1.Killable := by
  unfold Thread.sigprocmask
  cases set with
  | none => exact hk
  | some m =>
    dsimp only
    split_ifs with hblock hunblock hsetMask
    · exact hk.setMask (hk.mask.or (hset m rfl (.inl hblock)))
    · exact hk.setMask hk.mask.remove
    · exact hk.setMask (hset m rfl (.inr hsetMask))
    · exact hk

theorem enterPoll (hk : thread.Killable) {sigmask : Option UInt64} {thread' : Thread} {early : Bool}
    (hm : ∀ m, sigmask = some m → Unblocked m)
    (h : thread.enterPoll sigmask = some (thread',early)) : thread'.Killable := by
  unfold Thread.enterPoll at h
  cases sigmask with
  | none =>
    cases h
    exact hk
  | some m =>
    dsimp only at h
    split_ifs at h
    cases h
    exact ⟨hm m rfl,fun _ => hk.mask⟩

theorem restorePollMask (hk : thread.Killable) : thread.restorePollMask.Killable := by
  unfold Thread.restorePollMask
  split_ifs with hpoll
  · exact ⟨hk.saved hpoll,nofun⟩
  · exact hk

theorem syscallExit (hk : thread.Killable) (ret : Int) : (thread.syscallExit ret).Killable := by
  have hr := hk.restorePollMask
  unfold Thread.syscallExit
  dsimp only
  split_ifs
  · exact ⟨hr.mask,hr.saved⟩
  · exact ⟨hr.mask,hr.saved⟩

theorem rtSigreturn (hk : thread.Killable) {userStack : UInt64} {thread' : Thread}
    (h : thread.rtSigreturn userStack = some thread') : thread'.Killable := by
  unfold Thread.rtSigreturn at h
  split_ifs at h
  cases h
  exact ⟨hk.mask,hk.saved⟩

theorem leaveHandler (hk : thread.Killable) {frame : SignalFrame} (fpstate : ExtendedState)
    (hm : thread.signals.hasPollSavedSignalMask = false → Unblocked frame.ucSigmask) :
    (thread.leaveHandler frame fpstate).Killable := by
  refine ⟨?_,nofun⟩
  simp only [Thread.leaveHandler]
  split_ifs with hpoll
  · exact hk.saved hpoll
  · exact hm (by simpa using hpoll)

theorem enterHandler (hk : thread.Killable) {signal : Nat} {action : KernelSigaction}
    (handler frame : UInt64) (hm : Unblocked action.mask) (hb : Unblocked (getSignalBit signal)) :
    (thread.enterHandler signal action handler frame).Killable := by
  refine ⟨?_,hk.saved⟩
  simp only [Thread.enterHandler]
  split_ifs
  · exact (hk.mask.or hm).or hb
  · exact hk.mask.or hm

end Thread.Killable

theorem restartSyscall_signals (thread : Thread) (action : KernelSigaction) :
    (thread.restartSyscall action).signals = thread.signals := by
  unfold Thread.restartSyscall
  dsimp only
  split_ifs <;> rfl

theorem taken_signals (thread : Thread) (signal : Nat) (action : KernelSigaction) :
    ((thread.beginDispatch.takeSignal signal).restartSyscall action).signals =
      { thread.signals with enteringSignal := false } :=
  restartSyscall_signals _ action

theorem taken_killable {thread : Thread} (hk : thread.Killable) (signal : Nat)
    (action : KernelSigaction) :
    ((thread.beginDispatch.takeSignal signal).restartSyscall action).Killable := by
  refine ⟨?_,?_⟩
  · rw [taken_signals]
    exact hk.mask
  · rw [taken_signals]
    exact hk.saved

theorem Undeliverable.set {actions : Nat → KernelSigaction} (h : Undeliverable actions)
    {signal : Nat} (hk : signal ≠ sigKill) (hs : signal ≠ sigStop) (action : KernelSigaction) :
    Undeliverable (Function.update actions signal action) := by
  refine ⟨?_,?_⟩
  · rw [Function.update_of_ne hk.symm]
    exact h.1
  · rw [Function.update_of_ne hs.symm]
    exact h.2

theorem Undeliverable.handled {actions : Nat → KernelSigaction} (h : Undeliverable actions)
    {signal : Nat} (hh : (actions signal).handler ≠ sigDfl) : signal ≠ sigKill ∧ signal ≠ sigStop :=
  ⟨fun hc => hh (hc ▸ h.1),fun hc => hh (hc ▸ h.2)⟩

theorem Undeliverable.clearSighand {actions : Nat → KernelSigaction} (h : Undeliverable actions) :
    Undeliverable (State.clearSighand actions) := by
  refine ⟨?_,?_⟩
  · simp [State.clearSighand,h.1]
  · simp [State.clearSighand,h.2]

namespace Killable

variable {s s' : State} {t : Tid}

theorem deliver (hk : Killable s) {thread : Thread} {process : Process} {signal : Nat}
    {action : KernelSigaction} (ht : thread.Killable) (hp : Undeliverable process.signalActions)
    (hh : (process.signalActions signal).handler ≠ sigDfl) (hlt : signal < 64)
    (hm : Unblocked action.mask) (h : s.deliver t thread process signal action = some s') :
    Killable s' := by
  simp only [State.deliver,Option.bind_eq_bind,Option.bind_eq_some_iff,Option.pure_def] at h
  obtain ⟨extended,-,h⟩ := h
  cases h
  obtain ⟨hkill,hstop⟩ := hp.handled hh
  refine setThread ?_ (ht.enterHandler _ _ hm (signalBit_unblocked signal hlt hkill hstop))
  exact (hk.setProcess (hp.set hkill hstop _)).same rfl rfl

theorem dispatchPendingSignal (hk : Killable s)
    (hm : ∀ thread process signal, s.threads t = some thread →
      s.processes thread.process = some process → thread.nextSignal = some signal →
      disposition signal (process.signalActions signal) = .handle →
      Unblocked (process.signalActions signal).mask)
    (h : s.dispatchPendingSignal t = some s') : Killable s' := by
  simp only [State.dispatchPendingSignal,Option.bind_eq_bind,Option.bind_eq_some_iff] at h
  obtain ⟨thread,ht,h⟩ := h
  have hthread := hk.thread t thread ht
  rw [State.nextSignal_beginDispatch] at h
  cases hn : thread.nextSignal with
  | none =>
    rw [hn] at h
    cases h
    exact hk.setThread ⟨hthread.mask,hthread.saved⟩
  | some signal =>
    rw [hn] at h
    dsimp only at h
    split_ifs at h with hlt
    simp only [State.dispatchSignal,Option.bind_eq_bind,Option.bind_eq_some_iff] at h
    obtain ⟨process,hp,h⟩ := h
    have hactions := hk.actions _ process hp
    have htaken := taken_killable hthread signal (process.signalActions signal)
    have hset := hk.setThread (t := t) htaken
    split_ifs at h with hign hdfl hres
    · cases h
      exact hset
    · cases hact : signalDefaultAction signal with
      | ignore =>
        simp only [hact] at h
        cases h
        exact hset
      | cont =>
        simp only [hact] at h
        cases h
        exact hset
      | terminate =>
        simp only [hact] at h
        exact hset.still (terminateProcess_still h) (.terminateProcess h)
      | core =>
        simp only [hact] at h
        exact hset.still (terminateProcess_still h) (.terminateProcess h)
      | stop =>
        simp only [hact] at h
        exact hset.still (dequeueThread_still h) (.dequeueThread h)
    · exact hset.still (terminateProcess_still h) (.terminateProcess h)
    · refine hset.deliver htaken hactions hdfl hlt (hm thread process signal ht hp hn ?_) h
      simp [disposition,hign,hdfl,hres]

theorem returnFromSignal (hk : Killable s)
    (hm : ∀ thread addr, s.threads t = some thread → thread.signals.signalFrame = some addr →
      thread.signals.hasPollSavedSignalMask = false → Unblocked (s.memory.frame thread.process addr).ucSigmask)
    (h : s.returnFromSignal t = some s') : Killable s' := by
  simp only [State.returnFromSignal,Option.bind_eq_bind,Option.bind_eq_some_iff,
    Option.pure_def] at h
  obtain ⟨thread,ht,addr,ha,_,-,⟨s₁,n⟩,hg,h⟩ := h
  cases h
  refine still (hk.setThread ?_) (State.trigger_woken hg).still (.trigger hg)
  exact (hk.thread t thread ht).leaveHandler _ (hm thread addr ht ha)

theorem sigaction (hk : Killable s) {signum : Int} {act old : Option KernelSigaction} {ret : Int}
    (h : s.sigaction t signum act = some (s',old,ret)) : Killable s' := by
  simp only [State.sigaction,Option.bind_eq_bind,Option.bind_eq_some_iff] at h
  obtain ⟨thread,-,process,hp,h⟩ := h
  split_ifs at h with hbad
  · cases h
    exact hk
  · cases act with
    | none =>
      cases h
      exact hk
    | some act =>
      cases h
      refine hk.setProcess ((hk.actions _ process hp).set ?_ ?_ _)
      · omega
      · omega

theorem execSignals (hk : Killable s) (h : s.execSignals t = some s') : Killable s' := by
  simp only [State.execSignals,Option.bind_eq_bind,Option.bind_eq_some_iff,Option.pure_def] at h
  obtain ⟨thread,ht,process,-,h⟩ := h
  cases h
  have hthread := hk.thread t thread ht
  exact (hk.setProcess ⟨rfl,rfl⟩).setThread ⟨hthread.mask,hthread.saved⟩

theorem spawnProcess (hk : Killable s) {u : Tid} {p : Pid} (h : s.spawnProcess u p = some s') :
    Killable s' ∧ s'.threads = s.threads := by
  unfold State.spawnProcess at h
  split at h
  · rename_i process hp
    cases h
    exact ⟨hk.setProcess (hk.actions p process hp),rfl⟩
  · simp only [Option.bind_eq_bind,Option.bind_eq_some_iff] at h
    obtain ⟨v,-,thread,-,parent,hparent,h⟩ := h
    split_ifs at h
    cases h
    have hactions := hk.actions _ parent hparent
    refine ⟨setProcess (hk.setProcess ?_) ?_,rfl⟩
    · exact hactions
    · exact hactions

theorem spawn (hk : Killable s) {u : Tid} {p : Pid} {context : Context} {signals : SignalState}
    (hs : Unblocked signals.signalMask) (hpoll : signals.hasPollSavedSignalMask = false)
    (h : s.spawn u p context signals = some s') : Killable s' := by
  unfold State.spawn at h
  split at h
  · cases h
  · simp only [Option.bind_eq_bind,Option.bind_eq_some_iff] at h
    obtain ⟨s₁,h₁,links,-,h⟩ := h
    cases h
    obtain ⟨hk₁,-⟩ := hk.spawnProcess h₁
    have hlinked : Killable (s₁.setSched links) := hk₁.same rfl rfl
    refine hlinked.setThread ⟨?_,?_⟩
    · exact hs
    · intro hc
      exact absurd (hpoll.symm.trans hc) (by simp)

theorem clone (hk : Killable s) {u : Tid} {p : Pid} {context : Context}
    {setChildTid clearChildTid : UInt64} {clear : Bool}
    (h : s.clone u p context setChildTid clearChildTid clear = some s') : Killable s' := by
  simp only [State.clone,Option.bind_eq_bind,Option.bind_eq_some_iff] at h
  obtain ⟨t,-,thread,ht,h⟩ := h
  have hmask := (hk.thread t thread ht).mask
  split at h
  · refine hk.spawn ?_ ?_ h
    · exact hmask
    · rfl
  · split at h
    · cases h
    · simp only [Option.bind_eq_some_iff,Option.pure_def] at h
      obtain ⟨s₁,h₁,process,hp,h⟩ := h
      cases h
      have hk₁ : Killable s₁ := by
        refine hk.spawn ?_ ?_ h₁
        · exact hmask
        · rfl
      refine hk₁.setProcess ?_
      cases clear with
      | false => exact hk₁.actions p process hp
      | true => exact (hk₁.actions p process hp).clearSighand

theorem updateThread (hk : Killable s) {f : Thread → Thread}
    (hf : ∀ thread, thread.Killable → (f thread).Killable) (h : s.updateThread t f = some s') :
    Killable s' := by
  simp only [State.updateThread,Option.bind_eq_bind,Option.bind_eq_some_iff,Option.pure_def] at h
  obtain ⟨thread,ht,h⟩ := h
  cases h
  exact hk.setThread (hf thread (hk.thread t thread ht))

theorem step (hk : Killable s) {op : SignalOp} (hm : MaskGiven s op)
    (h : s.signalCall op = some s') : Killable s' := by
  cases op with
  | user cpu memory =>
    cases h
    exact hk.same rfl rfl
  | sigprocmask t how set =>
    refine hk.updateThread (fun thread ht => ht.sigprocmask ?_) h
    rintro m rfl
    exact hm
  | sigaction t signum act =>
    simp only [State.signalCall,Option.map_eq_some_iff] at h
    obtain ⟨⟨s₁,old,ret⟩,h,rfl⟩ := h
    exact hk.sigaction h
  | enterPoll t sigmask =>
    simp only [State.signalCall,Option.bind_eq_bind,Option.bind_eq_some_iff,Option.pure_def] at h
    obtain ⟨thread,ht,⟨thread',early⟩,he,h⟩ := h
    cases h
    refine hk.setThread ((hk.thread t thread ht).enterPoll ?_ he)
    rintro m rfl
    exact hm
  | syscallExit t ret => exact hk.updateThread (fun thread ht => ht.syscallExit ret) h
  | dispatch t => exact hk.dispatchPendingSignal hm h
  | rtSigreturn t =>
    simp only [State.signalCall,Option.bind_eq_bind,Option.bind_eq_some_iff,Option.pure_def] at h
    obtain ⟨thread,ht,thread',hr,h⟩ := h
    cases h
    exact hk.setThread ((hk.thread t thread ht).rtSigreturn hr)
  | returnFromSignal t => exact hk.returnFromSignal hm h
  | clone u p context setChildTid clearChildTid clear => exact hk.clone h
  | exec t => exact hk.execSignals h
  | sendSignal t signal => exact hk.still (sendSignal_still h) (.sendSignal h)

end Killable

-- what `create_init_process` leaves: no mask, and every action zeroed by `user_exec`
structure Unmasked (s : State) : Prop where
  thread : ∀ t thread, s.threads t = some thread → thread.signals.signalMask = 0 ∧
    thread.signals.hasPollSavedSignalMask = false
  actions : ∀ p process, s.processes p = some process → process.signalActions = fun _ => {}

theorem Unmasked.killable {s : State} (h : Unmasked s) : Killable s := by
  refine ⟨?_,?_⟩
  · intro t thread ht
    obtain ⟨hmask,hpoll⟩ := h.thread t thread ht
    refine ⟨?_,?_⟩
    · rw [hmask]
      decide
    · intro hc
      exact absurd (hpoll.symm.trans hc) (by simp)
  · intro p process hp
    rw [h.actions p process hp]
    exact ⟨rfl,rfl⟩

theorem killable_run {s₀ s : State} (h₀ : Unmasked s₀)
    (hrun : Relation.ReflTransGen MaskStep s₀ s) : Killable s := by
  induction hrun with
  | refl => exact h₀.killable
  | tail _ hstep ih =>
    obtain ⟨op,hm,hop⟩ := hstep
    exact ih.step hm hop

theorem Thread.Killable.accepted {thread : Thread} (hk : thread.Killable) :
    thread.accepted &&& getSignalBit sigKill = thread.pendingSignals &&& getSignalBit sigKill :=
  and_not_and hk.mask.sigKill

def SamePending (s s' : State) : Prop :=
  ∀ t, (s'.threads t).map (·.pendingSignals) = (s.threads t).map (·.pendingSignals)

namespace SamePending

variable {s s₁ s' : State}

theorem trans (h : SamePending s s₁) (k : SamePending s₁ s') : SamePending s s' :=
  fun t => (k t).trans (h t)

theorem setThread {t : Tid} {thread thread' : Thread} (ht : s.threads t = some thread)
    (hp : thread'.pendingSignals = thread.pendingSignals) : SamePending s (s.setThread t thread') :=
  update_map (fun thread : Thread => thread.pendingSignals) s.threads ht hp

theorem enqueueThread {t : Tid} {signal : Int} (h : s.enqueueThread t signal = some s') :
    SamePending s s' := by
  obtain ⟨thread,ht,⟨rfl,-⟩ | ⟨links,-,⟨-,rfl⟩ | ⟨-,-,rfl⟩⟩⟩ := State.enqueueThread_cases h
  · exact fun _ => rfl
  · exact setThread (s := s.setSched links) ht (by rfl)
  · exact setThread (s := s.setSched links) ht (by rfl)

theorem wake {listener : Listener} (h : s.wake listener = some s') : SamePending s s' := by
  simp only [State.wake,Option.bind_eq_bind,Option.bind_eq_some_iff] at h
  obtain ⟨thread,ht,h⟩ := h
  exact trans (setThread ht (by rfl)) (enqueueThread h)

theorem triggerLoop {e : EventId} {maxToWake : Int} {fuel woken n : Nat} {pos : ListenerAddr}
    {next : Option ListenerAddr}
    (h : State.triggerLoop e maxToWake fuel s pos next woken = some (s',n)) : SamePending s s' := by
  induction fuel generalizing s pos next woken with
  | zero => simp [State.triggerLoop] at h
  | succ fuel ih =>
    unfold State.triggerLoop at h
    split at h
    · cases h
      exact fun _ => rfl
    · split at h
      · cases h
      · simp only [Option.bind_eq_bind,Option.bind_eq_some_iff] at h
        obtain ⟨s₁,hw,h⟩ := h
        split at h
        · cases h
          exact wake hw
        · simp only [Option.bind_eq_some_iff] at h
          obtain ⟨pos',-,h⟩ := h
          exact (wake hw).trans (ih h)

theorem trigger {e : EventId} {drop : Bool} {maxToWake : Int} {n : Nat}
    (h : s.trigger e drop maxToWake = some (s',n)) : SamePending s s' := by
  unfold State.trigger at h
  split_ifs at h
  · cases h
    exact fun _ => rfl
  · cases h
    exact fun _ => rfl
  · simp only [Option.bind_eq_bind,Option.bind_eq_some_iff] at h
    obtain ⟨pos,-,h⟩ := h
    exact triggerLoop h

end SamePending

theorem sendSignal_pending {s s' : State} {t : Tid} {signal : Nat}
    (h : s.sendSignal t signal = some s') :
    ∃ thread, s'.threads t = some thread ∧
      thread.pendingSignals &&& getSignalBit signal = getSignalBit signal := by
  simp only [State.sendSignal,Option.bind_eq_bind,Option.bind_eq_some_iff,Option.pure_def] at h
  obtain ⟨thread,-,s₁,he,⟨s₂,n⟩,hg,h⟩ := h
  cases h
  have hp := ((SamePending.enqueueThread he).trans (.trigger hg)) t
  rw [State.setThread_threads,if_pos rfl,Option.map_some,Option.map_eq_some_iff] at hp
  obtain ⟨thread',ht',hp⟩ := hp
  refine ⟨thread',ht',?_⟩
  rw [hp]
  exact or_and_self _ _

theorem sigkill_never_blocked {s₀ s : State} (h₀ : Unmasked s₀)
    (hrun : Relation.ReflTransGen MaskStep s₀ s) :
    (∀ t thread, s.threads t = some thread → Unblocked thread.signals.signalMask ∧
      thread.accepted &&& getSignalBit sigKill =
        thread.pendingSignals &&& getSignalBit sigKill) ∧
    (∀ t s', s.sendSignal t sigKill = some s' → ∃ thread, s'.threads t = some thread ∧
      thread.accepted &&& getSignalBit sigKill = getSignalBit sigKill) := by
  have hk := killable_run h₀ hrun
  refine ⟨?_,?_⟩
  · intro t thread ht
    exact ⟨(hk.thread t thread ht).mask,(hk.thread t thread ht).accepted⟩
  · intro t s' h
    obtain ⟨thread,ht,hp⟩ := sendSignal_pending h
    have hk' : Killable s' := hk.still (sendSignal_still h) (.sendSignal h)
    exact ⟨thread,ht,((hk'.thread t thread ht).accepted).trans hp⟩

def userState : State :=
  bootMachine.state.setThread 1
    { process := 1, state := .ready, context := userContext 0x1000 }

theorem userState_unmasked : Unmasked userState := by
  refine ⟨?_,?_⟩
  · intro t thread ht
    simp only [userState,State.setThread_threads,bootMachine] at ht
    split_ifs at ht
    · cases ht
      exact ⟨rfl,rfl⟩
    · cases ht
      exact ⟨rfl,rfl⟩
  · intro p process hp
    simp only [userState,State.setThread,bootMachine] at hp
    split_ifs at hp
    · cases hp
      rfl
    · cases hp
      rfl

def maskedBy (mask : UInt64) : State :=
  (userState.signalCall (.sigprocmask 1 sigSetMask (some mask))).get rfl

theorem sigkill_never_blocked_rest :
    ∃ s' thread, (maskedBy (~~~unblockable)).sendSignal 1 sigKill = some s' ∧
      s'.threads 1 = some thread ∧ thread.accepted &&& getSignalBit sigKill = 0x100 := by
  have hstep : MaskStep userState (maskedBy (~~~unblockable)) :=
    ⟨.sigprocmask 1 sigSetMask (some (~~~unblockable)),fun _ => by decide,(Option.some_get _).symm⟩
  obtain ⟨-,hsent⟩ := sigkill_never_blocked userState_unmasked (.single hstep)
  have hs : ((maskedBy (~~~unblockable)).sendSignal 1 sigKill).isSome := by decide +kernel
  obtain ⟨s',hs⟩ := Option.isSome_iff_exists.mp hs
  obtain ⟨thread,ht,ha⟩ := hsent 1 s' hs
  exact ⟨s',thread,hs,ht,ha⟩

theorem sigkill_blocked :
    ¬∀ s₀ s : State, Unmasked s₀ → Relation.ReflTransGen SignalStep s₀ s →
      ∀ t thread, s.threads t = some thread → Unblocked thread.signals.signalMask := by
  intro hall
  have hstep : SignalStep userState (maskedBy (~~~0)) :=
    ⟨.sigprocmask 1 sigSetMask (some (~~~0)),(Option.some_get _).symm⟩
  have hmask : ((maskedBy (~~~0)).threads 1).map (·.signals.signalMask) = some (~~~0) := by
    decide +kernel
  rw [Option.map_eq_some_iff] at hmask
  obtain ⟨thread,ht,hmask⟩ := hmask
  have h := hall userState _ userState_unmasked (.single hstep) 1 thread ht
  rw [hmask] at h
  exact absurd h (by decide)

end SabaOS.Sched
