import SabaOS.Sched.SignalCalls

namespace SabaOS.Sched

def Thread.Restarts (thread : Thread) (action : KernelSigaction) : Prop :=
  action.flags &&& saRestart ≠ 0 ∧ thread.signals.lastSyscallRet = -eintr ∧
    thread.context.gprState.rip = thread.signals.lastSyscallRip

structure FramePlaced (size : UInt64) (thread : Thread) (action : KernelSigaction) : Prop where
  frame : (frameAddr size thread action).toNat % 16 = 8
  fpstate : (fpstateAddr size thread action).toNat % 64 = 0
  disjoint : size.toNat + 456 ≤ 2 ^ 64 → ∀ a, inArea (frameAddr size thread action) signalFrameSize a →
    ¬inArea (fpstateAddr size thread action) size a
  contained : Roomy size thread action → ∀ a,
    inArea (frameAddr size thread action) signalFrameSize a ∨
      inArea (fpstateAddr size thread action) size a → Reserved thread action a

structure Resumed (thread thread' : Thread) : Prop where
  registers : toUcontext thread'.context.gprState 0 = toUcontext thread.context.gprState 0
  extendedState : thread'.context.extendedState = thread.context.extendedState
  signalMask : thread'.signals.signalMask = thread.signals.signalMask

theorem framePlaced (size : UInt64) (thread : Thread) (action : KernelSigaction) :
    FramePlaced size thread action :=
  ⟨frameAddr_aligned size thread action,fpstateAddr_aligned size thread action,
    fun h _ => areas_disjoint size thread action h _,fun h _ => h.contained⟩

theorem restartSyscall_none {thread : Thread} {action : KernelSigaction}
    (h : ¬thread.Restarts action) : thread.restartSyscall action = thread := by
  unfold Thread.restartSyscall
  exact if_neg h

theorem fromUcontext_toUcontext (called state : InterruptState) (fpstate : UInt64) :
    toUcontext (fromUcontext called (toUcontext state fpstate)) 0 = toUcontext state 0 := rfl

variable {s s' : State} {t : Tid}

structure Delivered (s s' : State) (t : Tid) (thread : Thread) (signal : Nat)
    (action : KernelSigaction) : Prop where
  frame : s'.memory.frame thread.process (frameAddr s.extendedStateSize thread action) =
    signalFrameFor thread thread.process signal action
      (fpstateAddr s.extendedStateSize thread action) s.cpu.cr2
  fpstate : some (s'.memory.fpstate thread.process (fpstateAddr s.extendedStateSize thread action)) =
    thread.context.extendedState
  handler : ∃ handler, s'.threads t = some handler ∧
    handler.context.gprState.rsp = frameAddr s.extendedStateSize thread action

theorem deliver_delivered {thread : Thread} {process : Process} {signal : Nat}
    {action : KernelSigaction} (h : s.deliver t thread process signal action = some s') :
    Delivered s s' t thread signal action := by
  simp only [State.deliver,Option.bind_eq_bind,Option.bind_eq_some_iff,Option.pure_def] at h
  obtain ⟨extended,hx,h⟩ := h
  cases h
  refine ⟨?_,?_,⟨_,Function.update_self _ _ _,rfl⟩⟩
  · simp [State.setThread,State.writeFrame,State.setProcess,fpstateAddr]
  · rw [hx]
    simp [State.setThread,State.writeFrame,State.setProcess,fpstateAddr,signalFrameFor,toUcontext]

theorem dispatchPendingSignal_delivered {thread : Thread} {process : Process} {signal : Nat}
    (ht : s.threads t = some thread) (hp : s.processes thread.process = some process)
    (hn : thread.nextSignal = some signal)
    (hd : disposition signal (process.signalActions signal) = .handle)
    (hr : ¬thread.Restarts (process.signalActions signal))
    (h : s.dispatchPendingSignal t = some s') :
    Delivered s s' t thread signal (process.signalActions signal) := by
  simp only [State.dispatchPendingSignal,ht,Option.bind_eq_bind,Option.bind_some,
    State.nextSignal_beginDispatch,hn] at h
  split_ifs at h
  simp only [State.dispatchSignal,Option.bind_eq_bind,Option.bind_eq_some_iff] at h
  obtain ⟨process',hp',h⟩ := h
  obtain rfl : process = process' := Option.some.inj (hp.symm.trans hp')
  have hrestart : (thread.beginDispatch.takeSignal signal).restartSyscall _ = _ := restartSyscall_none hr
  rw [hrestart] at h
  have hign : (process.signalActions signal).handler ≠ sigIgn := by
    intro hc
    simp [disposition,hc] at hd
  have hdfl : (process.signalActions signal).handler ≠ sigDfl := by
    intro hc
    rw [disposition,if_neg hign,if_pos hc] at hd
    cases hact : signalDefaultAction signal <;> simp [hact] at hd
  have hres : (process.signalActions signal).restorer ≠ 0 := by
    intro hc
    simp [disposition,hign,hdfl,hc] at hd
  rw [if_neg hign,if_neg hdfl,if_neg hres] at h
  have hdel := deliver_delivered h
  exact ⟨hdel.frame,hdel.fpstate,hdel.handler⟩

theorem rtSigreturn_signals {called thread : Thread} {userStack : UInt64}
    (h : called.rtSigreturn userStack = some thread) :
    (thread.syscallExit 0).signals.signalFrame = some (userStack - 8) ∧
      (thread.syscallExit 0).signals.hasPollSavedSignalMask = false := by
  unfold Thread.rtSigreturn at h
  split_ifs at h
  cases h
  unfold Thread.syscallExit Thread.restorePollMask
  by_cases hpoll : called.signals.hasPollSavedSignalMask
  · simp [hpoll]
  · simp [hpoll]

theorem signal_round_trip {s s₁ : State} {t : Tid} {thread : Thread} {process : Process}
    {signal : Nat} (ht : s.threads t = some thread)
    (hp : s.processes thread.process = some process) (hn : thread.nextSignal = some signal)
    (hd : disposition signal (process.signalActions signal) = .handle)
    (hr : ¬thread.Restarts (process.signalActions signal))
    (h₁ : s.dispatchPendingSignal t = some s₁) :
    let action := process.signalActions signal
    let addr := frameAddr s.extendedStateSize thread action
    let fpstate := fpstateAddr s.extendedStateSize thread action
    FramePlaced s.extendedStateSize thread action ∧
    (∃ handler, s₁.threads t = some handler ∧ handler.context.gprState.rsp = addr) ∧
    ∀ (s₂ s₃ : State) (called exiting back : Thread), called.rtSigreturn (addr + 8) = some exiting →
      s₂.threads t = some back → back.process = thread.process →
      back.signals = (exiting.syscallExit 0).signals →
      s₂.memory.frame thread.process addr = s₁.memory.frame thread.process addr →
      s₂.memory.fpstate thread.process fpstate = s₁.memory.fpstate thread.process fpstate →
      s₂.returnFromSignal t = some s₃ →
      ∃ thread₃, s₃.threads t = some thread₃ ∧ Resumed thread thread₃ := by
  have hdel := dispatchPendingSignal_delivered ht hp hn hd hr h₁
  refine ⟨framePlaced _ _ _,?_,?_⟩
  · exact hdel.handler
  · intro s₂ s₃ called exiting back hcall hback hproc hsig hframe hfp h₃
    obtain ⟨haddr,hpoll⟩ := rtSigreturn_signals hcall
    rw [← hsig] at haddr hpoll
    rw [UInt64.add_sub_cancel] at haddr
    obtain ⟨thread₃,ht₃,hk⟩ := returnFromSignal_thread hback haddr h₃
    have hmcontext : (s₂.memory.frame thread.process
        (frameAddr s.extendedStateSize thread (process.signalActions signal))).ucMcontext =
        toUcontext thread.context.gprState
          (fpstateAddr s.extendedStateSize thread (process.signalActions signal)) := by
      rw [hframe]
      exact congrArg SignalFrame.ucMcontext hdel.frame
    have hmask : (s₂.memory.frame thread.process
        (frameAddr s.extendedStateSize thread (process.signalActions signal))).ucSigmask =
        thread.signals.signalMask := by
      rw [hframe]
      exact congrArg SignalFrame.ucSigmask hdel.frame
    rw [hproc] at hk
    refine ⟨thread₃,ht₃,?_,?_,?_⟩
    · rw [kept_context hk]
      simp only [Thread.leaveHandler,hmcontext]
      exact fromUcontext_toUcontext _ _ _
    · rw [kept_context hk]
      simp only [Thread.leaveHandler,hmcontext,toUcontext]
      rw [hfp]
      exact hdel.fpstate
    · rw [kept_signals hk]
      simp [Thread.leaveHandler,hpoll,hmask]

def userHandler : KernelSigaction := { handler := 0x3000, restorer := 0x4000 }

def signalledThread : Thread where
  process := 1
  state := .ready
  context := { userContext 0x1000 with
    gprState := { cs := 0x23, rip := 0x1000, rflags := 0x202, rsp := 0x9000 } }
  signals := { enteringSignal := true }
  pendingSignals := getSignalBit 10

def signalledState : State :=
  let s := bootMachine.state.setThread 1 signalledThread
  s.setProcess 1 { threadList := [1], numLivingThreads := 1, signalActions := fun _ => userHandler }

def inHandler : State := (signalledState.dispatchPendingSignal 1).get (by decide +kernel)

def leavingThread : Thread :=
  ((inHandler.threads 1).bind fun t => t.rtSigreturn 0x8a80).get (by decide +kernel)

def leavingState : State := inHandler.setThread 1 (leavingThread.syscallExit 0)

def handlerReturned : State := (leavingState.returnFromSignal 1).get (by decide +kernel)

theorem signal_round_trip_user :
    FramePlaced 832 signalledThread userHandler ∧
      ∃ thread, handlerReturned.threads 1 = some thread ∧ Resumed signalledThread thread := by
  have h₁ : signalledState.dispatchPendingSignal 1 = some inHandler := (Option.some_get _).symm
  have h₃ : leavingState.returnFromSignal 1 = some handlerReturned := (Option.some_get _).symm
  obtain ⟨hplaced,-,hback⟩ := signal_round_trip
    (rfl : signalledState.threads 1 = some signalledThread) rfl
    (by decide +kernel : signalledThread.nextSignal = some 10) (by decide +kernel)
    (fun h => absurd h.1 (by decide)) h₁
  have haddr : frameAddr 832 signalledThread userHandler + 8 = 0x8a80 := by decide +kernel
  have hcall : ∃ called, inHandler.threads 1 = some called ∧
      called.rtSigreturn 0x8a80 = some leavingThread := by
    exact Option.bind_eq_some_iff.mp (Option.some_get _).symm
  obtain ⟨called,-,hcall⟩ := hcall
  rw [← haddr] at hcall
  exact ⟨hplaced,hback leavingState handlerReturned called leavingThread _ hcall rfl
    (by decide +kernel) rfl rfl rfl h₃⟩

def smallAltStack : AltStack := { ssSp := 0x10000, ssSize := 64 }

def onSmallStack : Thread := (signalledThread.sigaltstack (some smallAltStack)).1

theorem frame_leaves_small_stack :
    (signalledThread.sigaltstack (some smallAltStack)).2.2 = 0 ∧
      ¬∀ (size : UInt64) (thread : Thread) (action : KernelSigaction) (a : UInt64),
        inArea (frameAddr size thread action) signalFrameSize a ∨
          inArea (fpstateAddr size thread action) size a → Reserved thread action a := by
  refine ⟨by decide,?_⟩
  intro hall
  have haddr : frameAddr 832 onSmallStack { userHandler with flags := saOnStack } = 0xfb38 := by
    decide +kernel
  have h := hall 832 onSmallStack { userHandler with flags := saOnStack } 0xfb38
    (.inl (by rw [haddr]; unfold inArea; decide))
  have hon : onAltStack onSmallStack { userHandler with flags := saOnStack } = true := by decide
  rw [Reserved,if_pos hon] at h
  exact absurd h (by unfold inArea; decide)

end SabaOS.Sched
