import SabaOS.Sched.Actions

namespace SabaOS.Sched

def unblockable : UInt64 := getSignalBit sigKill ||| getSignalBit sigStop

def Unblocked (mask : UInt64) : Prop := mask &&& unblockable = 0

instance (mask : UInt64) : Decidable (Unblocked mask) :=
  inferInstanceAs (Decidable (mask &&& unblockable = 0))

section Bits

variable {mask set pending bit : UInt64}

theorem and_not_and (h : mask &&& bit = 0) : (pending &&& ~~~mask) &&& bit = pending &&& bit := by
  apply UInt64.toBitVec_inj.mp
  apply BitVec.eq_of_getLsbD_eq
  intro i hi
  have hm := congrArg (fun m : UInt64 => m.toBitVec.getLsbD i) h
  simp only [UInt64.toBitVec_and,BitVec.getLsbD_and,UInt64.toBitVec_ofNat,BitVec.getLsbD_zero] at hm
  simp only [UInt64.toBitVec_and,UInt64.toBitVec_not,BitVec.getLsbD_and,BitVec.getLsbD_not,hi]
  cases hb : bit.toBitVec.getLsbD i
  · simp
  · rw [hb,Bool.and_true] at hm
    simp [hm]

theorem or_and_self (pending bit : UInt64) : (pending ||| bit) &&& bit = bit := by
  apply UInt64.toBitVec_inj.mp
  apply BitVec.eq_of_getLsbD_eq
  intro i hi
  simp only [UInt64.toBitVec_and,UInt64.toBitVec_or,BitVec.getLsbD_and,BitVec.getLsbD_or]
  cases bit.toBitVec.getLsbD i
  · simp
  · simp

theorem Unblocked.or (hm : Unblocked mask) (hs : Unblocked set) : Unblocked (mask ||| set) := by
  have h : (mask ||| set) &&& unblockable = mask &&& unblockable ||| set &&& unblockable :=
    UInt64.toBitVec_inj.mp BitVec.and_or_distrib_right
  rw [Unblocked,h,hm,hs]
  rfl

theorem Unblocked.remove (hm : Unblocked mask) : Unblocked (mask &&& set) := by
  simp only [Unblocked] at hm ⊢
  rw [UInt64.and_assoc,UInt64.and_comm set,← UInt64.and_assoc,hm,UInt64.zero_and]

theorem Unblocked.sigKill (hm : Unblocked mask) : mask &&& getSignalBit sigKill = 0 := by
  have h : getSignalBit Sched.sigKill = unblockable &&& getSignalBit Sched.sigKill := by decide
  rw [h,← UInt64.and_assoc,hm,UInt64.zero_and]

theorem signalBit_unblocked : ∀ signal < 64, signal ≠ sigKill → signal ≠ sigStop →
    Unblocked (getSignalBit signal) := by decide +kernel

end Bits

def Thread.accepted (thread : Thread) : UInt64 :=
  thread.pendingSignals &&& ~~~thread.signals.signalMask

structure Thread.Killable (thread : Thread) : Prop where
  mask : Unblocked thread.signals.signalMask
  saved : thread.signals.hasPollSavedSignalMask → Unblocked thread.signals.pollSavedSignalMask

def Undeliverable (actions : Nat → KernelSigaction) : Prop :=
  (actions sigKill).handler = sigDfl ∧ (actions sigStop).handler = sigDfl

structure Killable (s : State) : Prop where
  thread : ∀ t thread, s.threads t = some thread → thread.Killable
  actions : ∀ p process, s.processes p = some process → Undeliverable process.signalActions

inductive SignalOp where
  | user (cpu : Cpu) (memory : Memory)
  | sigprocmask (t : Tid) (how : Int) (set : Option UInt64)
  | sigaction (t : Tid) (signum : Int) (act : Option KernelSigaction)
  | enterPoll (t : Tid) (sigmask : Option UInt64)
  | syscallExit (t : Tid) (ret : Int)
  | dispatch (t : Tid)
  | rtSigreturn (t : Tid)
  | returnFromSignal (t : Tid)
  | clone (u : Tid) (p : Pid) (context : Context) (setChildTid clearChildTid : UInt64) (clear : Bool)
  | exec (t : Tid)
  | sendSignal (t : Tid) (signal : Nat)

namespace State

def signalCall (s : State) : SignalOp → Option State
  | .user cpu memory => some (s.userRun cpu memory)
  | .sigprocmask t how set => s.updateThread t fun thread => (thread.sigprocmask how set).1
  | .sigaction t signum act => (s.sigaction t signum act).map Prod.fst
  | .enterPoll t sigmask => do
    let thread ← s.threads t
    let (thread,_) ← thread.enterPoll sigmask
    return s.setThread t thread
  | .syscallExit t ret => s.updateThread t fun thread => thread.syscallExit ret
  | .dispatch t => s.dispatchPendingSignal t
  | .rtSigreturn t => do
    let thread ← s.threads t
    let thread ← thread.rtSigreturn s.cpu.userStack
    return s.setThread t thread
  | .returnFromSignal t => s.returnFromSignal t
  | .clone u p context setChildTid clearChildTid clear =>
    s.clone u p context setChildTid clearChildTid clear
  | .exec t => s.execSignals t
  | .sendSignal t signal => s.sendSignal t signal

end State

def MaskGiven (s : State) : SignalOp → Prop
  | .sigprocmask _ how (some set) => how = sigBlock ∨ how = sigSetMask → Unblocked set
  | .enterPoll _ (some sigmask) => Unblocked sigmask
  | .dispatch t => ∀ thread process signal, s.threads t = some thread →
    s.processes thread.process = some process → thread.nextSignal = some signal →
    disposition signal (process.signalActions signal) = .handle →
    Unblocked (process.signalActions signal).mask
  | .returnFromSignal t => ∀ thread addr, s.threads t = some thread →
    thread.signals.signalFrame = some addr → thread.signals.hasPollSavedSignalMask = false →
    Unblocked (s.memory.frame thread.process addr).ucSigmask
  | _ => True

def SignalStep (s s' : State) : Prop := ∃ op, s.signalCall op = some s'

def MaskStep (s s' : State) : Prop := ∃ op, MaskGiven s op ∧ s.signalCall op = some s'

section Still

variable {s s' : State} {t : Tid}

theorem sendSignal_still {signal : Nat} (h : s.sendSignal t signal = some s') : Still s s' := by
  rcases State.sendSignal_cases h with hw | ⟨-,s₁,s₂,hquiet,hcont,hw⟩
  · exact hw.still
  · exact (hquiet.toStill.trans hcont.toStill).trans hw.still

theorem dequeueThread_still {stopSignal : Option Nat} (h : s.dequeueThread t stopSignal = some s') :
    Still s s' := by
  obtain ⟨s₁,hw,hu⟩ := State.dequeueThread_cases h
  exact hu.toStill.trans hw.still

theorem terminateThread_still {terminateSignal : Option Nat}
    (h : s.terminateThread t terminateSignal = some s') : Still s s' := by
  rcases State.terminateThread_cases h with rfl | ⟨s₁,hw,hu | he⟩
  · exact .refl _
  · exact hu.toStill.trans hw.still
  · exact he.toStill.trans hw.still

theorem terminateProcess_still {p : Pid} {terminateSignal : Option Nat}
    (h : s.terminateProcess p terminateSignal = some s') : Still s s' := by
  simp only [State.terminateProcess,Option.bind_eq_bind,Option.bind_eq_some_iff] at h
  obtain ⟨process,-,h⟩ := h
  revert h
  generalize process.threadList = l
  intro h
  induction l generalizing s with
  | nil =>
    cases h
    exact .refl _
  | cons t l ih =>
    simp only [List.foldlM_cons,Option.bind_eq_bind,Option.bind_eq_some_iff] at h
    obtain ⟨s₁,ht,h⟩ := h
    exact (terminateThread_still ht).trans (ih h)

end Still

theorem Thread.Killable.of_signals {thread thread' : Thread} (h : thread.Killable)
    (hs : thread'.signals = thread.signals) : thread'.Killable := by
  refine ⟨?_,?_⟩
  · rw [hs]
    exact h.mask
  · rw [hs]
    exact h.saved

namespace Killable

variable {s s' : State} {t : Tid}

theorem still (hk : Killable s) (h : Still s s') (ha : SameActions s s') : Killable s' := by
  refine ⟨?_,?_⟩
  · intro t thread' ht'
    have hkept := h.kept t
    rw [ht',Option.map_some,eq_comm,Option.map_eq_some_iff] at hkept
    obtain ⟨thread,ht,hkept⟩ := hkept
    exact (hk.thread t thread ht).of_signals (kept_signals hkept.symm)
  · intro p process' hp'
    have hactions := ha p
    rw [hp',Option.map_some,eq_comm,Option.map_eq_some_iff] at hactions
    obtain ⟨process,hp,hactions⟩ := hactions
    rw [← hactions]
    exact hk.actions p process hp

theorem setThread (hk : Killable s) {thread : Thread} (h : thread.Killable) :
    Killable (s.setThread t thread) := by
  refine ⟨?_,hk.actions⟩
  intro u thread' hu
  simp only [State.setThread,Function.update_apply] at hu
  split_ifs at hu
  · cases hu
    exact h
  · exact hk.thread u thread' hu

theorem setProcess (hk : Killable s) {p : Pid} {process : Process}
    (h : Undeliverable process.signalActions) : Killable (s.setProcess p process) := by
  refine ⟨hk.thread,?_⟩
  intro q process' hq
  simp only [State.setProcess,Function.update_apply] at hq
  split_ifs at hq
  · cases hq
    exact h
  · exact hk.actions q process' hq

theorem same (hk : Killable s) (ht : s'.threads = s.threads) (hp : s'.processes = s.processes) :
    Killable s' :=
  ⟨fun t thread h => hk.thread t thread (ht ▸ h),fun p process h => hk.actions p process (hp ▸ h)⟩

end Killable

end SabaOS.Sched
