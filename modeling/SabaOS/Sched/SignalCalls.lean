import SabaOS.Sched.Dispatch
import SabaOS.Sched.FrameLayout
import SabaOS.Sched.Reach

namespace SabaOS.Sched

section Calls

def sigKill : Nat := 9

def sigStop : Nat := 19

def sigBlock : Int := 0

def sigUnblock : Int := 1

def sigSetMask : Int := 2

def einval : Int := 22

def Thread.setMask (thread : Thread) (mask : UInt64) : Thread :=
  { thread with signals := { thread.signals with signalMask := mask } }

-- the mask before the call goes to `retrieve`
def Thread.sigprocmask (thread : Thread) (how : Int) (set : Option UInt64) :
    Thread × UInt64 × Int :=
  let mask := thread.signals.signalMask
  match set with
  | none => (thread,mask,0)
  | some set =>
    if how = sigBlock then (thread.setMask (mask ||| set),mask,0)
    else if how = sigUnblock then (thread.setMask (mask &&& ~~~set),mask,0)
    else if how = sigSetMask then (thread.setMask set,mask,0)
    else (thread,mask,-einval)

-- the sigmask half of `ppoll_impl` and `epoll_pwait2_impl`: `none` is the failing ASSERT, the flag
-- is the early return with -EINTR
def Thread.enterPoll (thread : Thread) (sigmask : Option UInt64) : Option (Thread × Bool) :=
  match sigmask with
  | none => some (thread,false)
  | some sigmask =>
    if thread.signals.hasPollSavedSignalMask then none
    else
      let thread := { thread with
        signals := { thread.signals with
          hasPollSavedSignalMask := true
          pollSavedSignalMask := thread.signals.signalMask
          signalMask := sigmask } }
      some (thread,thread.hasPendingSignals)

def Thread.restorePollMask (thread : Thread) : Thread :=
  if thread.signals.hasPollSavedSignalMask then
    { thread with
      signals := { thread.signals with
        signalMask := thread.signals.pollSavedSignalMask
        hasPollSavedSignalMask := false } }
  else
    thread

-- the end of `__syscall_handler`
def Thread.syscallExit (thread : Thread) (ret : Int) : Thread :=
  let thread := thread.restorePollMask
  let thread := { thread with signals := { thread.signals with lastSyscallRet := ret } }
  if !thread.signals.exitingSignal && !thread.signals.enteringSignal && thread.hasPendingSignals then
    { thread with signals := { thread.signals with enteringSignal := true } }
  else
    thread

def Thread.rtSigreturn (thread : Thread) (userStack : UInt64) : Option Thread :=
  if thread.signals.enteringSignal || thread.signals.exitingSignal then none
  else some { thread with
    signals := { thread.signals with exitingSignal := true, signalFrame := some (userStack - 8) } }

def Thread.sigaltstack (thread : Thread) (new : Option AltStack) : Thread × AltStack × Int :=
  let old := thread.signals.signalAltStack
  match new with
  | none => (thread,old,0)
  | some new =>
    if new.ssFlags &&& 0x80000000 ≠ 0 then (thread,old,-einval)
    else if new.ssFlags = ssDisable then
      ({ thread with signals := { thread.signals with
        signalAltStack := ⟨0,ssDisable,0⟩ } },old,0)
    else if new.ssFlags = 0 then
      ({ thread with signals := { thread.signals with signalAltStack := new } },old,0)
    else (thread,old,-einval)

namespace State

def updateThread (s : State) (t : Tid) (f : Thread → Thread) : Option State := do
  let thread ← s.threads t
  return s.setThread t (f thread)

def sigaction (s : State) (t : Tid) (signum : Int) (act : Option KernelSigaction) :
    Option (State × Option KernelSigaction × Int) := do
  let thread ← s.threads t
  let process ← s.processes thread.process
  let old := process.signalActions signum.toNat
  if signum ≤ 0 ∨ signum ≥ 64 ∨ signum = sigKill ∨ signum = sigStop then
    return (s,none,-einval)
  match act with
  | none => return (s,some old,0)
  | some act =>
    let act := { act with flags := act.flags &&& 0xffffffff }
    return (s.setProcess thread.process
      { process with signalActions := Function.update process.signalActions signum.toNat act },some old,0)

-- what `user_exec` does to signals once it can no longer fail
def execSignals (s : State) (t : Tid) : Option State := do
  let thread ← s.threads t
  let process ← s.processes thread.process
  let s := s.setProcess thread.process { process with signalActions := fun _ => {} }
  return s.setThread t
    { thread with signals := { thread.signals with signalAltStack := ⟨0,ssDisable,0⟩ } }

def clearSighand (actions : Nat → KernelSigaction) (signal : Nat) : KernelSigaction :=
  let action := actions signal
  if action.handler ≠ sigDfl ∧ action.handler ≠ sigIgn then { action with handler := sigDfl }
  else action

-- `clone_impl` for a thread of the caller's process and, with the new thread's own number as `p`,
-- for a new process
def clone (s : State) (u : Tid) (p : Pid) (context : Context) (setChildTid clearChildTid : UInt64)
    (clear : Bool) : Option State := do
  let t ← s.cpu.runningThread
  let thread ← s.threads t
  let signals : SignalState :=
    { signalMask := thread.signals.signalMask
      signalAltStack := thread.signals.signalAltStack
      setChildTid := setChildTid
      clearChildTid := clearChildTid }
  if p = thread.process then
    s.spawn u p context signals
  else
    match s.processes p with
    | some _ => none
    | none => do
      let s ← s.spawn u p context signals
      let process ← s.processes p
      return s.setProcess p
        { process with
          signalActions := if clear then clearSighand process.signalActions
            else process.signalActions }

end State

end Calls

section Sigreturn

-- CF, PF, AF, ZF, SF, TF, DF, OF, RF, AC and ID
def userFlags : UInt64 := 0x250dd5

def interruptFlag : UInt64 := 0x200

def ioPrivilegeLevel : UInt64 := 0x3000

-- NT, VM, VIF, VIP and the reserved bits
def systemFlags : UInt64 := ~~~(userFlags ||| interruptFlag ||| ioPrivilegeLevel)

structure Unraised (c c' : Context) : Prop where
  cs : c'.gprState.cs = c.gprState.cs
  ss : c'.gprState.ss = c.gprState.ss
  interrupts : c'.gprState.rflags &&& interruptFlag = interruptFlag
  ioPrivilege : c'.gprState.rflags &&& ioPrivilegeLevel = 0
  system : c'.gprState.rflags &&& systemFlags = c.gprState.rflags &&& systemFlags
  segments : c'.gprState.ds = c.gprState.ds ∧ c'.gprState.es = c.gprState.es
  bases : c'.gsBase = c.gsBase ∧ c'.fsBase = c.fsBase
  stackPointers : c'.savedUserStack = c.savedUserStack ∧ c'.savedKernelStack = c.savedKernelStack

structure TamedFlags (rflags eflags : UInt64) : Prop where
  interrupts : eflags &&& interruptFlag = interruptFlag
  ioPrivilege : eflags &&& ioPrivilegeLevel = 0
  system : eflags &&& systemFlags = rflags &&& systemFlags

variable {s s' : State} {t : Tid}

theorem Woken.threadKept (h : Woken s s') {thread : Thread} (ht : s.threads t = some thread) :
    ∃ thread', s'.threads t = some thread' ∧ thread'.kept = thread.kept := by
  have hk := h.still.kept t
  rwa [ht,Option.map_some,Option.map_eq_some_iff] at hk

theorem kept_context {thread thread' : Thread} (h : thread'.kept = thread.kept) :
    thread'.context = thread.context :=
  congrArg Thread.Kept.context h

theorem kept_signals {thread thread' : Thread} (h : thread'.kept = thread.kept) :
    thread'.signals = thread.signals :=
  congrArg Thread.Kept.signals h

theorem returnFromSignal_thread {thread : Thread} {addr : UInt64}
    (ht : s.threads t = some thread) (ha : thread.signals.signalFrame = some addr)
    (h : s.returnFromSignal t = some s') :
    ∃ thread', s'.threads t = some thread' ∧
      thread'.kept = (thread.leaveHandler (s.memory.frame thread.process addr)
        (s.memory.fpstate thread.process
          (s.memory.frame thread.process addr).ucMcontext.fpstate)).kept := by
  obtain ⟨th,a,hth,hta,hw⟩ := State.returnFromSignal_cases h
  obtain rfl : thread = th := Option.some.inj (ht.symm.trans hth)
  obtain rfl : addr = a := Option.some.inj (ha.symm.trans hta)
  exact hw.threadKept (by simp [State.setThread])

theorem sigreturn_unraised_iff {thread : Thread} {addr : UInt64}
    (ht : s.threads t = some thread) (ha : thread.signals.signalFrame = some addr)
    (h : s.returnFromSignal t = some s') :
    (∃ thread', s'.threads t = some thread' ∧ Unraised thread.context thread'.context) ↔
      TamedFlags thread.context.gprState.rflags
        (s.memory.frame thread.process addr).ucMcontext.eflags := by
  obtain ⟨thread',ht',hk⟩ := returnFromSignal_thread ht ha h
  have hc := kept_context hk
  constructor
  · rintro ⟨thread'',ht'',hu⟩
    obtain rfl : thread' = thread'' := Option.some.inj (ht'.symm.trans ht'')
    rw [hc] at hu
    exact ⟨hu.interrupts,hu.ioPrivilege,hu.system⟩
  · intro hf
    refine ⟨thread',ht',?_⟩
    rw [hc]
    exact ⟨rfl,rfl,hf.interrupts,hf.ioPrivilege,hf.system,⟨rfl,rfl⟩,⟨rfl,rfl⟩,⟨rfl,rfl⟩⟩

def returning (eflags : UInt64) : State :=
  let frame : SignalFrame := { ucMcontext := { rip := 0x1000, rsp := 0x9000, eflags := eflags } }
  let s := bootMachine.state.writeFrame 1 0x8000 frame []
  s.setThread 1
    { process := 1
      state := .ready
      context := userContext 0x2000
      signals := { exitingSignal := true, signalFrame := some 0x8000 } }

def returned (eflags : UInt64) : Option Context :=
  ((returning eflags).returnFromSignal 1).bind fun s => (s.threads 1).map (·.context)

theorem sigreturn_unraised_iff_carry :
    ∃ s' thread', (returning 0x203).returnFromSignal 1 = some s' ∧
      s'.threads 1 = some thread' ∧ Unraised (userContext 0x2000) thread'.context := by
  have hs : ((returning 0x203).returnFromSignal 1).isSome := by decide +kernel
  obtain ⟨s',hs⟩ := Option.isSome_iff_exists.mp hs
  have hiff := sigreturn_unraised_iff (s := returning 0x203) (t := 1) rfl rfl hs
  obtain ⟨thread',ht,hu⟩ := hiff.mpr ⟨by decide,by decide,by decide⟩
  exact ⟨s',thread',hs,ht,hu⟩

theorem sigreturn_raises :
    ¬∀ s s' : State, ∀ t thread addr, s.threads t = some thread →
      thread.signals.signalFrame = some addr → s.returnFromSignal t = some s' →
      ∃ thread', s'.threads t = some thread' ∧ Unraised thread.context thread'.context := by
  intro hall
  have hs : ((returning 0x3002).returnFromSignal 1).isSome := by decide +kernel
  obtain ⟨s',hs⟩ := Option.isSome_iff_exists.mp hs
  obtain ⟨thread',ht,hu⟩ := hall (returning 0x3002) s' 1 _ 0x8000 rfl rfl hs
  have hc : returned 0x3002 = some { userContext 0x2000 with gprState :=
      { cs := 0x23, rip := 0x1000, rsp := 0x9000, rflags := 0x3002 } } := by decide +kernel
  simp only [returned,hs,Option.bind_some,ht,Option.map_some,Option.some.injEq] at hc
  have hlevel := hu.ioPrivilege
  rw [hc] at hlevel
  exact absurd hlevel (by decide)

end Sigreturn

end SabaOS.Sched
