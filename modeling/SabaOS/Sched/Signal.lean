import SabaOS.Sched.Lifecycle

namespace SabaOS.Sched

inductive SignalDefault where
  | ignore
  | terminate
  | core
  | cont
  | stop
deriving DecidableEq, Repr

def signalDefaultAction (signal : Nat) : SignalDefault :=
  match signal with
  | 6 => .core
  | 14 => .terminate
  | 7 => .core
  | 17 => .ignore
  | 18 => .cont
  | 8 => .core
  | 1 => .terminate
  | 4 => .core
  | 2 => .terminate
  | 29 => .terminate
  | 9 => .terminate
  | 13 => .terminate
  | 27 => .terminate
  | 30 => .terminate
  | 3 => .core
  | 11 => .core
  | 16 => .terminate
  | 19 => .stop
  | 20 => .stop
  | 31 => .core
  | 15 => .terminate
  | 5 => .core
  | 21 => .stop
  | 22 => .stop
  | 23 => .ignore
  | 10 => .terminate
  | 12 => .terminate
  | 26 => .terminate
  | 24 => .core
  | 25 => .core
  | 28 => .ignore
  | _ => .core

def sigDfl : UInt64 := 0

def sigIgn : UInt64 := 1

def sigSegv : Nat := 11

def saOnStack : UInt64 := 0x08000000

def saRestart : UInt64 := 0x10000000

def saNoDefer : UInt64 := 0x40000000

def saResetHand : UInt64 := 0x80000000

def ssOnStack : UInt64 := 1

def ssDisable : UInt64 := 2

def segvMapErr : Int := 1

def segvAccErr : Int := 2

def siTkill : Int := -6

def trapFlag : UInt64 := 0x100

def directionFlag : UInt64 := 0x400

def resumeFlag : UInt64 := 0x10000

-- `sizeof(SignalFrame)` and the offsets of its `ucontext` and `siginfo`
def signalFrameSize : UInt64 := 440

def ucontextOffset : UInt64 := 8

def siginfoOffset : UInt64 := 312

def alignDown64 (i alignment : UInt64) : UInt64 :=
  if i % alignment ≠ 0 then i / alignment * alignment else i

def alignUp64 (i alignment : UInt64) : UInt64 :=
  if i % alignment ≠ 0 then (i / alignment + 1) * alignment else i

def Thread.nextSignal (thread : Thread) : Option Nat :=
  let accepted := thread.pendingSignals &&& ~~~thread.signals.signalMask
  ((List.range 64).find? fun i => (accepted >>> i.toUInt64) &&& 1 = 1).map (· + 1)

def Thread.takeSignal (thread : Thread) (signal : Nat) : Thread :=
  { thread with pendingSignals := thread.pendingSignals &&& ~~~getSignalBit signal }

def Thread.beginDispatch (thread : Thread) : Thread :=
  { thread with
    enqueuedBySignal := -1
    signals := { thread.signals with enteringSignal := false } }

def Thread.restartSyscall (thread : Thread) (action : KernelSigaction) : Thread :=
  let state := thread.context.gprState
  if action.flags &&& saRestart ≠ 0 ∧ thread.signals.lastSyscallRet = -eintr ∧
      state.rip = thread.signals.lastSyscallRip then
    let state := { state with rip := state.rip - 2, rax := thread.signals.lastSyscallNum }
    { thread with context := { thread.context with gprState := state } }
  else
    thread

def toUcontext (s : InterruptState) (fpstate : UInt64) : SigContext :=
  { r15 := s.r15, r14 := s.r14, r13 := s.r13, r12 := s.r12, r11 := s.r11, r10 := s.r10, r9 := s.r9
    r8 := s.r8, rbp := s.rbp, rdi := s.rdi, rsi := s.rsi, rdx := s.rdx, rcx := s.rcx, rbx := s.rbx
    rax := s.rax, rip := s.rip, rsp := s.rsp, eflags := s.rflags, fpstate := fpstate }

def fromUcontext (s : InterruptState) (m : SigContext) : InterruptState :=
  { s with
    r15 := m.r15, r14 := m.r14, r13 := m.r13, r12 := m.r12, r11 := m.r11, r10 := m.r10, r9 := m.r9
    r8 := m.r8, rbp := m.rbp, rdi := m.rdi, rsi := m.rsi, rdx := m.rdx, rcx := m.rcx, rbx := m.rbx
    rax := m.rax, rip := m.rip, rsp := m.rsp, rflags := m.eflags }

def onAltStack (thread : Thread) (action : KernelSigaction) : Bool :=
  action.flags &&& saOnStack ≠ 0 && thread.signals.signalAltStack.ssFlags &&& ssDisable = 0

def frameAddr (extendedStateSize : UInt64) (thread : Thread) (action : KernelSigaction) : UInt64 :=
  let alt := thread.signals.signalAltStack
  let rsp := if onAltStack thread action then alt.ssSp + alt.ssSize
    else thread.context.gprState.rsp - 128
  let rsp := alignDown64 (rsp - extendedStateSize) 64
  alignDown64 (rsp - signalFrameSize) 16 - 8

def Thread.enterHandler (thread : Thread) (signal : Nat) (action : KernelSigaction)
    (handler frame : UInt64) : Thread :=
  let state := thread.context.gprState
  let state := { state with
    rsp := frame
    rip := handler
    rdi := signal.toUInt64
    rsi := frame + siginfoOffset
    rdx := frame + ucontextOffset
    rax := 0
    rflags := state.rflags &&& ~~~trapFlag &&& ~~~directionFlag &&& ~~~resumeFlag }
  let alt := thread.signals.signalAltStack
  let alt := if onAltStack thread action then { alt with ssFlags := alt.ssFlags ||| ssOnStack } else alt
  let mask := thread.signals.signalMask ||| action.mask
  let mask := if action.flags &&& saNoDefer = 0 then mask ||| getSignalBit signal else mask
  { thread with
    context := { thread.context with gprState := state }
    signals := { thread.signals with signalAltStack := alt, signalMask := mask } }

def Thread.leaveHandler (thread : Thread) (frame : SignalFrame) (fpstate : ExtendedState) : Thread :=
  let context := { thread.context with
    gprState := fromUcontext thread.context.gprState frame.ucMcontext
    extendedState := some fpstate }
  let alt := thread.signals.signalAltStack
  let mask := if thread.signals.hasPollSavedSignalMask then thread.signals.pollSavedSignalMask
    else frame.ucSigmask
  let signals := { thread.signals with
    exitingSignal := false
    signalAltStack := { alt with ssFlags := alt.ssFlags &&& ~~~ssOnStack }
    signalMask := mask
    signalFrame := none
    hasPollSavedSignalMask := false }
  { thread with context := context, signals := signals }

def signalFrameFor (thread : Thread) (p : Pid) (signal : Nat) (action : KernelSigaction)
    (fpstate cr2 : UInt64) : SignalFrame :=
  { restorer := action.restorer
    ucMcontext := toUcontext thread.context.gprState fpstate
    ucSigmask := thread.signals.signalMask
    siSigno := signal
    siErrno := if signal = sigSegv then efault else 0
    siCode := if signal = sigSegv then
        if thread.context.gprState.err &&& 1 ≠ 0 then segvAccErr else segvMapErr
      else if signal = 33 then siTkill else 0
    siAddr := if signal = sigSegv then cr2 else 0
    siPid := if signal = 33 then p else 0 }

namespace State

def writeFrame (s : State) (p : Pid) (addr : UInt64) (frame : SignalFrame)
    (extended : ExtendedState) : State :=
  let frames := Function.update s.memory.frame p (Function.update (s.memory.frame p) addr frame)
  let fp := Function.update s.memory.fpstate p
    (Function.update (s.memory.fpstate p) frame.ucMcontext.fpstate extended)
  { s with memory := { s.memory with frame := frames, fpstate := fp } }

def deliver (s : State) (t : Tid) (thread : Thread) (process : Process) (signal : Nat)
    (action : KernelSigaction) : Option State := do
  -- the source clears the handler before it reads it back for `rip`
  let handler := if action.flags &&& saResetHand ≠ 0 then sigDfl else action.handler
  let actions := Function.update process.signalActions signal { action with handler := handler }
  let s := s.setProcess thread.process { process with signalActions := actions }
  let addr := frameAddr s.extendedStateSize thread action
  let fpstate := alignUp64 (addr + signalFrameSize) 64
  let extended ← thread.context.extendedState
  let frame := signalFrameFor thread thread.process signal action fpstate s.cpu.cr2
  let s := s.writeFrame thread.process addr frame extended
  return s.setThread t (thread.enterHandler signal action handler addr)

def dispatchSignal (s : State) (t : Tid) (thread : Thread) (signal : Nat) : Option State := do
  let process ← s.processes thread.process
  let action := process.signalActions signal
  let thread := (thread.takeSignal signal).restartSyscall action
  let s := s.setThread t thread
  if action.handler = sigIgn then
    return s
  else if action.handler = sigDfl then
    match signalDefaultAction signal with
    | .ignore => return s
    | .terminate => s.terminateProcess thread.process (some signal)
    | .core => s.terminateProcess thread.process (some signal)
    | .cont => return s
    | .stop => s.dequeueThread t (some signal)
  else if action.restorer = 0 then
    s.terminateProcess thread.process (some signal)
  else
    s.deliver t thread process signal action

def dispatchPendingSignal (s : State) (t : Tid) : Option State := do
  let thread ← s.threads t
  let thread := thread.beginDispatch
  match thread.nextSignal with
  | none => return s.setThread t thread
  | some signal => if signal < 64 then s.dispatchSignal t thread signal else none

def returnFromSignal (s : State) (t : Tid) : Option State := do
  let thread ← s.threads t
  let addr ← thread.signals.signalFrame
  let frame := s.memory.frame thread.process addr
  let _ ← thread.context.extendedState
  let s := s.setThread t
    (thread.leaveHandler frame (s.memory.fpstate thread.process frame.ucMcontext.fpstate))
  let (s,_) ← s.trigger (.signalReturn t) true intMax
  return s

end State

end SabaOS.Sched
