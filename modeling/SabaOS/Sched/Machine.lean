import Mathlib.Logic.Relation
import SabaOS.Sched.Signal

namespace SabaOS.Sched

section Isr

def Cpu.save (cpu : Cpu) (thread : Thread) : Context where
  gprState := cpu.gprState
  extendedState := thread.context.extendedState.map fun _ => cpu.extendedState
  gsBase := cpu.kernelGsBase
  fsBase := cpu.fsBase
  savedUserStack := cpu.userStack
  savedKernelStack := cpu.kernelStack

def Cpu.restore (cpu : Cpu) (thread : Thread) : Cpu :=
  { cpu with
    gprState := thread.context.gprState
    extendedState := thread.context.extendedState.getD cpu.extendedState }

namespace State

open SabaOS.Lib

def saveCurrent (s : State) (t : Tid) : Option State := do
  let thread ← s.threads t
  let state := if thread.state = .running then .ready else thread.state
  return s.setThread t { thread with context := s.cpu.save thread, state := state, yieldAwait := false }

def pickFirst (s : State) : Option Tid :=
  if s.schedLinks.isEmpty none then some s.idleThread
  else match (s.schedLinks none).next with
    | some (some t) => some t
    | _ => none

def pickNext (s : State) : Option Tid :=
  match s.cpu.runningThread with
  | some t =>
    match (s.schedLinks (some t)).next with
    | some (some u) => some u
    | _ => s.pickFirst
  | none => s.pickFirst

def switchCpu (cpu : Cpu) (t : Tid) (thread : Thread) : Cpu :=
  { cpu with
    userStack := thread.context.savedUserStack
    kernelStack := thread.context.savedKernelStack
    kernelGsBase := if thread.context.gprState.isUser then thread.context.gsBase else cpu.self
    runningThread := some t
    fsBase := thread.context.fsBase }

def switchTo (s : State) (t : Tid) : Option State := do
  let thread ← s.threads t
  if thread.state = .blocked ∨ thread.state = .zombie then
    none
  else if thread.process = s.kernelProcess then
    return s.setCpu (switchCpu s.cpu t thread)
  else
    let process ← s.processes thread.process
    if process.hasPagemap then
      return s.setCpu { switchCpu s.cpu t thread with activePagemap := some thread.process }
    else
      none

def resumeStopped (s : State) (t : Tid) : Option State := do
  let thread ← s.threads t
  if thread.enqueuedBySignal = sigCont ∧ thread.state = .stopped then
    let s := s.setThread t { thread with state := .ready }
    let process ← s.processes thread.process
    let s := s.setProcess thread.process
      { process with waitStatus := sigCont, waitCode := cldContinued }
    let (s,_) ← s.trigger (.continued thread.process) false intMax
    return s
  else
    return s

def handleSignals (s : State) (t : Tid) : Option State := do
  let thread ← s.threads t
  if thread.context.gprState.isUser then
    if thread.signals.enteringSignal then s.dispatchPendingSignal t
    else if thread.signals.exitingSignal then s.returnFromSignal t
    else return s
  else
    return s

def writeChildTid (s : State) (t : Tid) : Option State := do
  let thread ← s.threads t
  if thread.signals.setChildTid ≠ 0 then
    let s := s.setWord thread.process thread.signals.setChildTid t.toUInt32
    return s.setThread t { thread with signals := { thread.signals with setChildTid := 0 } }
  else
    return s

def loadThread (s : State) (t : Tid) : Option (State × Bool) := do
  let thread ← s.threads t
  if thread.state = .zombie ∨ thread.state = .stopped then
    return (s,true)
  else
    return ((s.setThread t { thread with state := .running }).setCpu (s.cpu.restore thread),false)

def enterPass (s : State) : Option State :=
  match s.cpu.runningThread with
  | some t => s.saveCurrent t
  | none => some s

def runPicked (s : State) (t : Tid) : Option (State × Bool) := do
  let s ← s.switchTo t
  let s ← s.resumeStopped t
  let s ← s.handleSignals t
  let s ← s.writeChildTid t
  s.loadThread t

-- One turn of `scheduler_isr` from its label `retry`; the flag says that it ends in `goto retry`.
def schedulerPass (s : State) : Option (State × Bool) := do
  let s ← s.enterPass
  let t ← s.pickNext
  s.runPicked t

end State

end Isr

section Machine

inductive Op where
  | user (cpu : Cpu) (memory : Memory)
  | adjust (t : Tid) (signals : SignalState)
  | setActions (p : Pid) (actions : Nat → KernelSigaction)
  | enqueue (t : Tid) (signal : Int)
  | dequeue (t : Tid) (stopSignal : Option Nat)
  | sendSignal (t : Tid) (signal : Nat)
  | terminateThread (t : Tid) (terminateSignal : Option Nat)
  | terminateProcess (p : Pid) (terminateSignal : Option Nat)
  | wait (events : List (Option EventId)) (nonblocking : Bool)
  | finishWait
  | clearListeners (t : Tid)
  | trigger (e : EventId) (drop : Bool) (maxToWake : Int)
  | futexWait (uaddr : UInt64) (expected : UInt32) (timeout : Bool)
  | spawn (t : Tid) (p : Pid) (context : Context) (signals : SignalState)
  | futexWake (uaddr : UInt64) (maxToWake : Int)
  | exception (signal : Nat)
  | interrupt

structure Machine where
  state : State
  retrying : Bool

namespace State

-- User code of the running thread: its registers and memory may change in any way.
def userRun (s : State) (cpu : Cpu) (memory : Memory) : State :=
  { s with
    memory := memory
    cpu := { cpu with
      runningThread := s.cpu.runningThread
      kernelStack := s.cpu.kernelStack
      self := s.cpu.self
      activePagemap := s.cpu.activePagemap } }

def adjustSignals (s : State) (t : Tid) (signals : SignalState) : Option State := do
  let thread ← s.threads t
  return s.setThread t { thread with signals := signals }

def setActions (s : State) (p : Pid) (actions : Nat → KernelSigaction) : Option State := do
  let process ← s.processes p
  return s.setProcess p { process with signalActions := actions }

def exceptionHandler (s : State) (signal : Nat) : Option State := do
  let t ← s.cpu.runningThread
  let s ← s.sendSignal t signal
  let thread ← s.threads t
  let signals := { thread.signals with enteringSignal := true }
  let s := s.setThread t { thread with context := s.cpu.save thread, signals := signals }
  let s ← s.dispatchPendingSignal t
  let thread ← s.threads t
  return s.setCpu (s.cpu.restore thread)

def spawnProcess (s : State) (t : Tid) (p : Pid) : Option State :=
  match s.processes p with
  | some process => some (s.setProcess p
      { process with
        threadList := process.threadList ++ [t]
        numLivingThreads := process.numLivingThreads + 1 })
  | none => do
    let u ← s.cpu.runningThread
    let thread ← s.threads u
    let parent ← s.processes thread.process
    if t = p then
      let s := s.setProcess thread.process
        { parent with childrenList := parent.childrenList ++ [p] }
      return s.setProcess p
        { threadList := [t]
          numLivingThreads := 1
          parent := some thread.process
          signalActions := parent.signalActions
          closing := parent.closing }
    else
      none

def spawn (s : State) (t : Tid) (p : Pid) (context : Context) (signals : SignalState) :
    Option State :=
  match s.threads t with
  | some _ => none
  | none => do
    let s ← s.spawnProcess t p
    let links ← s.schedLinks.addBefore none (some t)
    return (s.setSched links).setThread t
      { process := p, state := .ready, context := context, signals := signals }

def runningFree (s : State) : Option Tid := do
  let t ← s.cpu.runningThread
  let thread ← s.threads t
  if thread.inWait then none else some t

def runningInWait (s : State) : Option Tid := do
  let t ← s.cpu.runningThread
  let thread ← s.threads t
  if thread.inWait ∧ ¬thread.yieldAwait then some t else none

def isZombie (s : State) (t : Tid) : Bool :=
  match s.threads t with
  | some thread => thread.state = .zombie
  | none => false

def call (s : State) : Op → Option State
  | .user cpu memory => some (s.userRun cpu memory)
  | .adjust t signals => s.adjustSignals t signals
  | .setActions p actions => s.setActions p actions
  | .enqueue t signal => s.enqueueThread t signal
  | .dequeue t stopSignal => s.dequeueThread t stopSignal
  | .sendSignal t signal => s.sendSignal t signal
  | .terminateThread t terminateSignal => s.terminateThread t terminateSignal
  | .terminateProcess p terminateSignal => s.terminateProcess p terminateSignal
  | .wait events nonblocking => do
    let _ ← s.runningFree
    let (s,_) ← s.wait events nonblocking
    return s
  | .finishWait => do
    let t ← s.runningInWait
    let (s,_) ← s.finishWait t
    return s
  | .clearListeners t => if s.isZombie t then s.clearListeners t else none
  | .trigger e drop maxToWake => (s.trigger e drop maxToWake).map Prod.fst
  | .futexWait uaddr expected timeout => do
    let _ ← s.runningFree
    let (s,_) ← s.futexWait uaddr expected timeout
    return s
  | .spawn t p context signals => s.spawn t p context signals
  | .futexWake uaddr maxToWake => (s.futexWake uaddr maxToWake).map Prod.fst
  | .exception signal => s.exceptionHandler signal
  | .interrupt => none

end State

namespace Machine

def step (m : Machine) (op : Op) : Option Machine :=
  match op with
  | .interrupt => do
    let (s,retry) ← m.state.schedulerPass
    return ⟨s,retry⟩
  | op => if m.retrying then none else (m.state.call op).map fun s => ⟨s,false⟩

end Machine

end Machine

end SabaOS.Sched
