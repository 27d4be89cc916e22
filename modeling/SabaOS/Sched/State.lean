import Mathlib.Logic.Function.Basic
import Mathlib.Tactic.Ring
import SabaOS.Lib.Ring

namespace SabaOS.Sched

open SabaOS.Lib

abbrev Tid := Nat

abbrev Pid := Nat

inductive ThreadState where
  | ready
  | running
  | blocked
  | stopped
  | zombie
deriving DecidableEq, Repr

structure InterruptState where
  ds : UInt64 := 0
  es : UInt64 := 0
  r15 : UInt64 := 0
  r14 : UInt64 := 0
  r13 : UInt64 := 0
  r12 : UInt64 := 0
  r11 : UInt64 := 0
  r10 : UInt64 := 0
  r9 : UInt64 := 0
  r8 : UInt64 := 0
  rbp : UInt64 := 0
  rdi : UInt64 := 0
  rsi : UInt64 := 0
  rdx : UInt64 := 0
  rcx : UInt64 := 0
  rbx : UInt64 := 0
  rax : UInt64 := 0
  err : UInt64 := 0
  rip : UInt64 := 0
  cs : UInt64 := 0
  rflags : UInt64 := 0
  rsp : UInt64 := 0
  ss : UInt64 := 0
deriving DecidableEq, Repr

def InterruptState.isUser (s : InterruptState) : Bool := s.cs &&& 3 = 3

abbrev ExtendedState := List UInt8

structure Context where
  gprState : InterruptState := {}
  extendedState : Option ExtendedState := none
  gsBase : UInt64 := 0
  fsBase : UInt64 := 0
  savedUserStack : UInt64 := 0
  savedKernelStack : UInt64 := 0
deriving DecidableEq, Repr

structure AltStack where
  ssSp : UInt64 := 0
  ssFlags : UInt64 := 0
  ssSize : UInt64 := 0
deriving DecidableEq, Repr

structure SignalState where
  signalAltStack : AltStack := {}
  signalMask : UInt64 := 0
  enteringSignal : Bool := false
  exitingSignal : Bool := false
  signalFrame : Option UInt64 := none
  pollSavedSignalMask : UInt64 := 0
  hasPollSavedSignalMask : Bool := false
  lastSyscallNum : UInt64 := 0
  lastSyscallRip : UInt64 := 0
  lastSyscallRet : Int := 0
  setChildTid : UInt64 := 0
  clearChildTid : UInt64 := 0
deriving DecidableEq, Repr

inductive EventId where
  | futex (page : Nat)
  | timer (t : Tid)
  | signal (t : Tid)
  | signalReturn (t : Tid)
  | zombie (p : Pid)
  | stopped (p : Pid)
  | continued (p : Pid)
  | other (n : Nat)
deriving DecidableEq, Repr

structure ListenerVector where
  buffer : Option Nat := none
  size : Nat := 0
  capacity : Nat := 0
deriving DecidableEq, Repr

structure Thread where
  process : Pid
  state : ThreadState
  context : Context := {}
  yieldAwait : Bool := false
  listeners : ListenerVector := {}
  whichEvent : Nat := 0
  signals : SignalState := {}
  pendingSignals : UInt64 := 0
  enqueuedBySignal : Int := -1
  -- the thread is suspended in `Event::wait`, between its yield and `clear_listeners`
  inWait : Bool := false
  -- the slots its `Event::wait` has registered and not yet cleared
  registered : List (Nat × EventId) := []
  -- the physical address a thread suspended in `futex_wait` waits on
  futexAddr : Option Nat := none
deriving DecidableEq, Repr

structure KernelSigaction where
  handler : UInt64 := 0
  flags : UInt64 := 0
  restorer : UInt64 := 0
  mask : UInt64 := 0
deriving DecidableEq, Repr

structure Process where
  threadList : List Tid
  numLivingThreads : Int
  hasPagemap : Bool := true
  parent : Option Pid := none
  childrenList : List Pid := []
  waitStatus : Int := 0
  waitCode : Int := 0
  isZombie : Bool := false
  signalActions : Nat → KernelSigaction := fun _ => {}
  -- the events that closing its file descriptors triggers, with the `drop` flag of each
  closing : List (EventId × Bool) := []

structure Event where
  pending : Int := 0
  numListeners : Int := 0
deriving DecidableEq, Repr

structure Listener where
  thread : Tid := 0
  event : Option EventId := none
  which : Nat := 0
deriving DecidableEq, Repr

inductive ListenerAddr where
  | head (e : EventId)
  | node (buffer index : Nat)
deriving DecidableEq, Repr

structure SigContext where
  r15 : UInt64 := 0
  r14 : UInt64 := 0
  r13 : UInt64 := 0
  r12 : UInt64 := 0
  r11 : UInt64 := 0
  r10 : UInt64 := 0
  r9 : UInt64 := 0
  r8 : UInt64 := 0
  rbp : UInt64 := 0
  rdi : UInt64 := 0
  rsi : UInt64 := 0
  rdx : UInt64 := 0
  rcx : UInt64 := 0
  rbx : UInt64 := 0
  rax : UInt64 := 0
  rip : UInt64 := 0
  rsp : UInt64 := 0
  eflags : UInt64 := 0
  fpstate : UInt64 := 0
deriving DecidableEq, Repr

structure SignalFrame where
  restorer : UInt64 := 0
  ucFlags : UInt64 := 0
  ucLink : UInt64 := 0
  ucMcontext : SigContext := {}
  ucSigmask : UInt64 := 0
  siSigno : Int := 0
  siErrno : Int := 0
  siCode : Int := 0
  siAddr : UInt64 := 0
  siPid : Int := 0
deriving DecidableEq, Repr

structure Memory where
  word : Pid → UInt64 → UInt32
  frame : Pid → UInt64 → SignalFrame
  fpstate : Pid → UInt64 → ExtendedState
  physicalAddr : Pid → UInt64 → Option Nat

structure Cpu where
  runningThread : Option Tid := none
  gprState : InterruptState := {}
  extendedState : ExtendedState := []
  kernelGsBase : UInt64 := 0
  fsBase : UInt64 := 0
  userStack : UInt64 := 0
  kernelStack : UInt64 := 0
  cr2 : UInt64 := 0
  self : UInt64 := 0
  activePagemap : Option Pid := none
deriving DecidableEq, Repr

structure State where
  threads : Tid → Option Thread
  processes : Pid → Option Process
  schedLinks : Links (Option Tid)
  events : EventId → Event
  nodes : Nat → Nat → Listener
  listenerLinks : Links ListenerAddr
  nextBuffer : Nat
  cellCount : Nat
  futexTable : List Nat
  memory : Memory
  cpu : Cpu
  idleThread : Tid
  kernelProcess : Pid
  initProcess : Pid
  extendedStateSize : UInt64

def sigChld : Nat := 17

def sigCont : Nat := 18

def cldKilled : Int := 2

def cldStopped : Int := 5

def cldContinued : Int := 6

def saNoCldStop : UInt64 := 1

def intMax : Int := 2147483647

def eagain : Int := 11

def eintr : Int := 4

def efault : Int := 14

def getSignalBit (signal : Nat) : UInt64 := 1 <<< (signal - 1).toUInt64

def Thread.hasPendingSignals (t : Thread) : Bool :=
  t.pendingSignals &&& ~~~t.signals.signalMask ≠ 0

namespace State

def setThread (s : State) (t : Tid) (thread : Thread) : State :=
  { s with threads := Function.update s.threads t (some thread) }

def setProcess (s : State) (p : Pid) (process : Process) : State :=
  { s with processes := Function.update s.processes p (some process) }

def setEvent (s : State) (e : EventId) (event : Event) : State :=
  { s with events := Function.update s.events e event }

def setNode (s : State) (b i : Nat) (listener : Listener) : State :=
  { s with nodes := Function.update s.nodes b (Function.update (s.nodes b) i listener) }

def setCpu (s : State) (cpu : Cpu) : State := { s with cpu := cpu }

def setSched (s : State) (links : Links (Option Tid)) : State := { s with schedLinks := links }

def setListenerLinks (s : State) (links : Links ListenerAddr) : State :=
  { s with listenerLinks := links }

def setWord (s : State) (p : Pid) (a : UInt64) (w : UInt32) : State :=
  let word := Function.update s.memory.word p (Function.update (s.memory.word p) a w)
  { s with memory := { s.memory with word := word } }

theorem setThread_threads (s : State) (t u : Tid) (thread : Thread) :
    (s.setThread t thread).threads u = if u = t then some thread else s.threads u := by
  by_cases h : u = t
  · simp [setThread,h]
  · simp [setThread,h]

end State

end SabaOS.Sched
