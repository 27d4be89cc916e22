import SabaOS.Sched.State

namespace SabaOS.Sched.State

open SabaOS.Lib

def enqueueThread (s : State) (t : Tid) (signal : Int) : Option State := do
  let thread ← s.threads t
  if thread.state ≠ .blocked ∧ thread.state ≠ .stopped then
    return s
  if thread.state = .stopped ∧ signal ≠ sigCont then
    return s
  let links ← s.schedLinks.addBefore none (some t)
  let state := if thread.state = .blocked then .ready else thread.state
  return (s.setSched links).setThread t
    { thread with enqueuedBySignal := signal, state := state }

def wake (s : State) (listener : Listener) : Option State := do
  let thread ← s.threads listener.thread
  enqueueThread (s.setThread listener.thread { thread with whichEvent := listener.which })
    listener.thread (-1)

-- A walk longer than the number of cells ever allocated repeats a node: the code loops forever
-- there, since waking a thread changes no listener link.
def triggerLoop (e : EventId) (maxToWake : Int) :
    Nat → State → ListenerAddr → Option ListenerAddr → Nat → Option (State × Nat)
  | 0, _, _, _, _ => none
  | fuel + 1, s, pos, next, woken =>
    if pos = .head e then some (s,woken)
    else match pos with
      | .head _ => none
      | .node b i => do
        let s ← s.wake (s.nodes b i)
        if (woken + 1 : Int) ≥ maxToWake then
          return (s,woken + 1)
        let pos ← next
        triggerLoop e maxToWake fuel s pos (s.listenerLinks pos).next (woken + 1)

def trigger (s : State) (e : EventId) (drop : Bool) (maxToWake : Int) : Option (State × Nat) :=
  if (s.events e).numListeners = 0 then
    some (if drop then s else s.setEvent e { s.events e with pending := (s.events e).pending + 1 },0)
  else do
    let pos ← (s.listenerLinks (.head e)).next
    triggerLoop e maxToWake (s.cellCount + 1) s pos (s.listenerLinks pos).next 0

def growCapacity : Nat → Nat → Nat → Nat
  | 0, cap, _ => cap
  | fuel + 1, cap, newCap => if cap < newCap then growCapacity fuel (cap * 2) newCap else cap

def moveNode (s : State) (src dst i : Nat) : State :=
  (s.setNode dst i (s.nodes src i)).setListenerLinks
    (Function.update s.listenerLinks (.node dst i) (s.listenerLinks (.node src i)))

def moveNodes (s : State) (src dst : Nat) : Nat → State
  | 0 => s
  | n + 1 => (moveNodes s src dst n).moveNode src dst n

def moveBuffer (s : State) (v : ListenerVector) (dst : Nat) : State :=
  match v.buffer with
  | some src => s.moveNodes src dst v.size
  | none => s

def allocate (s : State) (cells : Nat) : State :=
  { s with nextBuffer := s.nextBuffer + 1, cellCount := s.cellCount + cells }

-- The old buffer goes back to a bump allocator whose `free` does nothing: its bytes stay.
def reserveInternal (s : State) (v : ListenerVector) (newCap : Nat) : State × ListenerVector :=
  if newCap ≤ v.capacity then (s,v)
  else
    let cap := growCapacity newCap (if v.capacity ≠ 0 then v.capacity else 1) newCap
    ((s.allocate cap).moveBuffer v s.nextBuffer,
      { v with buffer := some s.nextBuffer, capacity := cap })

def emplaceBack (s : State) (t : Tid) (e : EventId) (which : Nat) :
    Option (State × ListenerAddr) := do
  let thread ← s.threads t
  let (s,v) := s.reserveInternal thread.listeners (thread.listeners.size + 1)
  let b ← v.buffer
  let s := s.setNode b v.size ⟨t,some e,which⟩
  let s := s.setListenerLinks (Function.update s.listenerLinks (.node b v.size) .null)
  return (s.setThread t { thread with listeners := { v with size := v.size + 1 } },.node b v.size)

def register (s : State) (t : Tid) (e : EventId) (which : Nat) : Option State := do
  let (s,a) ← s.emplaceBack t e which
  let links ← s.listenerLinks.addBefore (.head e) a
  let event := s.events e
  return (s.setListenerLinks links).setEvent e
    { event with numListeners := event.numListeners + 1 }

def registerAll (t : Tid) : Nat → List (Option EventId) → State → Option State
  | _, [], s => some s
  | i, none :: es, s => registerAll t (i + 1) es s
  | i, some e :: es, s => do
    let s ← s.register t e i
    registerAll t (i + 1) es s

def slots : Nat → List (Option EventId) → List (Nat × EventId)
  | _, [] => []
  | i, none :: es => slots (i + 1) es
  | i, some e :: es => (i,e) :: slots (i + 1) es

def clearOne (s : State) (b i : Nat) : Option State :=
  match (s.nodes b i).event with
  | none => some s
  | some e => do
    let links ← s.listenerLinks.remove (.node b i)
    let event := s.events e
    return ((s.setListenerLinks links).setEvent e
      { event with numListeners := event.numListeners - 1 }).setNode b i
      { s.nodes b i with event := none }

def clearLoop (b : Nat) : Nat → Nat → State → Option State
  | _, 0, s => some s
  | i, n + 1, s => do
    let s ← s.clearOne b i
    clearLoop b (i + 1) n s

def clearVector (s : State) (v : ListenerVector) : Option State :=
  match v.buffer with
  | some b => clearLoop b 0 v.size s
  | none => some s

def clearListeners (s : State) (t : Tid) : Option State := do
  let thread ← s.threads t
  let s ← s.clearVector thread.listeners
  return s.setThread t
    { thread with listeners := { thread.listeners with size := 0 }, registered := [] }

open SabaOS.Lib

def sendSignal (s : State) (t : Tid) (signal : Nat) : Option State := do
  let thread ← s.threads t
  let s := s.setThread t { thread with pendingSignals := thread.pendingSignals ||| getSignalBit signal }
  let s ← s.enqueueThread t signal
  let (s,_) ← s.trigger (.signal t) false intMax
  return s

def getMainThread (s : State) (p : Pid) : Option Tid := do
  let process ← s.processes p
  let t ← process.threadList.head?
  if t = p then some t else none

def sendProcessSignal (s : State) (p : Pid) (signal : Nat) : Option State := do
  let t ← s.getMainThread p
  s.sendSignal t signal

def notifyStop (s : State) (p : Pid) (signal : Nat) : Option State := do
  let process ← s.processes p
  let s := s.setProcess p { process with waitStatus := signal, waitCode := cldStopped }
  let (s,_) ← s.trigger (.stopped p) false intMax
  let process ← s.processes p
  let q ← process.parent
  let parent ← s.processes q
  if (parent.signalActions sigChld).flags &&& saNoCldStop = 0 then
    s.sendProcessSignal q sigChld
  else
    return s

def dequeueThread (s : State) (t : Tid) (stopSignal : Option Nat) : Option State := do
  let thread ← s.threads t
  if thread.state = .ready ∨ thread.state = .running then
    let links ← s.schedLinks.remove (some t)
    let s := s.setSched links
    match stopSignal with
    | some signal => (s.setThread t { thread with state := .stopped }).notifyStop thread.process signal
    | none => return s.setThread t { thread with state := .blocked }
  else
    none

def leaveParent (s : State) (child : Pid) : Option Pid → Option State
  | some old => do
    let process ← s.processes old
    return s.setProcess old { process with childrenList := process.childrenList.erase child }
  | none => some s

def setParent (s : State) (child newParent : Pid) : Option State := do
  let process ← s.processes child
  let s ← s.leaveParent child process.parent
  let process ← s.processes child
  let s := s.setProcess child { process with parent := some newParent }
  let parent ← s.processes newParent
  return s.setProcess newParent { parent with childrenList := parent.childrenList ++ [child] }

def triggerAll (s : State) (events : List (EventId × Bool)) : Option State :=
  events.foldlM (fun s e => (s.trigger e.1 e.2 intMax).map Prod.fst) s

def zombify (s : State) (p : Pid) (terminateSignal : Option Nat) : Option State := do
  let process ← s.processes p
  if p = s.initProcess then
    none
  else
    let process := match terminateSignal with
      | some signal => { process with isZombie := true, waitStatus := signal, waitCode := cldKilled }
      | none => { process with isZombie := true }
    let s := s.setProcess p process
    let s ← process.childrenList.foldlM (fun s child => s.setParent child s.initProcess) s
    let s ← s.triggerAll process.closing
    let process ← s.processes p
    let s := s.setProcess p { process with hasPagemap := false }
    let (s,_) ← s.trigger (.zombie p) false intMax
    let process ← s.processes p
    let q ← process.parent
    s.sendProcessSignal q sigChld

def futexWake (s : State) (uaddr : UInt64) (maxToWake : Int) : Option (State × Int) := do
  let t ← s.cpu.runningThread
  let thread ← s.threads t
  match s.memory.physicalAddr thread.process uaddr with
  | none => return (s,-efault)
  | some phyAddr =>
    if phyAddr ∈ s.futexTable then
      let (s,woken) ← s.trigger (.futex phyAddr) true maxToWake
      return (s,woken)
    else
      return (s,0)

def unlinkRunnable (s : State) (t : Tid) (thread : Thread) : Option (Links (Option Tid)) :=
  if thread.state = .ready ∨ thread.state = .running then s.schedLinks.remove (some t)
  else some s.schedLinks

def terminateThread (s : State) (t : Tid) (terminateSignal : Option Nat) : Option State := do
  let thread ← s.threads t
  if thread.state = .zombie then
    return s
  let links ← s.unlinkRunnable t thread
  let s := (s.setSched links).setThread t { thread with state := .zombie }
  let process ← s.processes thread.process
  let living := process.numLivingThreads - 1
  let s := s.setProcess thread.process { process with numLivingThreads := living }
  if living = 0 then
    s.zombify thread.process terminateSignal
  else if thread.signals.clearChildTid ≠ 0 then
    if s.cpu.activePagemap = some thread.process then
      let s := s.setWord thread.process thread.signals.clearChildTid 0
      let (s,_) ← s.futexWake thread.signals.clearChildTid 1
      return s
    else
      none
  else
    return s

def terminateProcess (s : State) (p : Pid) (terminateSignal : Option Nat) : Option State := do
  let process ← s.processes p
  process.threadList.foldlM (fun s t => s.terminateThread t terminateSignal) s

def takePending (s : State) : Nat → List (Option EventId) → Option (State × Nat)
  | _, [] => none
  | i, none :: es => s.takePending (i + 1) es
  | i, some e :: es =>
    if (s.events e).pending > 0 then
      some (s.setEvent e { s.events e with pending := (s.events e).pending - 1 },i)
    else
      s.takePending (i + 1) es

def wait (s : State) (events : List (Option EventId)) (nonblocking : Bool) :
    Option (State × Option Int) := do
  let t ← s.cpu.runningThread
  let thread ← s.threads t
  if thread.hasPendingSignals then
    return (s,some (-eintr))
  match s.takePending 0 events with
  | some (s,i) => return (s,some i)
  | none =>
    if nonblocking then
      return (s,some (-eagain))
    else if thread.listeners.size = 0 then
      let s ← registerAll t 0 events s
      let s ← s.dequeueThread t none
      let thread ← s.threads t
      return (s.setThread t
        { thread with inWait := true, yieldAwait := true, registered := slots 0 events },none)
    else
      none

def finishWait (s : State) (t : Tid) : Option (State × Int) := do
  let s ← s.clearListeners t
  let thread ← s.threads t
  let ret := if thread.enqueuedBySignal ≠ -1 then -eintr else thread.whichEvent
  return (s.setThread t { thread with inWait := false, futexAddr := none },ret)

def armTimer (s : State) (t : Tid) : State :=
  (s.setEvent (.timer t) {}).setListenerLinks (s.listenerLinks.init (.head (.timer t)))

def openFutex (s : State) (t : Tid) (phyAddr : Nat) (timeout : Bool) : State :=
  let s := { s with futexTable := s.futexTable.insert phyAddr }
  if timeout then s.armTimer t else s

def futexEvents (t : Tid) (phyAddr : Nat) (timeout : Bool) : List (Option EventId) :=
  if timeout then [some (.futex phyAddr),some (.timer t)] else [some (.futex phyAddr)]

def futexWait (s : State) (uaddr : UInt64) (expected : UInt32) (timeout : Bool) :
    Option (State × Option Int) := do
  let t ← s.cpu.runningThread
  let thread ← s.threads t
  if s.memory.word thread.process uaddr ≠ expected then
    return (s,some (-eagain))
  match s.memory.physicalAddr thread.process uaddr with
  | none => return (s,some (-efault))
  | some phyAddr =>
    let (s,ret) ← (s.openFutex t phyAddr timeout).wait (futexEvents t phyAddr timeout) false
    match ret with
    | some ret => return (s,some ret)
    | none =>
      let thread ← s.threads t
      return (s.setThread t { thread with futexAddr := some (phyAddr + uaddr.toNat % 4096) },none)

end SabaOS.Sched.State
