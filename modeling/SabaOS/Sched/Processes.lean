import SabaOS.Lib.Ring

namespace SabaOS.Sched.Processes

open SabaOS.Lib

-- Objects are numbered in the order they are made: `free` gives nothing back, so no two of them
-- ever have one address.
abbrev ProcessId := Nat

abbrev GroupId := Nat

abbrev SessionId := Nat

def kernelProcess : ProcessId := 0

def initProcess : ProcessId := 1

inductive SiblingCell where
  | childrenList (p : ProcessId)
  | siblingLink (p : ProcessId)
deriving DecidableEq, Repr

def SiblingCell.listEntry : SiblingCell → Option ProcessId
  | .childrenList _ => none
  | .siblingLink p => some p

inductive GroupCell where
  | processList (g : GroupId)
  | groupLink (p : ProcessId)
deriving DecidableEq, Repr

-- `infop` is not a null pointer: `wait4` always passes one.
structure WaitOptions where
  nohang : Bool := false
  nowait : Bool := false
  exited : Bool := false
  stopped : Bool := false
  continued : Bool := false
  infop : Bool := false
deriving DecidableEq, Repr

inductive IdType where
  | all
  | pid
  | other
deriving DecidableEq, Repr

-- What a blocked `waitid_impl` holds: the children it collected before it went to sleep.
structure Waiter where
  targetChildren : List ProcessId
  options : WaitOptions
deriving DecidableEq, Repr

structure Thread where
  process : ProcessId
  isZombie : Bool := false
  waiter : Option Waiter := none
deriving DecidableEq, Repr

-- `freed` records that the object was deleted; what it held can still be read.
structure Process where
  pid : Nat
  numLivingThreads : Nat := 0
  parent : Option ProcessId := none
  waitStatus : Int := 0
  waitCode : Int := 0
  isZombie : Bool := false
  hasPerformedExecve : Bool := false
  group : Option GroupId := none
  freed : Bool := false
deriving DecidableEq, Repr

structure ProcessGroup where
  session : SessionId
  leaderProcess : ProcessId
deriving DecidableEq, Repr

structure System where
  processes : ProcessId → Process
  numProcesses : Nat
  groups : GroupId → ProcessGroup
  numGroups : Nat
  leaderGroup : SessionId → Option GroupId
  numSessions : Nat
  siblings : Links SiblingCell
  groupLinks : Links GroupCell
  threadTable : List (Option Thread)
  firstFreeTid : Nat

def esrch : Int := 3

def eintr : Int := 4

def echild : Int := 10

def eacces : Int := 13

def einval : Int := 22

def eperm : Int := 1

def cldExited : Int := 1

def cldKilled : Int := 2

def Process.zombified (process : Process) (terminateSignal : Option Int) : Process :=
  match terminateSignal with
  | some signal => { process with isZombie := true, waitStatus := signal, waitCode := cldKilled }
  | none => { process with isZombie := true }

namespace System

def setProcess (s : System) (p : ProcessId) (process : Process) : System :=
  { s with processes := Function.update s.processes p process }

def allocateTid (s : System) : Nat × System :=
  let table := if s.threadTable.isEmpty then [none,none] else s.threadTable
  match (List.range table.length).find? fun i => s.firstFreeTid ≤ i ∧ table[i]? = some none with
  | some i => (i,{ s with threadTable := table, firstFreeTid := i + 1 })
  | none => (table.length,
      { s with threadTable := table ++ [none], firstFreeTid := table.length + 1 })

def thread (s : System) (t : Nat) : Option Thread := (s.threadTable[t]?).join

def getFromTid (s : System) (tid : Int) : Option Thread :=
  if tid ≤ 0 then none else s.thread tid.toNat

def newProcess (s : System) : ProcessId × System :=
  let (tid,s) := s.allocateTid
  let p := s.numProcesses
  (p,{ s with
    processes := Function.update s.processes p { pid := tid }
    numProcesses := p + 1
    siblings := Links.init (Function.update s.siblings (.siblingLink p) .null) (.childrenList p)
    groupLinks := Function.update s.groupLinks (.groupLink p) .null })

def newThread (s : System) (p : ProcessId) (tid : Nat) : System :=
  let process := s.processes p
  { s.setProcess p { process with numLivingThreads := process.numLivingThreads + 1 } with
    threadTable := s.threadTable.set tid (some { process := p }) }

def newGroup (s : System) (session : SessionId) (leaderProcess : ProcessId) : GroupId × System :=
  let g := s.numGroups
  (g,{ s with
    groups := Function.update s.groups g ⟨session,leaderProcess⟩
    numGroups := g + 1
    groupLinks := s.groupLinks.init (.processList g) })

def newSession (s : System) : SessionId × System :=
  (s.numSessions,{ s with
    leaderGroup := Function.update s.leaderGroup s.numSessions none
    numSessions := s.numSessions + 1 })

def setLeaderGroup (s : System) (session : SessionId) (g : Option GroupId) : System :=
  { s with leaderGroup := Function.update s.leaderGroup session g }

def leaveGroup (s : System) (p : ProcessId) : Option (Links GroupCell) :=
  if (s.processes p).group.isSome then s.groupLinks.remove (.groupLink p) else some s.groupLinks

def addProcess (s : System) (g : GroupId) (p : ProcessId) : Option System := do
  let links ← s.leaveGroup p
  let links ← links.addBefore (.processList g) (.groupLink p)
  return { s.setProcess p { s.processes p with group := some g } with groupLinks := links }

def isInvalid (link : ListHead SiblingCell) : Bool := link.next.isNone || link.prev.isNone

def leaveSiblings (s : System) (p : ProcessId) : Option (Links SiblingCell) :=
  if isInvalid (s.siblings (.siblingLink p)) then some s.siblings
  else s.siblings.remove (.siblingLink p)

def setParent (s : System) (p newParent : ProcessId) : Option System := do
  let s := s.setProcess p { s.processes p with parent := some newParent }
  let links ← s.leaveSiblings p
  let links ← links.addBefore (.childrenList newParent) (.siblingLink p)
  let s := { s with siblings := links }
  let g ← (s.processes newParent).group
  s.addProcess g p

-- The loop of `zombify` over the list of children, the next of which is read before one moves.
def adopt (s : System) (p : ProcessId) : Nat → SiblingCell → Option System
  | 0,_ => none
  | fuel + 1,cell =>
    if cell = .childrenList p then some s
    else do
      let child ← cell.listEntry
      let next ← (s.siblings cell).next
      let s ← s.setParent child initProcess
      s.adopt p fuel next

def zombify (s : System) (p : ProcessId) (terminateSignal : Option Int) : Option System :=
  if p = initProcess then none
  else do
    let s := s.setProcess p (Process.zombified (s.processes p) terminateSignal)
    let first ← (s.siblings (.childrenList p)).next
    s.adopt p (s.numProcesses + 1) first

def terminateThread (s : System) (tid : Nat) (terminateSignal : Option Int) : Option System := do
  let thread ← s.thread tid
  if thread.isZombie then
    return s
  else
    let s := { s with threadTable := s.threadTable.set tid (some { thread with isZombie := true }) }
    let process := s.processes thread.process
    let s := s.setProcess thread.process
      { process with numLivingThreads := process.numLivingThreads - 1 }
    if process.numLivingThreads - 1 = 0 then s.zombify thread.process terminateSignal else return s

def threadList (s : System) (p : ProcessId) : List Nat :=
  (List.range s.threadTable.length).filter fun t =>
    (s.thread t).any fun thread => thread.process = p

def terminateProcess (s : System) (p : ProcessId) (terminateSignal : Option Int) : Option System :=
  (s.threadList p).foldlM (fun s t => s.terminateThread t terminateSignal) s

def deleteThread (s : System) (t : Nat) : Option System := do
  let s ← s.terminateThread t none
  return { s with threadTable := s.threadTable.set t none }

def deleteProcess (s : System) (p : ProcessId) : Option System :=
  if (s.processes p).isZombie then do
    let siblings ← s.siblings.remove (.siblingLink p)
    let groupLinks ← s.groupLinks.remove (.groupLink p)
    let s := { s with siblings := siblings, groupLinks := groupLinks }
    let s ← (s.threadList p).foldlM deleteThread s
    return s.setProcess p { s.processes p with freed := true }
  else none

def cloneProcess (s : System) (p : ProcessId) : Option System := do
  let (q,s) := s.newProcess
  let s := s.newThread q (s.processes q).pid
  s.setParent q p

def cloneThread (s : System) (p : ProcessId) : System :=
  let (tid,s) := s.allocateTid
  s.newThread p tid

def sessionLeader (s : System) (p : ProcessId) : Option ProcessId := do
  let g ← (s.processes p).group
  let leaderGroup ← s.leaderGroup (s.groups g).session
  return (s.groups leaderGroup).leaderProcess

-- A call that fails leaves the system as it was; `none` is a null pointer that is followed.
def setpgidTarget (s : System) (p : ProcessId) (pid : Int) : Except Int ProcessId :=
  if pid = 0 then .ok p
  else match s.getFromTid pid with
    | none => .error esrch
    | some thread =>
      let target := thread.process
      if target ≠ p ∧ (s.processes target).parent ≠ some p then .error esrch
      else if (s.processes target).parent = some p ∧ (s.processes target).hasPerformedExecve then
        .error eacces
      else .ok target

def setpgidJoin (s : System) (target : ProcessId) (pgid : Int) : Option (System × Int) :=
  if pgid < 0 then some (s,-einval)
  else match s.getFromTid pgid with
    | none => some (s,-eperm)
    | some thread => do
      let g ← (s.processes thread.process).group
      let own ← (s.processes target).group
      if (s.groups g).session ≠ (s.groups own).session then return (s,-eperm)
      else return (← s.addProcess g target,0)

def setpgidLead (s : System) (target : ProcessId) : Option (System × Int) := do
  let own ← (s.processes target).group
  if (s.groups own).leaderProcess = target then return (s,0)
  else
    let (g,s) := s.newGroup (s.groups own).session target
    return (← s.addProcess g target,0)

def setpgid (s : System) (p : ProcessId) (pid pgid : Int) : Option (System × Int) :=
  match s.setpgidTarget p pid with
  | .error e => some (s,-e)
  | .ok target => do
    let leader ← s.sessionLeader target
    if leader = target then return (s,-eperm)
    else if pgid ≠ 0 ∧ pgid ≠ (s.processes target).pid then s.setpgidJoin target pgid
    else s.setpgidLead target

def setsid (s : System) (p : ProcessId) : Option (System × Int) := do
  let g ← (s.processes p).group
  if (s.groups g).leaderProcess = p then return (s,-eperm)
  else
    let (session,s) := s.newSession
    let (g,s) := s.newGroup session p
    let s ← s.addProcess g p
    return (s.setLeaderGroup session (s.processes p).group,(s.processes p).pid)

def addChild (options : WaitOptions) (child : ProcessId) : List ProcessId :=
  (if options.exited then [child] else []) ++ (if options.stopped then [child] else []) ++
    if options.continued then [child] else []

def targetChildren (s : System) (p : ProcessId) (idType : IdType) (id : Nat)
    (options : WaitOptions) : Option (Except Int (List ProcessId)) :=
  match idType with
  | .all =>
    if s.siblings.isEmpty (.childrenList p) then some (.error (-echild))
    else do
      let cells ← s.siblings.collect (.childrenList p) (s.numProcesses + 1)
      let children ← cells.mapM SiblingCell.listEntry
      return .ok (children.flatMap (addChild options))
  | .pid =>
    match s.thread id with
    | none => some (.error (-echild))
    | some thread =>
      if (s.processes thread.process).parent ≠ some p then some (.error (-echild))
      else some (.ok (addChild options thread.process))
  | .other => some (.error 0)

end System

inductive Reply where
  | returned (value : Int)
  | reaped (child : ProcessId) (pid : Nat) (status code : Int)
  | reported (child : ProcessId) (pid : Nat) (status code : Int)
  | blocked
deriving DecidableEq, Repr

namespace System

def setWaiter (s : System) (t : Nat) (waiter : Option Waiter) : System :=
  match s.thread t with
  | some thread =>
    { s with threadTable := s.threadTable.set t (some { thread with waiter := waiter }) }
  | none => s

-- `stray` is the word that lies in front of the process, where an empty list has its first thread id.
def getMainThread (s : System) (p : ProcessId) (stray : Int) : Option Int :=
  let tid := ((s.threadList p).head?.map Int.ofNat).getD stray
  if tid = (s.processes p).pid then some tid else none

def pollChildren (s : System) (t : Nat) (targets : List ProcessId) (options : WaitOptions)
    (stray : Int) : Option (System × Reply) :=
  match targets.find? fun child => (s.processes child).waitCode ≠ 0 with
  | some child =>
    let process := s.processes child
    let tid := s.getMainThread child stray
    let s := s.setWaiter t none
    if options.infop ∧ tid = none then none
    else if options.nowait then
      some (s,.reported child process.pid process.waitStatus process.waitCode)
    else if process.isZombie then do
      return (← s.deleteProcess child,.reaped child process.pid process.waitStatus process.waitCode)
    else
      some (s.setProcess child { process with waitCode := 0 },
        .reported child process.pid process.waitStatus process.waitCode)
  | none =>
    if options.nohang then some (s.setWaiter t none,.returned 0)
    else some (s.setWaiter t (some ⟨targets,options⟩),.blocked)

def waitid (s : System) (t : Nat) (p : ProcessId) (idType : IdType) (id : Nat)
    (options : WaitOptions) : Option (System × Reply) :=
  if !(options.exited || options.stopped || options.continued) then some (s,.returned (-einval))
  else do
    match ← s.targetChildren p idType id options with
    | .error e => return (s,.returned e)
    -- These children exist, and no list of theirs is empty.
    | .ok targets => s.pollChildren t targets options 0

end System

inductive Op where
  | kernelThread
  | fork (t : Nat)
  | cloneThread (t : Nat)
  | execve (t : Nat)
  | setpgid (t : Nat) (pid pgid : Int)
  | setsid (t : Nat)
  | exit (t : Nat)
  | exitGroup (t : Nat) (status : Int)
  -- a signal without handler ends the process of the thread it is dispatched in
  | fatalSignal (t : Nat) (signal : Int)
  -- the thread stops, or goes on
  | report (t : Nat) (status code : Int)
  | waitid (t : Nat) (idType : IdType) (id : Nat) (options : WaitOptions)
  -- a blocked `waitid_impl` goes on, or is interrupted
  | resume (t : Nat) (interrupted : Bool) (stray : Int)
deriving DecidableEq, Repr

namespace System

def caller (s : System) (t : Nat) : Option ProcessId := do
  let thread ← s.thread t
  if thread.isZombie ∨ thread.waiter.isSome ∨ thread.process = kernelProcess then none
  else some thread.process

def waiterOf (s : System) (t : Nat) : Option Waiter := do
  let thread ← s.thread t
  if thread.isZombie then none else thread.waiter

def quiet (s : System) : System × Reply := (s,.returned 0)

def answered (r : System × Int) : System × Reply := (r.1,.returned r.2)

def step (s : System) : Op → Option (System × Reply)
  | .kernelThread => some (s.cloneThread kernelProcess).quiet
  | .fork t => do return (← s.cloneProcess (← s.caller t)).quiet
  | .cloneThread t => do return (s.cloneThread (← s.caller t)).quiet
  | .execve t => do
    let p ← s.caller t
    return (s.setProcess p { s.processes p with hasPerformedExecve := true }).quiet
  | .setpgid t pid pgid => do return answered (← s.setpgid (← s.caller t) pid pgid)
  | .setsid t => do return answered (← s.setsid (← s.caller t))
  | .exit t => do
    let _ ← s.caller t
    return (← s.terminateThread t none).quiet
  | .exitGroup t status => do
    let p ← s.caller t
    let s := s.setProcess p { s.processes p with waitStatus := status, waitCode := cldExited }
    return (← s.terminateProcess p none).quiet
  | .fatalSignal t signal => do return (← s.terminateProcess (← s.caller t) (some signal)).quiet
  | .report t status code => do
    let p ← s.caller t
    return (s.setProcess p { s.processes p with waitStatus := status, waitCode := code }).quiet
  | .waitid t idType id options => do s.waitid t (← s.caller t) idType id options
  | .resume t interrupted stray => do
    let waiter ← s.waiterOf t
    if interrupted then return (s.setWaiter t none,.returned (-eintr))
    else s.pollChildren t waiter.targetChildren waiter.options stray

def run (s : System) : List Op → Option (System × List Reply)
  | [] => some (s,[])
  | op :: ops => do
    let (s,reply) ← s.step op
    let (s,replies) ← s.run ops
    return (s,reply :: replies)

-- Memory before anything is made in it: every constructor writes its own list heads.
def blank : System where
  processes := fun _ => { pid := 0 }
  numProcesses := 0
  groups := fun _ => ⟨0,0⟩
  numGroups := 0
  leaderGroup := fun _ => none
  numSessions := 0
  siblings := fun c => match c with
    | .childrenList _ => ⟨some c,some c⟩
    | .siblingLink _ => .null
  groupLinks := fun c => match c with
    | .processList _ => ⟨some c,some c⟩
    | .groupLink _ => .null
  threadTable := []
  firstFreeTid := 2

def init (s : System) : System :=
  let (p,s) := s.newProcess
  s.cloneThread p

def createInitProcess (s : System) : System :=
  let (p,s) := s.newProcess
  let s := s.setProcess p { s.processes p with pid := 1, parent := some p }
  let (session,s) := s.newSession
  let (g,s) := s.newGroup session p
  let s := s.setProcess p { s.processes p with group := some g }
  let s := s.setLeaderGroup session (some g)
  s.newThread p 1

-- The kernel makes some threads of its own before the first process.
def kernelThreads (s : System) : Nat → System
  | 0 => s
  | n + 1 => (s.kernelThreads n).cloneThread kernelProcess

def boot (n : Nat) : System := (blank.init.kernelThreads n).createInitProcess

end System

end SabaOS.Sched.Processes
