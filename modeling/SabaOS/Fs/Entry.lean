import Mathlib.Data.List.Basic
import Mathlib.Logic.Function.Basic

namespace SabaOS.Fs

inductive NodeType where
  | hardLink
  | regular
  | directory
  | charDevice
  | blockDevice
  | symlink
  | fifo
  | socket
  | epoll
  | inotify
  | eventfd
  | signalfd
  | memfd
deriving DecidableEq, Repr

inductive Errno where
  | enoent
  | eintr
  | enxio
  | ebadf
  | eagain
  | eexist
  | enotdir
  | eisdir
  | einval
  | eloop
  | enotconn
  | eisconn
deriving DecidableEq, Repr

end SabaOS.Fs

namespace SabaOS.Vfs

open SabaOS.Fs

abbrev Name := List UInt8

def dot : Name := [46]

def dotDot : Name := [46,46]

structure VNode where
  nodeType : NodeType
  contents : List UInt8
  refCount : Int
  uid : Option Nat
  gid : Option Nat
  mode : Nat
deriving DecidableEq, Repr

def VNode.fresh (nodeType : NodeType) : VNode := ⟨nodeType,[],0,none,none,0⟩

-- The sibling link is null once `remove` has run; until then it is in the parent's list, or points to itself.
structure Entry where
  vnode : Option Nat
  parent : Option Nat
  redirect : Option Nat
  children : List Nat
  removed : Bool
  name : Name
deriving DecidableEq, Repr

def Entry.construct (vnode parent : Option Nat) (name : Name) (redirect : Option Nat) : Entry :=
  ⟨vnode,parent,redirect,[],false,name⟩

structure State where
  entry : Nat → Entry
  vnode : Nat → VNode
  numEntries : Nat
  numVNodes : Nat

def root : Nat := 0

def nullEntry : Nat := 1

namespace State

def setEntry (s : State) (e : Nat) (f : Entry → Entry) : State :=
  { s with entry := Function.update s.entry e (f (s.entry e)) }

def setVNode (s : State) (v : Nat) (f : VNode → VNode) : State :=
  { s with vnode := Function.update s.vnode v (f (s.vnode v)) }

def new (s : State) (entry : Entry) : State :=
  { s with entry := Function.update s.entry s.numEntries entry, numEntries := s.numEntries + 1 }

def addChild (s : State) (parent e : Nat) : State :=
  (s.setEntry e fun x => { x with removed := false }).setEntry parent
    fun x => { x with children := e :: x.children }

def findChild (s : State) (parent : Nat) (name : Name) : Option Nat :=
  (s.entry parent).children.find? fun c => (s.entry c).name = name

def reduceWithin (s : State) : Nat → Nat → Nat
  | 0,e => e
  | n + 1,e => match (s.entry e).redirect with
    | some r => reduceWithin s n r
    | none => e

def reduce (s : State) (e : Nat) : Nat := s.reduceWithin s.numEntries e

-- `Entry::lookup` of an entry just made: neither file system has anything to find.
def lookupNew (s : State) (parent : Nat) (name : Name) : State × Nat :=
  let e := s.numEntries
  let s := s.new (.construct none (some parent) name none)
  (if s.findChild (s.reduce parent) name = none then s.addChild parent e else s,e)

def newVNode (s : State) (e : Nat) (vnode : VNode) : State :=
  let s' := { s with vnode := Function.update s.vnode s.numVNodes vnode,
                     numVNodes := s.numVNodes + 1 }
  s'.setEntry e fun x => { x with vnode := some s.numVNodes }

-- `Filesystem::create`, the same for both file systems.
def fsCreate (s : State) (e : Nat) (nodeType : NodeType) : State :=
  match (s.entry e).vnode with
  | some v => s.setVNode v fun x => { x with contents := [] }
  | none => s.newVNode e (.fresh nodeType)

def addDots (s : State) (e v parent : Nat) : State :=
  let s := (s.new (.construct (some v) (some e) dot (some e))).addChild e s.numEntries
  (s.new (.construct (s.entry parent).vnode (some e) dotDot (some parent))).addChild e s.numEntries

def own (s : State) (v : Nat) (nodeType : NodeType) (uid gid mode : Option Nat) : State :=
  s.setVNode v fun x =>
    { x with
      refCount := x.refCount + 1
      uid := uid.or x.uid
      gid := gid.or x.gid
      mode := if nodeType = .symlink then 0o777 else mode.getD x.mode }

def makeNode (s : State) (e : Nat) (nodeType : NodeType) : State :=
  if nodeType = .hardLink then s else s.fsCreate e nodeType

def attach (s : State) (parent e : Nat) : State :=
  if s.findChild parent (s.entry e).name = none then s.addChild parent e else s

def furnish (s : State) (e parent : Nat) (nodeType : NodeType) (uid gid mode : Option Nat) : State :=
  match (s.entry e).vnode with
  | none => s
  | some v =>
    if (s.vnode v).nodeType = .directory then (s.addDots e v parent).own v nodeType uid gid mode
    else s.own v nodeType uid gid mode

-- A null parent is dereferenced, whatever the type.
def create (s : State) (e : Nat) (nodeType : NodeType) (uid gid mode : Option Nat) : Option State :=
  match (s.entry e).parent with
  | none => none
  | some parent =>
    some (((s.makeNode e nodeType).attach parent e).furnish e parent nodeType uid gid mode)

def detach (s : State) (e : Nat) : State :=
  match (s.entry e).parent with
  | some p => s.setEntry p fun x => { x with children := x.children.erase e }
  | none => s

def unlink (s : State) (e : Nat) : State :=
  (s.detach e).setEntry e fun x => { x with removed := true }

def remove (s : State) (e : Nat) : Option State := do
  let v ← (s.entry e).vnode
  if (s.entry e).removed then none
  else return (s.unlink e).setVNode v fun x => { x with refCount := x.refCount - 1 }

end State

variable {s : State} {e x parent : Nat} {α : Type} {f : Entry → Entry} {g : Entry → α}

theorem setEntry_same (hf : g (f (s.entry e)) = g (s.entry e)) :
    g ((s.setEntry e f).entry x) = g (s.entry x) := by
  by_cases hx : x = e
  · subst hx
    simpa [State.setEntry] using hf
  · simp [State.setEntry,Function.update_of_ne hx]

theorem addChild_same (hr : ∀ y : Entry, g { y with removed := false } = g y)
    (hc : ∀ y : Entry, g { y with children := e :: y.children } = g y) :
    g ((s.addChild parent e).entry x) = g (s.entry x) :=
  (setEntry_same (hc _)).trans (setEntry_same (hr _))

theorem new_entry {y : Entry} :
    (s.new y).entry x = if x = s.numEntries then y else s.entry x := by
  simp [State.new,Function.update_apply]

theorem setEntry_entry :
    (s.setEntry e f).entry x = if x = e then f (s.entry e) else s.entry x := by
  simp [State.setEntry,Function.update_apply]

theorem addChild_children : ((s.addChild parent e).entry x).children =
    if x = parent then e :: (s.entry x).children else (s.entry x).children := by
  have hx : ∀ y, ((s.setEntry e fun z => { z with removed := false }).entry y).children =
      (s.entry y).children :=
    fun y => setEntry_same (g := Entry.children) rfl
  simp only [State.addChild,setEntry_entry (e := parent)]
  split_ifs with h
  · subst h
    simp [hx]
  · exact hx x

end SabaOS.Vfs
