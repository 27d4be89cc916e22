import Mathlib.Data.UInt
import Mathlib.Logic.Relation
import SabaOS.Lib.Holders

namespace SabaOS.Fs

open SabaOS.Lib

def ebadf : Int := 9

def einval : Int := 22

def oAccmode : UInt64 := 3

def oRdonly : UInt64 := 0

def oWronly : UInt64 := 1

def oRdwr : UInt64 := 2

def oNonblock : UInt64 := 0x800

-- O_APPEND, O_ASYNC, O_DIRECT, O_NOATIME and O_NONBLOCK
def setflMask : UInt64 := 0x400 ||| 0x2000 ||| 0x4000 ||| 0x40000 ||| 0x800

-- `ref_count` is an `int`: all descriptors together are fewer than 2^31, 8 bytes of the heap each.
structure FileDescription (V : Type) where
  vnode : V
  flags : UInt64
  refCount : Nat

namespace FileDescription

variable {V : Type}

def canRead (d : FileDescription V) : Bool :=
  d.flags &&& oAccmode = oRdonly ∨ d.flags &&& oAccmode = oRdwr

def canWrite (d : FileDescription V) : Bool :=
  d.flags &&& oAccmode = oWronly ∨ d.flags &&& oAccmode = oRdwr

def nonblock (d : FileDescription V) : Bool := d.flags &&& oNonblock ≠ 0

def setfl (d : FileDescription V) (arg : UInt64) : FileDescription V :=
  { d with flags := (d.flags &&& ~~~setflMask) ||| (arg &&& setflMask) }

end FileDescription

structure FileDescriptor where
  description : Option Nat
  cloexec : Bool
deriving DecidableEq, Repr

def FileDescriptor.empty : FileDescriptor := ⟨none,false⟩

structure Process where
  fileDescriptors : List FileDescriptor := []
  firstFreeFdnum : Int := 0
deriving DecidableEq, Repr

namespace Process

def descriptor (p : Process) (fdnum : Nat) : FileDescriptor := p.fileDescriptors.getD fdnum .empty

def allocateFdnum (p : Process) (minFdnum : Int) : Process × Nat :=
  let size := p.fileDescriptors.length
  let begin := (if minFdnum < p.firstFreeFdnum then p.firstFreeFdnum else minFdnum).toNat
  match (List.range' begin (size - begin)).find? fun i => (p.descriptor i).description.isNone with
  | some i => ({ p with firstFreeFdnum := if minFdnum < p.firstFreeFdnum then i + 1 else p.firstFreeFdnum },i)
  | none => (⟨p.fileDescriptors ++ [.empty],
      if minFdnum < p.firstFreeFdnum then size else p.firstFreeFdnum⟩,size)

def lookup (p : Process) (fd : Int) : Option (Nat × Nat) :=
  if (p.fileDescriptors.length : Int) ≤ fd ∨ fd < 0 then none
  else (p.descriptor fd.toNat).description.map fun d => (fd.toNat,d)

end Process

-- A description stays in memory when it is deleted: the heap reuses nothing.
structure Files (V W : Type) where
  descriptions : Nat → Option (FileDescription V)
  nextDescription : Nat
  processes : Nat → Process
  world : W

namespace Files

variable {V W : Type}

def setProcess (f : Files V W) (pid : Nat) (p : Process) : Files V W :=
  { f with processes := Function.update f.processes pid p }

def setDescriptor (f : Files V W) (pid fdnum : Nat) (descriptor : FileDescriptor) : Files V W :=
  let p := f.processes pid
  f.setProcess pid { p with fileDescriptors := p.fileDescriptors.set fdnum descriptor }

def setDescription (f : Files V W) (d : Nat) (description : FileDescription V) : Files V W :=
  { f with descriptions := Function.update f.descriptions d (some description) }

def allocateFdnum (f : Files V W) (pid : Nat) (minFdnum : Int) : Files V W × Nat :=
  let (p,fdnum) := (f.processes pid).allocateFdnum minFdnum
  (f.setProcess pid p,fdnum)

def incrementRefCount (f : Files V W) (d : Nat) : Files V W :=
  match f.descriptions d with
  | none => f
  | some description => f.setDescription d { description with refCount := description.refCount + 1 }

section Close

variable (vclose : FileDescription V → W → W)

def decrementRefCount (f : Files V W) (d : Nat) : Files V W :=
  match f.descriptions d with
  | none => f
  | some description =>
    let description := { description with refCount := description.refCount - 1 }
    let f := f.setDescription d description
    if description.refCount = 0 then { f with world := vclose description f.world } else f

def closeDescriptor (f : Files V W) (pid fdnum : Nat) : Files V W :=
  match ((f.processes pid).descriptor fdnum).description with
  | none => f
  | some d =>
    let f := (f.decrementRefCount vclose d).setDescriptor pid fdnum .empty
    let p := f.processes pid
    f.setProcess pid { p with
      firstFreeFdnum := if p.firstFreeFdnum > fdnum then fdnum else p.firstFreeFdnum }

def duplicate (f : Files V W) (descriptor : FileDescriptor) (keepFlags : Bool) :
    Files V W × FileDescriptor :=
  match descriptor.description with
  | none => (f,descriptor)
  | some d => (f.incrementRefCount d,{ descriptor with cloexec := keepFlags && descriptor.cloexec })

def openDescription (f : Files V W) (pid : Nat) (vnode : V) (flags : UInt64) (cloexec : Bool) :
    Files V W × Nat :=
  let (f,fdnum) := f.allocateFdnum pid 0
  let d := f.nextDescription
  let f := { f.setDescription d ⟨vnode,flags,1⟩ with nextDescription := d + 1 }
  (f.setDescriptor pid fdnum ⟨some d,cloexec⟩,fdnum)

def close (f : Files V W) (pid : Nat) (fd : Int) : Files V W × Int :=
  match (f.processes pid).lookup fd with
  | none => (f,-ebadf)
  | some (fdnum,_) => (f.closeDescriptor vclose pid fdnum,0)

def closeAll (f : Files V W) (pid : Nat) (fdnums : List Nat) (which : FileDescriptor → Bool) :
    Files V W :=
  fdnums.foldl (fun f fdnum =>
    if which ((f.processes pid).descriptor fdnum) then f.closeDescriptor vclose pid fdnum else f) f

def setCloexec (f : Files V W) (pid fdnum : Nat) (cloexec : Bool) : Files V W :=
  f.setDescriptor pid fdnum { (f.processes pid).descriptor fdnum with cloexec := cloexec }

def closeRange (f : Files V W) (pid first last : Nat) (cloexec : Bool) : Files V W × Int :=
  if last < first then (f,-einval)
  else
    let last := min last ((f.processes pid).fileDescriptors.length - 1)
    let fdnums := List.range' first (last + 1 - first)
    if cloexec then
      (fdnums.foldl (fun f fdnum =>
        if ((f.processes pid).descriptor fdnum).description.isNone then f
        else f.setCloexec pid fdnum true) f,0)
    else (f.closeAll vclose pid fdnums (·.description.isSome),0)

def dupfd (f : Files V W) (pid : Nat) (fd arg : Int) (cloexec : Bool) : Files V W × Int :=
  match (f.processes pid).lookup fd with
  | none => (f,-ebadf)
  | some (fdnum,_) =>
    let descriptor := (f.processes pid).descriptor fdnum
    let (f,newfd) := f.allocateFdnum pid arg
    let (f,duplicate) := f.duplicate descriptor false
    (f.setDescriptor pid newfd { duplicate with cloexec := cloexec },newfd)

def dup3 (f : Files V W) (pid : Nat) (oldfd newfd : Int) (cloexec : Bool) : Files V W × Int :=
  if newfd > 1023 ∨ newfd < 0 then (f,-ebadf)
  else match (f.processes pid).lookup oldfd with
  | none => (f,-ebadf)
  | some (old,_) =>
    if oldfd = newfd then (f,newfd)
    else
      let new := newfd.toNat
      let descriptor := (f.processes pid).descriptor old
      let p := f.processes pid
      let missing := List.replicate (new + 1 - p.fileDescriptors.length) .empty
      let f := f.setProcess pid { p with fileDescriptors := p.fileDescriptors ++ missing }
      let f := f.closeDescriptor vclose pid new
      let (f,duplicate) := f.duplicate descriptor false
      (f.setDescriptor pid new { duplicate with cloexec := cloexec },newfd)

def setfd (f : Files V W) (pid : Nat) (fd : Int) (cloexec : Bool) : Files V W × Int :=
  match (f.processes pid).lookup fd with
  | none => (f,-ebadf)
  | some (fdnum,_) => (f.setCloexec pid fdnum cloexec,0)

def setfl (f : Files V W) (pid : Nat) (fd : Int) (arg : UInt64) : Files V W × Int :=
  match (f.processes pid).lookup fd with
  | none => (f,-ebadf)
  | some (_,d) => match f.descriptions d with
    | none => (f,-ebadf)
    | some description => (f.setDescription d (description.setfl arg),0)

def pushDescriptor (f : Files V W) (pid : Nat) (descriptor : FileDescriptor) : Files V W :=
  let p := f.processes pid
  f.setProcess pid { p with fileDescriptors := p.fileDescriptors ++ [descriptor] }

def fork (f : Files V W) (pid child : Nat) : Files V W :=
  let parent := f.processes pid
  let f := f.setProcess child {}
  let f := parent.fileDescriptors.foldl (fun f descriptor =>
    let (f,duplicate) := f.duplicate descriptor true
    f.pushDescriptor child duplicate) f
  f.setProcess child { f.processes child with firstFreeFdnum := parent.firstFreeFdnum }

def exec (f : Files V W) (pid : Nat) : Files V W :=
  f.closeAll vclose pid (List.range (f.processes pid).fileDescriptors.length) (·.cloexec)

def exit (f : Files V W) (pid : Nat) : Files V W :=
  f.closeAll vclose pid (List.range (f.processes pid).fileDescriptors.length) (·.description.isSome)

inductive Call where
  | close (pid : Nat) (fd : Int)
  | closeRange (pid first last : Nat) (cloexec : Bool)
  | dupfd (pid : Nat) (fd arg : Int) (cloexec : Bool)
  | dup3 (pid : Nat) (oldfd newfd : Int) (cloexec : Bool)
  | setfd (pid : Nat) (fd : Int) (cloexec : Bool)
  | setfl (pid : Nat) (fd : Int) (arg : UInt64)
  | fork (pid child : Nat)
  | exec (pid : Nat)
  | exit (pid : Nat)
deriving DecidableEq, Repr

def run (f : Files V W) : Call → Files V W
  | .close pid fd => (f.close vclose pid fd).1
  | .closeRange pid first last cloexec => (f.closeRange vclose pid first last cloexec).1
  | .dupfd pid fd arg cloexec => (f.dupfd pid fd arg cloexec).1
  | .dup3 pid oldfd newfd cloexec => (f.dup3 vclose pid oldfd newfd cloexec).1
  | .setfd pid fd cloexec => (f.setfd pid fd cloexec).1
  | .setfl pid fd arg => (f.setfl pid fd arg).1
  | .fork pid child => if f.processes child = {} ∧ child ≠ pid then f.fork pid child else f
  | .exec pid => f.exec vclose pid
  | .exit pid => f.exit vclose pid

end Close

end Files

end SabaOS.Fs
