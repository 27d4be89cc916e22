import Mathlib.Logic.Function.Basic
import SabaOS.Dev.UsedRing
import SabaOS.Lib.FreeList
import SabaOS.Mem.Range

namespace SabaOS.Dev

open SabaOS.Mem

inductive Direction where
  | read
  | write
deriving DecidableEq, Repr

def efault : Int := -14

structure Io where
  disk : Nat → UInt8
  memory : Nat → Nat → UInt8

structure Pagemap where
  frame : Nat → Option Nat

namespace Io

def store (s : Io) (pfn o : Nat) (byte : UInt8) : Io :=
  { s with memory := Function.update s.memory pfn (Function.update (s.memory pfn) o byte) }

def load (s : Io) (m : Pagemap) (virt : Nat) : Option UInt8 :=
  (m.frame (virt / pageSize)).map fun pfn => s.memory pfn (virt % pageSize)

def readWriteBlock (s : Io) (block pfn : Nat) : Direction → Io
  | .read => { s with memory := Function.update s.memory pfn fun o =>
      if o < pageSize then s.disk (block * pageSize + o) else s.memory pfn o }
  | .write => { s with disk := fun a =>
      if a / pageSize = block then s.memory pfn (a % pageSize) else s.disk a }

def readWriteBlocks (s : Io) (m : Pagemap) (buffer firstBlock : Nat) (direction : Direction) :
    Nat → Io × Int
  | 0 => (s,0)
  | n + 1 =>
    let r := s.readWriteBlocks m buffer firstBlock direction n
    if r.2 < 0 then r
    else match m.frame ((buffer + n * pageSize) / pageSize) with
      | none => (r.1,efault)
      | some pfn => (r.1.readWriteBlock (firstBlock + n) pfn direction,0)

def copyTo (s : Io) (m : Pagemap) (virt pfn : Nat) : Nat → Option Io
  | 0 => some s
  | n + 1 => do
    let s ← s.copyTo m virt pfn n
    let f ← m.frame ((virt + n) / pageSize)
    some (s.store f ((virt + n) % pageSize) (s.memory pfn n))

def copyFrom (s : Io) (m : Pagemap) (pfn virt : Nat) : Nat → Option Io
  | 0 => some s
  | n + 1 => do
    let s ← s.copyFrom m pfn virt n
    let byte ← s.load m (virt + n)
    some (s.store pfn n byte)

def readWritePartial (s : Io) (m : Pagemap) (pfn virt offset copySize : Nat)
    (direction : Direction) : Option Io :=
  let s := s.readWriteBlock (offset / pageSize) pfn direction
  match direction with
  | .read => s.copyTo m virt pfn copySize
  | .write => s.copyFrom m pfn virt copySize

def readWriteTail (s : Io) (m : Pagemap) (pfn buf count offset : Nat) (direction : Direction)
    (done : Nat) : Option (Io × Int) :=
  if count = 0 then some (s,done)
  else do
    let s ← s.readWritePartial m pfn buf offset (min count pageSize) direction
    some (s,done + min count pageSize)

def readWriteMiddle (s : Io) (m : Pagemap) (pfn buf count offset : Nat) (direction : Direction)
    (done : Nat) : Option (Io × Int) :=
  if count = 0 then some (s,done)
  else
    let readSize := count / pageSize * pageSize
    let r := s.readWriteBlocks m buf (offset / pageSize) direction (count / pageSize)
    if r.2 < 0 then some r
    else r.1.readWriteTail m pfn (buf + readSize) (count - readSize) (offset + readSize) direction
      (done + readSize)

-- The pages that `alloc_page` gives for the head and for the tail are `first` and `second`.
def readWrite (s : Io) (m : Pagemap) (first second buf count offset : Nat) (direction : Direction) :
    Option (Io × Int) :=
  if buf % pageSize = 0 then s.readWriteMiddle m second buf count offset direction 0
  else do
    let head := min (pageSize - buf % pageSize) count
    let s ← s.readWritePartial m first buf offset head direction
    s.readWriteMiddle m second (buf + head) (count - head) (offset + head) direction head

end Io

def headSize (buf count : Nat) : Nat :=
  if buf % pageSize = 0 then 0 else min (pageSize - buf % pageSize) count

structure Mapped (m : Pagemap) (buf count : Nat) : Prop where
  frame : ∀ v, buf ≤ v → v < buf + count → ∃ f, m.frame (v / pageSize) = some f
  distinct : ∀ v v', buf ≤ v → v < buf + count → buf ≤ v' → v' < buf + count →
    m.frame (v / pageSize) = m.frame (v' / pageSize) → v / pageSize = v' / pageSize

def Spare (m : Pagemap) (buf count pfn : Nat) : Prop :=
  ∀ v, buf ≤ v → v < buf + count → m.frame (v / pageSize) ≠ some pfn

structure Reads (s s' : Io) (m : Pagemap) (buf count offset : Nat) : Prop where
  buffer : ∀ i < count, s'.load m (buf + i) = some (s.disk (offset + i))

structure Writes (s s' : Io) (m : Pagemap) (buf count offset : Nat) : Prop where
  inside : ∀ i < count, some (s'.disk (offset + i)) = s.load m (buf + i)
  outside : ∀ a, a < offset ∨ offset + count ≤ a → s'.disk a = s.disk a

def Serves (s s' : Io) (m : Pagemap) (buf count offset : Nat) : Direction → Prop
  | .read => Reads s s' m buf count offset
  | .write => Writes s s' m buf count offset

end SabaOS.Dev

namespace SabaOS.Virtio

open SabaOS.Dev SabaOS.Lib SabaOS.Mem

structure Request where
  next : Option Nat
  type : Nat
  sector : Nat
deriving DecidableEq, Repr

def requestSize : Nat := 48

def headerOffset : Nat := 24

def statusOffset : Nat := 40

def headerSize : Nat := 16

def numRequests : Nat := pageSize / requestSize

def enomem : Int := -12

def typeOf : Direction → Nat
  | .read => 0
  | .write => 1

-- Requests are named by their addresses.
structure BlockDevice where
  queue : Queue
  firstFreeRequest : Option Nat
  requests : Nat → Request

structure Args where
  block : Nat
  pagePhy : Nat
  direction : Direction
deriving DecidableEq, Repr

inductive Call where
  | begun (a : Args)
  | requested (a : Args) (request : Nat)
  | first (a : Args) (request desc1 : Nat)
  | second (a : Args) (request desc1 desc2 : Nat)
  | third (a : Args) (request desc1 desc2 desc3 : Nat)
  | failing (request : Nat) (descs : List Nat)
  | returned (ret : Int)
deriving DecidableEq, Repr

namespace BlockDevice

def requestAt (base i : Nat) : Nat := base + requestSize * i

def init (base : Nat) : BlockDevice :=
  ⟨Queue.init,some (requestAt base 0),fun p =>
    ⟨if base ≤ p ∧ (p - base) % requestSize = 0 ∧ (p - base) / requestSize + 1 < numRequests
      then some (p + requestSize) else none,0,0⟩⟩

def allocRequest (d : BlockDevice) : Option (Nat × BlockDevice) :=
  d.firstFreeRequest.map fun ret => (ret,{ d with firstFreeRequest := (d.requests ret).next })

def freeRequest (d : BlockDevice) (request : Nat) : BlockDevice :=
  { d with
    requests := Function.update d.requests request
      { d.requests request with next := d.firstFreeRequest }
    firstFreeRequest := some request }

def setHeader (d : BlockDevice) (request : Nat) (a : Args) : BlockDevice :=
  { d with
    requests := Function.update d.requests request
      { d.requests request with type := typeOf a.direction, sector := a.block * 8 } }

def setDescriptor (d : BlockDevice) (desc address length flags : Nat) : BlockDevice :=
  { d with
    queue := d.queue.setDescriptor desc fun x =>
      { x with address := address, length := length, flags := flags } }

def setNext (d : BlockDevice) (desc next : Nat) : BlockDevice :=
  { d with queue := d.queue.setDescriptor desc fun x => { x with next := next } }

def freeDescriptor (d : BlockDevice) (desc : Nat) : BlockDevice :=
  { d with queue := d.queue.freeDescriptor desc }

def submitDescriptor (d : BlockDevice) (desc : Nat) : BlockDevice :=
  { d with queue := d.queue.submitDescriptor desc }

-- `alloc_descriptor`, and what follows when there is one.
def withDescriptor (d : BlockDevice) (fail : Call)
    (k : BlockDevice → Nat → Call × BlockDevice) : Call × BlockDevice :=
  let r := d.queue.allocDescriptor
  if r.1 = d.queue.length then (fail,{ d with queue := r.2 })
  else k { d with queue := r.2 } r.1

-- One step of a call. Without a free request the deferred `free_request` gets a null pointer.
def callStep (d : BlockDevice) : Call → Option (Call × BlockDevice)
  | .begun a => d.allocRequest.map fun r => (.requested a r.1,r.2.setHeader r.1 a)
  | .requested a r => some <| d.withDescriptor (.failing r []) fun d desc1 =>
      (.first a r desc1,d.setDescriptor desc1 (r + headerOffset) headerSize flagNext)
  | .first a r desc1 => some <| d.withDescriptor (.failing r [desc1]) fun d desc2 =>
      (.second a r desc1 desc2,d.setDescriptor desc2 a.pagePhy pageSize
        (flagNext + if a.direction = .write then 0 else flagDeviceWrite))
  | .second a r desc1 desc2 => some <| d.withDescriptor (.failing r [desc2,desc1]) fun d desc3 =>
      (.third a r desc1 desc2 desc3,d.setDescriptor desc3 (r + statusOffset) 1 flagDeviceWrite)
  | .third _ _ desc1 desc2 desc3 =>
      some (.returned 0,((d.setNext desc1 desc2).setNext desc2 desc3).submitDescriptor desc1)
  | .failing r (desc :: descs) => some (.failing r descs,d.freeDescriptor desc)
  | .failing r [] => some (.returned enomem,d.freeRequest r)
  | .returned _ => none

end BlockDevice

-- Where `irq` is: at the test of its loop, or with the entry of a transfer that is partly freed.
inductive Irq where
  | idle
  | test (i : Nat)
  | invoked (i desc request : Nat)
  | freedRequest (i desc : Nat)
  | freedThird (i desc : Nat)
  | freedSecond (i desc : Nat)
deriving DecidableEq, Repr

namespace BlockDevice

def descNext (d : BlockDevice) (desc : Nat) : Nat := (d.queue.descriptorArray desc).next

def irqStep (d : BlockDevice) : Irq → Irq × BlockDevice
  | .idle => (.test d.queue.lastSeenUsed,d)
  | .test i =>
    if d.queue.hasUsed i then
      let desc := d.queue.usedRing i
      (.invoked i desc ((d.queue.descriptorArray desc).address - headerOffset),d)
    else (.idle,{ d with queue := { d.queue with lastSeenUsed := i } })
  | .invoked i desc request => (.freedRequest i desc,d.freeRequest request)
  | .freedRequest i desc => (.freedThird i desc,d.freeDescriptor (d.descNext (d.descNext desc)))
  | .freedThird i desc => (.freedSecond i desc,d.freeDescriptor (d.descNext desc))
  | .freedSecond i desc => (.test ((i + 1) % d.queue.length),d.freeDescriptor desc)

end BlockDevice

end SabaOS.Virtio
