import Mathlib.Data.UInt
import Mathlib.Logic.Function.Basic

namespace SabaOS.Xhci

structure TRB where
  parameter : UInt64 := 0
  status : UInt32 := 0
  control : UInt32 := 0
deriving DecidableEq, Repr

namespace TRB

def typeLink : UInt32 := 6

def typeShiftBits : UInt32 := 10

def linkToggleCycle : UInt32 := 2

def cycle (trb : TRB) : Bool := trb.control &&& 1 ≠ 0

def type (trb : TRB) : UInt32 := (trb.control >>> typeShiftBits) &&& 0x3f

def toggles (trb : TRB) : Bool := trb.control &&& linkToggleCycle ≠ 0

def withCycle (trb : TRB) (bit : Bool) : TRB :=
  { trb with control := if bit then trb.control ||| 1 else trb.control &&& ~~~1 }

def bare (trb : TRB) : TRB := trb.withCycle false

def linkControl (bit : Bool) : UInt32 := (typeLink <<< typeShiftBits) ||| linkToggleCycle ||| bit.toUInt32

section Cycle

variable {trb : TRB} {b b' : Bool} {x m : UInt32}

theorem or_and_not : (x ||| m) &&& ~~~m = x &&& ~~~m := by
  apply UInt32.toBitVec_inj.mp
  ext i hi
  simp
  grind

theorem and_not_or : (x &&& ~~~m) ||| m = x ||| m := by
  apply UInt32.toBitVec_inj.mp
  ext i hi
  simp
  grind

theorem or_and_self : (x ||| m) &&& m = m := by
  apply UInt32.toBitVec_inj.mp
  ext i hi
  simp
  grind

theorem cycle_withCycle : (trb.withCycle b).cycle = b := by
  cases b with
  | true =>
    have hbit : (trb.control ||| 1) &&& 1 = 1 := or_and_self
    simp [cycle,withCycle,hbit]
  | false =>
    have hbit : (trb.control &&& ~~~1) &&& 1 = 0 := by
      rw [UInt32.and_assoc,UInt32.not_and_self,UInt32.and_zero]
    simp only [cycle,withCycle,Bool.false_eq_true,if_false,hbit]
    rfl

theorem withCycle_withCycle : (trb.withCycle b).withCycle b' = trb.withCycle b' := by
  cases b with
  | true =>
    cases b' with
    | true => simp [withCycle,UInt32.or_assoc]
    | false => simp only [withCycle,Bool.false_eq_true,if_true,if_false,or_and_not]
  | false =>
    cases b' with
    | true => simp only [withCycle,Bool.false_eq_true,if_true,if_false,and_not_or]
    | false => simp only [withCycle,Bool.false_eq_true,if_false,UInt32.and_assoc,UInt32.and_self]

theorem bare_withCycle : (trb.withCycle b).bare = trb.bare := withCycle_withCycle

theorem type_withCycle : (trb.withCycle b).type = trb.type := by
  have hone : (1 : UInt32) >>> typeShiftBits = 0 := by decide
  have hmask : ((~~~1 : UInt32) >>> typeShiftBits) &&& 0x3f = 0x3f := by decide
  cases b with
  | true => simp only [type,withCycle,if_true,UInt32.shiftRight_or,hone,UInt32.or_zero]
  | false => simp only [type,withCycle,Bool.false_eq_true,if_false,UInt32.shiftRight_and,UInt32.and_assoc,hmask]

end Cycle

end TRB

def trbSize : UInt64 := 16

-- `PAGE_SIZE / sizeof(TRB)`
def ringSize : Nat := 256

def slotAddress (phy : UInt64) (i : Nat) : UInt64 := phy + trbSize * .ofNat i

def slotIndex (phy address : UInt64) : Nat := ((address - phy) / trbSize).toNat

structure EnqueueRing where
  phy : UInt64
  ring : Nat → TRB
  size : Nat
  enqueueIndex : Nat
  cycleBit : Bool

namespace EnqueueRing

def init (phy : UInt64) : EnqueueRing where
  phy := phy
  ring := Function.update (fun _ => {}) (ringSize - 1) { parameter := phy, control := TRB.linkControl true }
  size := ringSize
  enqueueIndex := 0
  cycleBit := true

def setLink (r : EnqueueRing) : EnqueueRing :=
  let link := r.ring (r.size - 1)
  { r with ring := Function.update r.ring (r.size - 1) { link with control := TRB.linkControl r.cycleBit } }

def enqueue (r : EnqueueRing) (trb : TRB) : UInt64 × EnqueueRing :=
  let phy := slotAddress r.phy r.enqueueIndex
  let r := { r with ring := Function.update r.ring r.enqueueIndex (trb.withCycle r.cycleBit) }
  let r := { r with enqueueIndex := r.enqueueIndex + 1 }
  if r.enqueueIndex = r.size - 1 then (phy,{ r.setLink with enqueueIndex := 0, cycleBit := !r.cycleBit })
  else (phy,r)

def fetch (r : EnqueueRing) (address : UInt64) : TRB := r.ring (slotIndex r.phy address)

end EnqueueRing

structure Consumer where
  dequeue : UInt64
  cycleState : Bool
deriving DecidableEq, Repr

namespace Consumer

def attach (r : EnqueueRing) : Consumer := ⟨r.phy,r.cycleBit⟩

-- A link is followed and not consumed; nothing happens where the bits differ.
def turn (r : EnqueueRing) (c : Consumer) : Option (Option TRB × Consumer) :=
  let trb := r.fetch c.dequeue
  if trb.cycle ≠ c.cycleState then none
  else if trb.type = TRB.typeLink then
    some (none,⟨trb.parameter,if trb.toggles then !c.cycleState else c.cycleState⟩)
  else some (some trb,⟨c.dequeue + trbSize,c.cycleState⟩)

end Consumer

structure SegmentTableEntry where
  address : UInt64
  size : Nat
deriving DecidableEq, Repr

-- `dequeuePointer` is the register that the driver writes, without its flags.
structure EventRing where
  phy : UInt64
  ring : Nat → TRB
  segmentTable : SegmentTableEntry
  size : Nat
  dequeueIndex : Nat
  cycleBit : Bool
  dequeuePointer : UInt64

namespace EventRing

def init (phy : UInt64) : EventRing where
  phy := phy
  ring := fun _ => {}
  segmentTable := ⟨phy,ringSize⟩
  size := ringSize
  dequeueIndex := 0
  cycleBit := true
  dequeuePointer := phy

def hasUnprocessedEvents (r : EventRing) : Bool := (r.ring r.dequeueIndex).cycle = r.cycleBit

def ewouldblock : Int := 11

def advance (r : EventRing) : EventRing :=
  let r := { r with dequeueIndex := r.dequeueIndex + 1 }
  let r := if r.dequeueIndex = r.size then { r with dequeueIndex := 0, cycleBit := !r.cycleBit } else r
  { r with dequeuePointer := slotAddress r.phy r.dequeueIndex }

def dequeue (r : EventRing) : (Int × Option TRB) × EventRing :=
  if r.hasUnprocessedEvents then ((0,some (r.ring r.dequeueIndex)),r.advance)
  else ((-ewouldblock,none),r)

end EventRing

structure Producer where
  enqueue : UInt64
  cycleState : Bool
deriving DecidableEq, Repr

namespace Producer

def attach (r : EventRing) : Producer := ⟨r.segmentTable.address,true⟩

def next (r : EventRing) (p : Producer) : Producer :=
  if p.enqueue + trbSize = slotAddress r.segmentTable.address r.segmentTable.size then
    ⟨r.segmentTable.address,!p.cycleState⟩
  else ⟨p.enqueue + trbSize,p.cycleState⟩

-- No event is written when the slot behind it is where the driver reads.
def produce (r : EventRing) (p : Producer) (trb : TRB) : Option (EventRing × Producer) :=
  if (p.next r).enqueue = r.dequeuePointer then none
  else
    some ({ r with ring := Function.update r.ring (slotIndex r.phy p.enqueue) (trb.withCycle p.cycleState) },p.next r)

end Producer

end SabaOS.Xhci
