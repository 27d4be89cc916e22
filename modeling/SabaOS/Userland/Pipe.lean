import SabaOS.Klib.RingBuffer
import SabaOS.Lib.Monitor

namespace SabaOS.Userland

open SabaOS.Klib SabaOS.Lib

def einval : Int := 22

def epipe : Int := 32

def ewouldblock : Int := 11

inductive Reply where
  | ret (value : Int)
  | blocks
  | crash
  | panic
deriving DecidableEq, Repr

def answer {R B : Type} : Attempt R (Int × B) → Reply
  | .done _ _ a => .ret a.1
  | .refuse a => .ret a.1
  | .wait => .blocks

def pipeCapacity : Nat := 0x1000

structure Pipe where
  readers : UInt64 := 0
  writers : UInt64 := 0
  ringBuffer : RingBuffer UInt8 pipeCapacity := ⟨0,0,fun _ => 0⟩

structure PipeEnd where
  canRead : Bool
  canWrite : Bool
deriving DecidableEq, Repr

inductive PipeCall where
  | read (nonblock : Bool) (count : Nat)
  | write (nonblock : Bool) (buf : List UInt8)
deriving DecidableEq, Repr

namespace Pipe

def «open» (p : Pipe) (fd : PipeEnd) : Pipe :=
  { p with
    readers := if fd.canRead then p.readers + 1 else p.readers
    writers := if fd.canWrite then p.writers + 1 else p.writers }

def close (p : Pipe) (fd : PipeEnd) : Pipe :=
  { p with
    readers := if fd.canRead then p.readers - 1 else p.readers
    writers := if fd.canWrite then p.writers - 1 else p.writers }

def read (p : Pipe) (nonblock : Bool) (count : Nat) : Attempt Pipe (Int × List UInt8) :=
  if p.ringBuffer.isEmpty then
    if p.writers = 0 then .refuse (0,[])
    else if nonblock then .refuse (-ewouldblock,[])
    else .wait
  else
    let (ring,bytes) := p.ringBuffer.read count
    .done { p with ringBuffer := ring } false (bytes.length,bytes)

def write (p : Pipe) (nonblock : Bool) (buf : List UInt8) : Attempt Pipe (Int × List UInt8) :=
  if p.readers = 0 then .refuse (-epipe,[])
  else if p.ringBuffer.isFull then
    if nonblock then .refuse (-ewouldblock,[]) else .wait
  else
    let (ring,count) := p.ringBuffer.write buf
    .done { p with ringBuffer := ring } false (count,[])

def attempt : PipeCall → Pipe → Attempt Pipe (Int × List UInt8)
  | .read nonblock count, p => p.read nonblock count
  | .write nonblock buf, p => p.write nonblock buf

def Closes (p p' : Pipe) : Prop := ∃ fd : PipeEnd, p' = p.close fd

abbrev Step {T : Type} [DecidableEq T] := Monitor.Step (T := T) attempt Closes false

theorem read_wait {p : Pipe} {nonblock : Bool} {count : Nat} (h : p.read nonblock count = .wait) :
    p.ringBuffer.dataCount = 0 ∧ p.writers ≠ 0 := by
  unfold read at h
  split_ifs at h with he hw hn
  exact ⟨by simpa [RingBuffer.isEmpty] using he,hw⟩

theorem write_wait {p : Pipe} {nonblock : Bool} {buf : List UInt8}
    (h : p.write nonblock buf = .wait) :
    p.ringBuffer.dataCount = pipeCapacity ∧ p.readers ≠ 0 := by
  unfold write at h
  split_ifs at h with hr hf hn
  exact ⟨by simpa [RingBuffer.isFull] using hf,hr⟩

end Pipe

end SabaOS.Userland
