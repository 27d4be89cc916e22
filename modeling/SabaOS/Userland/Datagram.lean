import Mathlib.Data.List.SplitLengths
import SabaOS.Klib.Memory
import SabaOS.Klib.WrappingRing
import SabaOS.Lib.Boxes
import SabaOS.Userland.LocalSocket

namespace SabaOS.Userland.LocalDatagram

open SabaOS.Klib SabaOS.Lib

def enoent : Int := 2

def edestaddrreq : Int := 89

def eprototype : Int := 91

def eafnosupport : Int := 97

def afLocal : Nat := 1

structure Datagram where
  sender : Nat
  length : Nat
  data : Bytes
  length_lt : length < 2 ^ 32

abbrev Ring := RingBuffer Nat 256

def newRing (data : Nat → Nat) : Ring := ⟨0,0,data⟩

structure Sock where
  ringBuffer : Ring
  connected : Option Nat := none

-- What a path leads to: `socket` is one of another family or type.
inductive VNode where
  | node
  | socket
  | datagram (self : Nat)
deriving DecidableEq, Repr

structure Address where
  family : Nat
  path : String
deriving DecidableEq, Repr

inductive Call where
  | send (self : Nat) (addr : Option Address) (iovs : List (List UInt8))
  | recv (self : Nat) (lens : List Nat)
deriving DecidableEq, Repr

inductive Waiting where
  | send (self target : Nat) (iovs : List (List UInt8))
  | recv (self : Nat) (lens : List Nat)
deriving DecidableEq, Repr

structure Received where
  lens : List Nat
  chunks : List (List UInt8)
  transferred : Nat
  truncated : Bool
deriving DecidableEq, Repr

-- What `malloc` returns, and the bytes that lie there.
structure Block where
  addr : Nat
  data : Bytes

-- `sent` records what `sendmsg` has accepted for a socket, and `got` what `recvmsg` gave there.
structure Sockets where
  socks : Nat → Option Sock
  names : String → Option VNode
  heap : Nat → Option Datagram
  waiting : List Waiting
  sent : Nat → List (List UInt8)
  got : Nat → List Received

inductive Outcome where
  | returned (s : Sockets) (ret : Int)
  | blocked (w : Waiting)
  | crashed
  | panicked

namespace Datagram

def construct (block : Block) (sender count : Nat) : Datagram :=
  ⟨sender,count % 2 ^ 32,block.data,Nat.mod_lt _ (Nat.two_pow_pos 32)⟩

def bytes (d : Datagram) : List UInt8 := copyOut d.data 0 d.length

-- `none` is a copy that runs out of the block.
def gather (d : Datagram) (copied : Nat) : List (List UInt8) → Option Datagram
  | [] => some d
  | iov :: iovs =>
    if iov.length = 0 then d.gather copied iovs
    else if copied + iov.length ≤ d.length then
      { d with data := copyIn d.data copied iov }.gather (copied + iov.length) iovs
    else none

def scatter (d : Datagram) (transferred : Nat) : List Nat → List (List UInt8) × Nat
  | [] => ([],transferred)
  | len :: lens =>
    if len = 0 then
      let rest := d.scatter transferred lens
      ([] :: rest.1,rest.2)
    else
      let count := min (usub d.length transferred) len
      let chunk := copyOut d.data transferred count
      if count < len then (chunk :: lens.map fun _ => [],transferred + count)
      else
        let rest := d.scatter (transferred + count) lens
        (chunk :: rest.1,rest.2)

end Datagram

namespace Sockets

def boot : Sockets := ⟨fun _ => none,fun _ => none,fun _ => none,[],fun _ => [],fun _ => []⟩

def queue (s : Sockets) (self : Nat) : List Nat :=
  (s.socks self).elim [] fun sock => sock.ringBuffer.queue

def setSock (s : Sockets) (self : Nat) (sock : Sock) : Sockets :=
  { s with socks := Function.update s.socks self (some sock) }

def setHeap (s : Sockets) (addr : Nat) (datagram : Option Datagram) : Sockets :=
  { s with heap := Function.update s.heap addr datagram }

def addSent (s : Sockets) (self : Nat) (bytes : List UInt8) : Sockets :=
  { s with sent := Function.update s.sent self (s.sent self ++ [bytes]) }

def addGot (s : Sockets) (self : Nat) (r : Received) : Sockets :=
  { s with got := Function.update s.got self (s.got self ++ [r]) }

def target (s : Sockets) (addr : Address) : Except Int Nat :=
  if addr.family ≠ afLocal then .error (-eafnosupport)
  else match s.names addr.path with
    | none => .error (-enoent)
    | some .node => .error (-econnrefused)
    | some .socket => .error (-eprototype)
    | some (.datagram self) => .ok self

def connect (s : Sockets) (self : Nat) (addr : Address) : Sockets × Int :=
  match s.socks self with
  | none => (s,-ebadf)
  | some sock => match s.target addr with
    | .error e => (s,e)
    | .ok target => (s.setSock self { sock with connected := some target },0)

-- `sendmsg` from its `while` on.
def sendReady (s : Sockets) (self target : Nat) (iovs : List (List UInt8)) (nonblock : Bool)
    (block : Block) : Outcome :=
  match s.socks target with
  | none => .crashed
  | some sock =>
    if sock.ringBuffer.isFull then
      if nonblock then .returned s (-ewouldblock) else .blocked (.send self target iovs)
    else
      let count := (iovs.map List.length).sum % 2 ^ 64
      match (Datagram.construct block self count).gather 0 iovs with
      | none => .crashed
      | some datagram =>
        let written := sock.ringBuffer.write [block.addr]
        if written.2 = 1 then
          .returned (((s.setHeap block.addr (some datagram)).setSock target
            { sock with ringBuffer := written.1 }).addSent target iovs.flatten) count
        else .panicked

-- `recvmsg` from its `while` on; the event at its end is that of `datagram->from`.
def recvReady (s : Sockets) (self : Nat) (lens : List Nat) (nonblock : Bool) : Outcome :=
  match s.socks self with
  | none => .crashed
  | some sock =>
    if sock.ringBuffer.isEmpty then
      if nonblock then .returned s (-ewouldblock) else .blocked (.recv self lens)
    else
      let read := sock.ringBuffer.read 1
      match read.2 with
      | [addr] => match s.heap addr with
        | none => .crashed
        | some datagram =>
          let scattered := datagram.scatter 0 lens
          if (s.socks datagram.sender).isSome then
            .returned (((s.setHeap addr none).setSock self { sock with ringBuffer := read.1 }).addGot
              self ⟨lens,scattered.1,scattered.2,scattered.2 < datagram.length⟩) scattered.2
          else .crashed
      | _ => .panicked

def sendmsg (s : Sockets) (self : Nat) (addr : Option Address) (iovs : List (List UInt8))
    (nonblock : Bool) (block : Block) : Outcome :=
  match s.socks self with
  | none => .returned s (-ebadf)
  | some sock => match sock.connected,addr with
    | some target,_ => s.sendReady self target iovs nonblock block
    | none,none => .returned s (-edestaddrreq)
    | none,some addr => match s.target addr with
      | .error e => .returned s e
      | .ok target => s.sendReady self target iovs nonblock block

def recvmsg (s : Sockets) (self : Nat) (lens : List Nat) (nonblock : Bool) : Outcome :=
  match s.socks self with
  | none => .returned s (-ebadf)
  | some _ => s.recvReady self lens nonblock

def start (s : Sockets) (c : Call) (nonblock : Bool) (block : Block) : Outcome :=
  match c with
  | .send self addr iovs => s.sendmsg self addr iovs nonblock block
  | .recv self lens => s.recvmsg self lens nonblock

def resume (s : Sockets) (w : Waiting) (nonblock : Bool) (block : Block) : Outcome :=
  match w with
  | .send self target iovs => s.sendReady self target iovs nonblock block
  | .recv self lens => s.recvReady self lens nonblock

end Sockets

def Call.small : Call → Prop
  | .send _ _ iovs => iovs.flatten.length < 2 ^ 32
  | .recv _ lens => lens.sum < 2 ^ 32

inductive Step : Sockets → Sockets → Prop
  | socket {s : Sockets} {self : Nat} {data : Nat → Nat} :
      s.socks self = none → Step s (s.setSock self ⟨newRing data,none⟩)
  | socketpair {s : Sockets} {self self' : Nat} {data data' : Nat → Nat} :
      s.socks self = none → s.socks self' = none → self ≠ self' →
      Step s ((s.setSock self ⟨newRing data,some self'⟩).setSock self' ⟨newRing data',some self⟩)
  | connect {s : Sockets} {self : Nat} {addr : Address} : Step s (s.connect self addr).1
  | files {s : Sockets} {names : String → Option VNode} :
      (∀ path self, names path = some (.datagram self) → (s.socks self).isSome) →
      Step s { s with names := names }
  | returns {s s' : Sockets} {c : Call} {nonblock : Bool} {block : Block} {ret : Int} :
      c.small → s.heap block.addr = none → s.start c nonblock block = .returned s' ret → Step s s'
  | blocks {s : Sockets} {c : Call} {nonblock : Bool} {block : Block} {w : Waiting} :
      c.small → s.heap block.addr = none → s.start c nonblock block = .blocked w →
      Step s { s with waiting := w :: s.waiting }
  | wakes {s s' : Sockets} {w : Waiting} {nonblock : Bool} {block : Block} {ret : Int} :
      w ∈ s.waiting → s.heap block.addr = none → s.resume w nonblock block = .returned s' ret →
      Step s { s' with waiting := s'.waiting.erase w }
  | interrupted {s : Sockets} {w : Waiting} :
      w ∈ s.waiting → Step s { s with waiting := s.waiting.erase w }

end SabaOS.Userland.LocalDatagram
