import SabaOS.Lib.Ring
import SabaOS.Userland.Pipe
import SabaOS.Userland.Seqpacket

namespace SabaOS.Userland

open SabaOS.Klib SabaOS.Lib

def ebadf : Int := 9

def eisconn : Int := 106

def enotconn : Int := 107

def econnrefused : Int := 111

def pollIn : UInt32 := 1

def pollOut : UInt32 := 4

def pollErr : UInt32 := 8

def pollHup : UInt32 := 0x10

structure LocalSocket where
  isSeqpacket : Bool
  ringBuffer : Option StreamSocket.Ring := none
  peer : Option Nat := none
  numPending : UInt64 := 0
  maxPending : UInt64 := 0

-- Objects are never freed; `pending` has the `pending_list` of each.
structure LocalSockets where
  sockets : Nat → Option LocalSocket
  pending : Links Nat

namespace LocalSockets

def newRing : StreamSocket.Ring := StreamSocket.newRing fun _ => 0

def boot : LocalSockets := ⟨fun _ => none,fun _ => .null⟩

def set (s : LocalSockets) (self : Nat) (sock : LocalSocket) : LocalSockets :=
  { s with sockets := Function.update s.sockets self (some sock) }

def construct (s : LocalSockets) (self : Nat) (sock : LocalSocket) : LocalSockets :=
  { s.set self sock with pending := s.pending.init self }

def ringOf (s : LocalSockets) (self : Nat) : Option StreamSocket.Ring :=
  (s.sockets self).bind (·.ringBuffer)

def setRing (s : LocalSockets) (self : Nat) (ring : StreamSocket.Ring) : LocalSockets :=
  match s.sockets self with
  | some sock => s.set self { sock with ringBuffer := some ring }
  | none => s

def dropPeer (s : LocalSockets) (self : Nat) : LocalSockets :=
  match s.sockets self with
  | some sock => s.set self { sock with peer := none }
  | none => s

def wouldBlock (nonblock : Bool) : Reply := if nonblock then .ret (-ewouldblock) else .blocks

def poll (s : LocalSockets) (self : Nat) (sock : LocalSocket) (events : UInt32) : UInt32 :=
  let revents : UInt32 := 0
  let revents :=
    if events &&& pollIn ≠ 0 then
      let revents := if sock.ringBuffer.any (! ·.isEmpty) then revents ||| pollIn else revents
      if sock.maxPending > 0 ∧ !s.pending.isEmpty self then revents ||| pollIn else revents
    else revents
  if events &&& pollOut ≠ 0 then
    if (sock.peer.bind s.ringOf).any (! ·.isFull) then revents ||| pollOut else revents
  else revents

def close (s : LocalSockets) (self : Nat) (sock : LocalSocket) : LocalSockets :=
  let s := match sock.peer with
    | some peer => s.dropPeer peer
    | none => s
  match s.sockets self with
  | some sock => s.set self { sock with ringBuffer := none }
  | none => s

def connect (s : LocalSockets) (self target : Nat) : LocalSockets × Reply :=
  match s.sockets target with
  | none => (s,.ret (-econnrefused))
  | some listener =>
    if listener.numPending ≥ listener.maxPending then (s,.ret (-econnrefused))
    else match s.pending.addBefore target self with
      | none => (s,.crash)
      | some pending => ({ s with pending := pending },.blocks)

def listen (s : LocalSockets) (self : Nat) (sock : LocalSocket) (backlog : Int32) :
    LocalSockets × Reply :=
  (s.set self { sock with maxPending := backlog.toInt64.toUInt64 },.ret 0)

def accept (s : LocalSockets) (self : Nat) (sock : LocalSocket) (nonblock : Bool) (new fd : Nat) :
    LocalSockets × Reply :=
  if s.pending.isEmpty self then (s,wouldBlock nonblock)
  else match (s.pending self).next with
    | none => (s,.crash)
    | some peer => match s.pending.remove peer,s.sockets peer with
      | some pending,some acceptedPeer =>
        let s := { s with pending := pending }
        let s := s.construct new
          { isSeqpacket := sock.isSeqpacket, ringBuffer := some newRing, peer := some peer }
        let s := s.set peer { acceptedPeer with
          ringBuffer := some (acceptedPeer.ringBuffer.getD newRing), peer := some new }
        (s,.ret fd)
      | _,_ => (s,.crash)

def recvmsg (s : LocalSockets) (self : Nat) (sock : LocalSocket) (nonblock : Bool)
    (lens : List Nat) : LocalSockets × Reply :=
  match sock.peer,sock.ringBuffer with
  | some _,some ring =>
    if ring.isEmpty then (s,wouldBlock nonblock)
    else if sock.isSeqpacket then
      match Seqpacket.recvPacket ring lens with
      | none => (s,.panic)
      | some (ring,received) => (s.setRing self ring,.ret received.bytes.length)
    else
      let (ring,chunks) := StreamSocket.recvLoop ring lens
      (s.setRing self ring,.ret chunks.flatten.length)
  | _,_ => (s,.ret (-enotconn))

def sendmsg (s : LocalSockets) (sock : LocalSocket) (nonblock named : Bool)
    (iovs : List (List UInt8)) : LocalSockets × Reply :=
  if named then (s,.ret (-eisconn))
  else match sock.peer with
    | none => (s,.ret (-enotconn))
    | some peer => match s.ringOf peer with
      | none => (s,.ret (-enotconn))
      | some ring =>
        if ring.isFull then (s,wouldBlock nonblock)
        else if sock.isSeqpacket then
          match Seqpacket.sendPacket ring iovs with
          | none => (s,.panic)
          | some (ring,transferred) => (s.setRing peer ring,.ret transferred)
        else
          let (ring,transferred) := StreamSocket.sendLoop ring iovs
          (s.setRing peer ring,.ret transferred)

def read (s : LocalSockets) (self : Nat) (sock : LocalSocket) (nonblock : Bool) (count : Nat) :
    LocalSockets × Reply := s.recvmsg self sock nonblock [count]

def write (s : LocalSockets) (sock : LocalSocket) (nonblock : Bool) (buf : List UInt8) :
    LocalSockets × Reply := s.sendmsg sock nonblock false [buf]

inductive Op where
  | socket (self : Nat) (isSeqpacket : Bool)
  | socketpair (first second : Nat) (isSeqpacket : Bool)
  | listen (self : Nat) (backlog : Int32)
  | connect (self target : Nat)
  | accept (self : Nat) (nonblock : Bool) (new fd : Nat)
  | recvmsg (self : Nat) (nonblock : Bool) (lens : List Nat)
  | sendmsg (self : Nat) (nonblock named : Bool) (iovs : List (List UInt8))
  | close (self : Nat)

def next (s : LocalSockets) : Op → LocalSockets × Reply
  | .socket self isSeqpacket =>
    if (s.sockets self).isSome then (s,.ret (-ebadf))
    else (s.construct self { isSeqpacket := isSeqpacket },.ret 0)
  | .socketpair first second isSeqpacket =>
    if (s.sockets first).isSome ∨ (s.sockets second).isSome ∨ first = second then (s,.ret (-ebadf))
    else
      let s := s.construct first
        { isSeqpacket := isSeqpacket, ringBuffer := some newRing, peer := some second }
      (s.construct second
        { isSeqpacket := isSeqpacket, ringBuffer := some newRing, peer := some first },.ret 0)
  | .listen self backlog => match s.sockets self with
    | none => (s,.ret (-ebadf))
    | some sock => s.listen self sock backlog
  | .connect self target => match s.sockets self with
    | none => (s,.ret (-ebadf))
    | some _ => s.connect self target
  | .accept self nonblock new fd => match s.sockets self with
    | none => (s,.ret (-ebadf))
    | some sock => if (s.sockets new).isSome then (s,.ret (-ebadf)) else s.accept self sock nonblock new fd
  | .recvmsg self nonblock lens => match s.sockets self with
    | none => (s,.ret (-ebadf))
    | some sock => s.recvmsg self sock nonblock lens
  | .sendmsg self nonblock named iovs => match s.sockets self with
    | none => (s,.ret (-ebadf))
    | some sock => s.sendmsg sock nonblock named iovs
  | .close self => match s.sockets self with
    | none => (s,.ret (-ebadf))
    | some sock => (s.close self sock,.ret 0)

inductive Reachable : LocalSockets → Prop
  | boot : Reachable boot
  | step {s s' : LocalSockets} {op : Op} {reply : Reply} : Reachable s → s.next op = (s',reply) →
      reply ≠ .crash → reply ≠ .panic → Reachable s'

end LocalSockets

end SabaOS.Userland
