import SabaOS.Lib.Framing
import SabaOS.Userland.StreamSocket

namespace SabaOS.Userland.Seqpacket

open SabaOS.Klib SabaOS.Fs SabaOS.Userland.StreamSocket

def lengthBytes (n : Nat) : List UInt8 :=
  [.ofNat n,.ofNat (n / 2 ^ 8),.ofNat (n / 2 ^ 16),.ofNat (n / 2 ^ 24)]

def lengthOf (bytes : List UInt8) : Nat := bytes.foldr (fun b n => b.toNat + 2 ^ 8 * n) 0

def packetHeader : Lib.Header UInt8 where
  encode := lengthBytes
  decode := lengthOf
  width := 4
  bound := 2 ^ 32
  length_encode := fun _ => rfl
  decode_encode := by
    intro n hn
    simp only [lengthBytes,lengthOf,List.foldr_cons,List.foldr_nil,UInt8.toNat_ofNat']
    omega

structure Received where
  header : Nat
  capacity : Nat
  bytes : List UInt8
  truncated : Bool
deriving DecidableEq, Repr

-- `sent` records the packets that `sendmsg` has accepted, and `got` what `recvmsg` has given.
structure Pair where
  sock : Side → Sock
  waiting : List Call
  sent : Side → List (List UInt8)
  got : Side → List Received

inductive Outcome where
  | returned (s : Pair) (ret : Except Errno Nat)
  | blocked
  | crashed
  | panicked

-- `none` is a failed assertion.
def sendPacket (ring : Ring) (iovs : List (List UInt8)) : Option (Ring × Nat) :=
  let header := ring.write (lengthBytes ((iovs.map List.length).sum % 2 ^ 32))
  if header.2 = 4 then some (sendLoop header.1 iovs) else none

def packetLoop (ring : Ring) (left : Nat) : List Nat → Ring × List (List UInt8)
  | [] => (ring,[])
  | len :: lens =>
    if len = 0 then ((packetLoop ring left lens).1,[] :: (packetLoop ring left lens).2)
    else
      let amountToRead := min len left
      if amountToRead = 0 then (ring,[])
      else
        let chunk := ring.read amountToRead
        if chunk.1.isEmpty then (chunk.1,[chunk.2])
        else
          let rest := packetLoop chunk.1 (left - chunk.2.length) lens
          (rest.1,chunk.2 :: rest.2)

def recvPacket (ring : Ring) (lens : List Nat) : Option (Ring × Received) :=
  let header := ring.read 4
  if header.2.length = 4 then
    let packetLength := lengthOf header.2
    let body := packetLoop header.1 packetLength lens
    let bytes := body.2.flatten
    if bytes.length ≤ packetLength then
      some (if bytes.length < packetLength then body.1.truncate (packetLength - bytes.length) else body.1,
        ⟨packetLength,lens.sum,bytes,bytes.length < packetLength⟩)
    else none
  else none

namespace Pair

def setRing (s : Pair) (e : Side) (ring : Ring) : Pair :=
  { s with sock := Function.update s.sock e { s.sock e with ringBuffer := some ring } }

def addSent (s : Pair) (e : Side) (packet : List UInt8) : Pair :=
  { s with sent := Function.update s.sent e (s.sent e ++ [packet]) }

def addGot (s : Pair) (e : Side) (r : Received) : Pair :=
  { s with got := Function.update s.got e (s.got e ++ [r]) }

def sendReady (s : Pair) (e : Side) (iovs : List (List UInt8)) (nonblock : Bool) : Outcome :=
  if (s.sock e).peer then
    match (s.sock e.other).ringBuffer with
    | none => .crashed
    | some ring =>
      if ring.isFull then
        if nonblock then .returned s (.error .eagain) else .blocked
      else
        match sendPacket ring iovs with
        | none => .panicked
        | some (ring,transferred) =>
          .returned ((s.setRing e.other ring).addSent e iovs.flatten) (.ok transferred)
  else .crashed

def sendmsg (s : Pair) (e : Side) (named : Bool) (iovs : List (List UInt8)) (nonblock : Bool) :
    Outcome :=
  if named then .returned s (.error .eisconn)
  else if (s.sock e).peer = false ∨ (s.sock e.other).ringBuffer.isNone then
    .returned s (.error .enotconn)
  else s.sendReady e iovs nonblock

def recvReady (s : Pair) (e : Side) (lens : List Nat) (nonblock : Bool) : Outcome :=
  match (s.sock e).ringBuffer with
  | none => .crashed
  | some ring =>
    if ring.isEmpty then
      if nonblock then .returned s (.error .eagain) else .blocked
    else
      match recvPacket ring lens with
      | none => .panicked
      | some (ring,r) =>
        if (s.sock e).peer then .returned ((s.setRing e ring).addGot e r) (.ok r.bytes.length)
        else .crashed

def recvmsg (s : Pair) (e : Side) (lens : List Nat) (nonblock : Bool) : Outcome :=
  if (s.sock e).peer = false ∨ (s.sock e).ringBuffer.isNone then
    .returned s (.error .enotconn)
  else s.recvReady e lens nonblock

def start (s : Pair) (c : Call) (nonblock : Bool) : Outcome :=
  match c.body with
  | .send named iovs => s.sendmsg c.side named iovs nonblock
  | .recv lens => s.recvmsg c.side lens nonblock

def resume (s : Pair) (c : Call) (nonblock : Bool) : Outcome :=
  match c.body with
  | .send _ iovs => s.sendReady c.side iovs nonblock
  | .recv lens => s.recvReady c.side lens nonblock

def accept (client : Sock) (data data' : Nat → UInt8) : Pair where
  sock := fun
    | .server => ⟨some (newRing data),true⟩
    | .client => ⟨some (client.ringBuffer.getD (newRing data')),true⟩
  waiting := []
  sent := fun _ => []
  got := fun _ => []

def fits (s : Pair) (c : Call) : Prop :=
  match c.body with
  | .send _ iovs => ∀ ring, (s.sock c.side.other).ringBuffer = some ring → ring.isFull = false →
    4 + iovs.flatten.length ≤ ring.freeCount ∧ ring.writeIndex + 4 + iovs.flatten.length < 2 ^ 64
  | .recv _ => True

end Pair

inductive Step (C : Pair → Call → Prop) : Pair → Pair → Prop
  | returns {s s' : Pair} {c : Call} {nonblock : Bool} {ret : Except Errno Nat} :
      C s c → s.start c nonblock = .returned s' ret → Step C s s'
  | blocks {s : Pair} {c : Call} :
      s.start c false = .blocked → Step C s { s with waiting := c :: s.waiting }
  | wakes {s s' : Pair} {c : Call} {nonblock : Bool} {ret : Except Errno Nat} :
      c ∈ s.waiting → C s c → s.resume c nonblock = .returned s' ret →
      Step C s { s' with waiting := s'.waiting.erase c }
  | interrupted {s : Pair} {c : Call} :
      c ∈ s.waiting → Step C s { s with waiting := s.waiting.erase c }

end SabaOS.Userland.Seqpacket
