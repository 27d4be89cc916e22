import Mathlib.Logic.Relation
import SabaOS.Klib.RingBuffer
import SabaOS.Fs.Entry

namespace SabaOS.Userland.StreamSocket

open SabaOS.Klib SabaOS.Fs

abbrev Ring := RingBuffer UInt8 (208 * 1024)

def newRing (data : Nat → UInt8) : Ring := ⟨0,0,data⟩

inductive Side where
  | server
  | client
deriving DecidableEq, Repr

def Side.other : Side → Side
  | .server => .client
  | .client => .server

@[simp] theorem Side.other_other (e : Side) : e.other.other = e := by
  cases e <;> rfl

theorem Side.other_ne (e : Side) : e.other ≠ e := by
  cases e <;> decide

structure Sock where
  ringBuffer : Option Ring
  peer : Bool

inductive Body where
  | send (named : Bool) (iovs : List (List UInt8))
  | recv (lens : List Nat)
deriving DecidableEq, Repr

structure Call where
  side : Side
  body : Body
deriving DecidableEq, Repr

-- `accepted` and `received` record what `sendmsg` and `recvmsg` have reported to each side.
structure Pair where
  sock : Side → Sock
  waiting : List Call
  accepted : Side → List UInt8
  received : Side → List UInt8

inductive Outcome where
  | returned (s : Pair) (ret : Except Errno Nat)
  | blocked
  | crashed

namespace Pair

def setRing (s : Pair) (e : Side) (ring : Ring) : Pair :=
  { s with sock := Function.update s.sock e { s.sock e with ringBuffer := some ring } }

def addAccepted (s : Pair) (e : Side) (bytes : List UInt8) : Pair :=
  { s with accepted := Function.update s.accepted e (s.accepted e ++ bytes) }

def addReceived (s : Pair) (e : Side) (bytes : List UInt8) : Pair :=
  { s with received := Function.update s.received e (s.received e ++ bytes) }

end Pair

def sendLoop (ring : Ring) : List (List UInt8) → Ring × Nat
  | [] => (ring,0)
  | iov :: iovs =>
    if iov.length = 0 then sendLoop ring iovs
    else if (ring.write iov).1.isFull then ring.write iov
    else
      ((sendLoop (ring.write iov).1 iovs).1,(ring.write iov).2 + (sendLoop (ring.write iov).1 iovs).2)

def recvLoop (ring : Ring) : List Nat → Ring × List (List UInt8)
  | [] => (ring,[])
  | len :: lens =>
    if len = 0 then ((recvLoop ring lens).1,[] :: (recvLoop ring lens).2)
    else if (ring.read len).1.isEmpty then ((ring.read len).1,[(ring.read len).2])
    else
      ((recvLoop (ring.read len).1 lens).1,(ring.read len).2 :: (recvLoop (ring.read len).1 lens).2)

namespace Pair

-- `sendmsg` from its `while` on: `peer` and `peer->ring_buffer` are followed unchecked.
def sendReady (s : Pair) (e : Side) (iovs : List (List UInt8)) (nonblock : Bool) : Outcome :=
  if (s.sock e).peer then
    match (s.sock e.other).ringBuffer with
    | none => .crashed
    | some ring =>
      if ring.isFull then
        if nonblock then .returned s (.error .eagain) else .blocked
      else
        let (ring,transferred) := sendLoop ring iovs
        .returned ((s.setRing e.other ring).addAccepted e (iovs.flatten.take transferred))
          (.ok transferred)
  else .crashed

def sendmsg (s : Pair) (e : Side) (named : Bool) (iovs : List (List UInt8)) (nonblock : Bool) :
    Outcome :=
  if named then .returned s (.error .eisconn)
  else if (s.sock e).peer = false ∨ (s.sock e.other).ringBuffer.isNone then
    .returned s (.error .enotconn)
  else s.sendReady e iovs nonblock

-- `recvmsg` from its `while` on: the trigger at its end follows `peer` unchecked.
def recvReady (s : Pair) (e : Side) (lens : List Nat) (nonblock : Bool) : Outcome :=
  match (s.sock e).ringBuffer with
  | none => .crashed
  | some ring =>
    if ring.isEmpty then
      if nonblock then .returned s (.error .eagain) else .blocked
    else if (s.sock e).peer then
      let (ring,chunks) := recvLoop ring lens
      .returned ((s.setRing e ring).addReceived e chunks.flatten) (.ok chunks.flatten.length)
    else .crashed

def recvmsg (s : Pair) (e : Side) (lens : List Nat) (nonblock : Bool) : Outcome :=
  if (s.sock e).peer = false ∨ (s.sock e).ringBuffer.isNone then
    .returned s (.error .enotconn)
  else s.recvReady e lens nonblock

def start (s : Pair) (c : Call) (nonblock : Bool) : Outcome :=
  match c.body with
  | .send named iovs => s.sendmsg c.side named iovs nonblock
  | .recv lens => s.recvmsg c.side lens nonblock

def resume (s : Pair) (c : Call) (nonblock : Bool) : Outcome :=
  match c.body with
  | .send _ iovs => s.sendReady c.side iovs nonblock
  | .recv lens => s.recvReady c.side lens nonblock

def close (s : Pair) (e : Side) : Pair :=
  let sock := if (s.sock e).peer then
    Function.update s.sock e.other { s.sock e.other with peer := false } else s.sock
  { s with sock := Function.update sock e { sock e with ringBuffer := none } }

def accept (client : Sock) (data data' : Nat → UInt8) : Pair where
  sock := fun
    | .server => ⟨some (newRing data),true⟩
    | .client => ⟨some (client.ringBuffer.getD (newRing data')),true⟩
  waiting := []
  accepted := fun _ => []
  received := fun _ => []

end Pair

inductive Step : Pair → Pair → Prop
  | returns {s s' : Pair} {c : Call} {nonblock : Bool} {ret : Except Errno Nat} :
      s.start c nonblock = .returned s' ret → Step s s'
  | blocks {s : Pair} {c : Call} :
      s.start c false = .blocked → Step s { s with waiting := c :: s.waiting }
  | wakes {s s' : Pair} {c : Call} {nonblock : Bool} {ret : Except Errno Nat} :
      c ∈ s.waiting → s.resume c nonblock = .returned s' ret →
      Step s { s' with waiting := s'.waiting.erase c }
  | interrupted {s : Pair} {c : Call} :
      c ∈ s.waiting → Step s { s with waiting := s.waiting.erase c }

inductive Transfer (s : Pair) : Pair → Prop
  | none : Transfer s s
  | sent {e : Side} {iovs : List (List UInt8)} {ring : Ring} :
      (s.sock e).peer = true → (s.sock e.other).ringBuffer = some ring →
      Transfer s ((s.setRing e.other (sendLoop ring iovs).1).addAccepted e
        (iovs.flatten.take (sendLoop ring iovs).2))
  | got {e : Side} {lens : List Nat} {ring : Ring} :
      (s.sock e).peer = true → (s.sock e).ringBuffer = some ring →
      Transfer s ((s.setRing e (recvLoop ring lens).1).addReceived e (recvLoop ring lens).2.flatten)

section Cases

variable {s s' : Pair} {c : Call} {nonblock : Bool} {ret : Except Errno Nat}

theorem sendReady_transfer {e : Side} {iovs : List (List UInt8)}
    (h : s.sendReady e iovs nonblock = .returned s' ret) : Transfer s s' := by
  unfold Pair.sendReady at h
  by_cases hp : (s.sock e).peer = true
  · rw [if_pos hp] at h
    split at h
    · cases h
    · rename_i ring hr
      split_ifs at h
      · cases h
        exact .none
      · cases h
        exact .sent hp hr
  · rw [if_neg hp] at h
    cases h

theorem recvReady_transfer {e : Side} {lens : List Nat}
    (h : s.recvReady e lens nonblock = .returned s' ret) : Transfer s s' := by
  unfold Pair.recvReady at h
  split at h
  · cases h
  · rename_i ring hr
    split_ifs at h with hempty hn hp
    · cases h
      exact .none
    · cases h
      exact .got hp hr

theorem resume_transfer (h : s.resume c nonblock = .returned s' ret) : Transfer s s' := by
  unfold Pair.resume at h
  split at h
  · exact sendReady_transfer h
  · exact recvReady_transfer h

theorem start_transfer (h : s.start c nonblock = .returned s' ret) : Transfer s s' := by
  unfold Pair.start at h
  split at h
  · simp only [Pair.sendmsg] at h
    split_ifs at h
    · cases h
      exact .none
    · cases h
      exact .none
    · exact sendReady_transfer h
  · simp only [Pair.recvmsg] at h
    split_ifs at h
    · cases h
      exact .none
    · exact recvReady_transfer h

theorem Step.transfer (h : Step s s') : ∃ waiting, Transfer s { s' with waiting := waiting } := by
  cases h with
  | returns h => exact ⟨_,start_transfer h⟩
  | blocks h => exact ⟨s.waiting,.none⟩
  | @wakes s₁ _ _ _ _ h => exact ⟨s₁.waiting,resume_transfer h⟩
  | interrupted hc => exact ⟨s.waiting,.none⟩

end Cases

theorem sendLoop_spec {ring : Ring} (hr : ring.Valid) (iovs : List (List UInt8))
    (hw : ring.writeIndex + (sendLoop ring iovs).2 < 2 ^ 64) :
    (sendLoop ring iovs).1.contents = ring.contents ++ iovs.flatten.take (sendLoop ring iovs).2 ∧
      (sendLoop ring iovs).2 ≤ iovs.flatten.length ∧ (sendLoop ring iovs).1.Valid ∧
      (sendLoop ring iovs).1.writeIndex = ring.writeIndex + (sendLoop ring iovs).2 := by
  induction iovs generalizing ring with
  | nil => simp [sendLoop,hr]
  | cons iov iovs ih =>
    rw [sendLoop] at hw ⊢
    split_ifs at hw ⊢ with h0 hfull
    · have hnil : iov = [] := List.length_eq_zero_iff.mp h0
      simpa [hnil] using ih hr hw
    · obtain ⟨hret,hc,hv,hi⟩ := hr.write_spec iov hw
      have hle : (ring.write iov).2 ≤ iov.length := by omega
      refine ⟨?_,?_,hv,hi⟩
      · rw [hc,List.flatten_cons,List.take_append_of_le_length hle]
      · rw [List.flatten_cons,List.length_append]
        omega
    · dsimp only at hw ⊢
      obtain ⟨hret,hc,hv,hi⟩ := hr.write_spec iov (by omega)
      have hall : (ring.write iov).2 = iov.length := by
        have hcl := hr.count_le
        have hnot := mt hv.isFull_iff.mpr hfull
        rw [hc,List.length_append,List.length_take] at hnot
        simp only [RingBuffer.contents_length] at hret hnot
        omega
      obtain ⟨hc',hle,hv',hi'⟩ := ih hv (by omega)
      refine ⟨?_,?_,hv',by omega⟩
      · rw [hc',hc,hall,List.take_length,List.flatten_cons,List.append_assoc]
        congr 1
        exact (List.take_length_add_append _).symm
      · rw [List.flatten_cons,List.length_append]
        omega

theorem recvLoop_spec {ring : Ring} (hr : ring.Valid) (lens : List Nat) :
    (recvLoop ring lens).2.flatten = ring.contents.take lens.sum ∧
      (recvLoop ring lens).1.contents = ring.contents.drop lens.sum ∧
      (recvLoop ring lens).1.Valid ∧ (recvLoop ring lens).1.writeIndex = ring.writeIndex := by
  induction lens generalizing ring with
  | nil => simp [recvLoop,hr]
  | cons len lens ih =>
    rw [recvLoop]
    split_ifs with h0 hempty
    · simpa [h0] using ih hr
    · obtain ⟨hret,hc,hv,hi⟩ := hr.read_spec len
      have hnil : ring.contents.drop len = [] := by
        rw [← hc]
        exact hv.isEmpty_iff.mp hempty
      have hle : ring.contents.length ≤ len := List.drop_eq_nil_iff.mp hnil
      refine ⟨?_,?_,hv,hi⟩
      · simp only [List.flatten_cons,List.flatten_nil,List.append_nil,hret,List.sum_cons]
        rw [List.take_of_length_le hle,List.take_of_length_le (by omega)]
      · rw [hc,hnil,List.drop_eq_nil_of_le (by simp only [List.sum_cons]; omega)]
    · obtain ⟨hret,hc,hv,hi⟩ := hr.read_spec len
      obtain ⟨hret',hc',hv',hi'⟩ := ih hv
      refine ⟨?_,?_,hv',hi'.trans hi⟩
      · rw [List.flatten_cons,hret',hret,hc,List.sum_cons,List.take_add]
      · rw [hc',hc,List.drop_drop,List.sum_cons]

end SabaOS.Userland.StreamSocket
