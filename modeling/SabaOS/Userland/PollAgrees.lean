import SabaOS.Userland.EventFd
import SabaOS.Userland.LocalSocket

namespace SabaOS.Userland

open SabaOS.Klib SabaOS.Lib

def Pipe.poll (p : Pipe) (events : UInt32) : UInt32 :=
  let revents : UInt32 := 0
  let revents :=
    if events &&& pollIn ≠ 0 then
      if p.writers = 0 then revents ||| pollHup
      else if !p.ringBuffer.isEmpty then revents ||| pollIn
      else revents
    else revents
  if events &&& pollOut ≠ 0 then
    if p.readers = 0 then revents ||| pollErr
    else if !p.ringBuffer.isFull then revents ||| pollOut
    else revents
  else revents

def EventFd.poll (e : EventFd) (events : UInt32) : UInt32 :=
  let revents : UInt32 := 0
  let revents :=
    if events &&& pollIn ≠ 0 then
      if e.counter > 0 then revents ||| pollIn else revents
    else revents
  if events &&& pollOut ≠ 0 then
    if e.counter < counterMax then revents ||| pollOut else revents
  else revents

section Masks

@[simp] theorem pollIn_pollIn : pollIn &&& pollIn = pollIn := rfl

@[simp] theorem pollIn_pollOut : pollIn &&& pollOut = 0 := rfl

@[simp] theorem pollOut_pollIn : pollOut &&& pollIn = 0 := rfl

@[simp] theorem pollOut_pollOut : pollOut &&& pollOut = pollOut := rfl

@[simp] theorem pollIn_ne_zero : pollIn ≠ 0 := by decide

@[simp] theorem pollOut_ne_zero : pollOut ≠ 0 := by decide

@[simp] theorem pollHup_ne_zero : pollHup ≠ 0 := by decide

@[simp] theorem pollErr_ne_zero : pollErr ≠ 0 := by decide

end Masks

def Agrees (revents : UInt32) (reply : Reply) : Prop := revents ≠ 0 ↔ reply ≠ .ret (-ewouldblock)

theorem agrees_of_ready {revents : UInt32} {reply : Reply} (hr : revents ≠ 0)
    (ha : reply ≠ .ret (-ewouldblock)) : Agrees revents reply := iff_of_true hr ha

theorem agrees_of_idle {revents : UInt32} {reply : Reply} (hr : revents = 0)
    (ha : reply = .ret (-ewouldblock)) : Agrees revents reply :=
  iff_of_false (not_not_intro hr) (not_not_intro ha)

theorem not_agrees {revents : UInt32} {reply : Reply}
    (h : revents = 0 ∧ reply ≠ .ret (-ewouldblock) ∨ revents ≠ 0 ∧ reply = .ret (-ewouldblock)) :
    ¬Agrees revents reply := by
  intro ha
  rcases h with ⟨hr,hreply⟩ | ⟨hr,hreply⟩
  · exact ha.mpr hreply hr
  · exact ha.mp hr hreply

theorem natCast_ne_ewouldblock (n : Nat) : Reply.ret (n : Int) ≠ .ret (-ewouldblock) := by
  intro h
  have h := Reply.ret.inj h
  simp only [ewouldblock] at h
  omega

namespace Pipe

variable (p : Pipe)

theorem poll_read_agrees (count : Nat) : Agrees (p.poll pollIn) (answer (p.read true count)) := by
  by_cases hw : p.writers = 0
  · refine agrees_of_ready (by simp [poll,hw]) ?_
    rw [read]
    split_ifs
    · simp [answer,ewouldblock]
    · exact natCast_ne_ewouldblock _
  by_cases he : p.ringBuffer.isEmpty = true
  · apply agrees_of_idle
    · simp [poll,hw,he]
    · simp [read,hw,he,answer]
  · refine agrees_of_ready (by simp [poll,hw,he]) ?_
    rw [read,if_neg he]
    exact natCast_ne_ewouldblock _

theorem poll_write_agrees (byte : UInt8) :
    Agrees (p.poll pollOut) (answer (p.write true [byte])) := by
  by_cases hr : p.readers = 0
  · apply agrees_of_ready
    · simp [poll,hr]
    · simp [write,hr,answer,ewouldblock,epipe]
  by_cases hf : p.ringBuffer.isFull = true
  · apply agrees_of_idle
    · simp [poll,hr,hf]
    · simp [write,hr,hf,answer]
  · refine agrees_of_ready (by simp [poll,hr,hf]) ?_
    rw [write,if_neg hr,if_neg hf]
    exact natCast_ne_ewouldblock _

end Pipe

namespace EventFd

variable (e : EventFd)

theorem poll_read_agrees_iff (count : Nat) :
    Agrees (e.poll pollIn) (answer (e.read true count)) ↔ 8 ≤ count ∨ e.counter ≠ 0 := by
  by_cases hz : e.counter = 0
  · by_cases hc : count < 8
    · refine iff_of_false (not_agrees (.inl ⟨?_,?_⟩)) (by simp [hz,hc])
      · simp [poll,hz]
      · simp [read,hc,answer,einval,ewouldblock]
    · refine iff_of_true (agrees_of_idle ?_ ?_) (.inl (Nat.le_of_not_lt hc))
      · simp [poll,hz]
      · simp [read,hc,hz,answer]
  · have hpos : e.counter > 0 := UInt64.pos_iff_ne_zero.mpr hz
    refine iff_of_true (agrees_of_ready ?_ ?_) (.inr hz)
    · simp [poll,hpos]
    · rw [read]
      split_ifs <;> simp [answer,einval,ewouldblock]

theorem poll_write_agrees : Agrees (e.poll pollOut) (answer (e.write true 8 1)) := by
  have hcut : e.counter > counterMax - 1 ↔ ¬e.counter < counterMax := by
    rw [gt_iff_lt,UInt64.lt_iff_toNat_lt,UInt64.lt_iff_toNat_lt,
      show (counterMax - 1).toNat = 0xfffffffffffffffd from rfl,
      show counterMax.toNat = 0xfffffffffffffffe from rfl]
    omega
  by_cases hlt : e.counter < counterMax
  · apply agrees_of_ready
    · simp [poll,hlt]
    · rw [write,if_neg (by decide),if_neg (by decide),if_neg (by rw [hcut]; exact not_not_intro hlt)]
      simp [answer,ewouldblock]
  · apply agrees_of_idle
    · simp [poll,hlt]
    · rw [write,if_neg (by decide),if_neg (by decide),if_pos (hcut.mpr hlt)]
      rfl

end EventFd

namespace LocalSockets

def HasData (sock : LocalSocket) : Prop := ∃ ring, sock.ringBuffer = some ring ∧ ring.isEmpty = false

def peerRing (s : LocalSockets) (sock : LocalSocket) : Option StreamSocket.Ring := sock.peer.bind s.ringOf

def readOrAccept (s : LocalSockets) (self : Nat) (sock : LocalSocket) (lens : List Nat)
    (new fd : Nat) : Reply :=
  if sock.maxPending > 0 then (s.accept self sock true new fd).2 else (s.recvmsg self sock true lens).2

def ReadableAlike (s : LocalSockets) (self : Nat) (sock : LocalSocket) : Prop :=
  if sock.maxPending > 0 then HasData sock → s.pending.isEmpty self = false
  else sock.ringBuffer.isSome ∧ (sock.peer.isSome ∨ HasData sock)

section Agreement

variable {s : LocalSockets} {self : Nat} {sock : LocalSocket}

theorem poll_in_iff : s.poll self sock pollIn ≠ 0 ↔
    HasData sock ∨ sock.maxPending > 0 ∧ s.pending.isEmpty self = false := by
  have hany : sock.ringBuffer.any (! ·.isEmpty) = true ↔ HasData sock := by
    simp [HasData,Option.any_eq_true]
  by_cases hd : HasData sock
  · simp only [hd,true_or,iff_true]
    by_cases hp : sock.maxPending > 0 ∧ s.pending.isEmpty self = false
    · simp [poll,hany.mpr hd,hp]
    · simp [poll,hany.mpr hd,hp]
  · have hno : sock.ringBuffer.any (! ·.isEmpty) = false := by
      rw [← Bool.not_eq_true,hany]
      exact hd
    by_cases hp : sock.maxPending > 0 ∧ s.pending.isEmpty self = false
    · simp [poll,hno,hp]
    · simp [poll,hno,hp,hd]

theorem poll_out_iff : s.poll self sock pollOut ≠ 0 ↔
    ∃ ring, s.peerRing sock = some ring ∧ ring.isFull = false := by
  have hany : (sock.peer.bind s.ringOf).any (! ·.isFull) = true ↔
      ∃ ring, s.peerRing sock = some ring ∧ ring.isFull = false := by
    simp [peerRing,Option.any_eq_true]
  rw [← hany]
  by_cases h : (sock.peer.bind s.ringOf).any (! ·.isFull) = true
  · simp [poll,h]
  · simp [poll,h]

theorem accept_agrees_iff (hl : sock.maxPending > 0) (new fd : Nat) :
    Agrees (s.poll self sock pollIn) (s.accept self sock true new fd).2 ↔
      (HasData sock → s.pending.isEmpty self = false) := by
  rw [Agrees,poll_in_iff]
  by_cases he : s.pending.isEmpty self = true
  · simp [accept,wouldBlock,he,HasData]
  · rw [Bool.not_eq_true] at he
    have hne : (s.accept self sock true new fd).2 ≠ .ret (-ewouldblock) := by
      rw [accept,if_neg (by simp [he])]
      split
      · simp
      · split
        · exact natCast_ne_ewouldblock fd
        · simp
    simp [hne,hl,he]

theorem recvmsg_agrees_iff (hl : ¬sock.maxPending > 0) (lens : List Nat) :
    Agrees (s.poll self sock pollIn) (s.recvmsg self sock true lens).2 ↔
      sock.ringBuffer.isSome ∧ (sock.peer.isSome ∨ HasData sock) := by
  rw [Agrees,poll_in_iff]
  simp only [hl,false_and,or_false]
  cases hring : sock.ringBuffer with
  | none =>
    simp only [HasData,hring]
    have hne : (s.recvmsg self sock true lens).2 = .ret (-enotconn) := by
      rw [recvmsg,hring]
      cases sock.peer <;> rfl
    simp [hne,enotconn,ewouldblock]
  | some ring =>
    have hdata : HasData sock ↔ ring.isEmpty = false := by simp [HasData,hring]
    rw [hdata]
    cases hpeer : sock.peer with
    | none =>
      have hne : (s.recvmsg self sock true lens).2 = .ret (-enotconn) := by
        rw [recvmsg,hpeer]
      simp [hne,enotconn,ewouldblock]
    | some peer =>
      by_cases he : ring.isEmpty = true
      · simp [recvmsg,hring,hpeer,he,wouldBlock]
      · have hne : (s.recvmsg self sock true lens).2 ≠ .ret (-ewouldblock) := by
          simp only [recvmsg,hring,hpeer,if_neg he]
          split_ifs
          · split
            · simp
            · exact natCast_ne_ewouldblock _
          · exact natCast_ne_ewouldblock _
        simp [hne,he]

theorem write_agrees_iff (byte : UInt8) :
    Agrees (s.poll self sock pollOut) (s.write sock true [byte]).2 ↔ (s.peerRing sock).isSome := by
  rw [Agrees,poll_out_iff]
  cases hring : s.peerRing sock with
  | none =>
    have hne : (s.write sock true [byte]).2 = .ret (-enotconn) := by
      rw [write,sendmsg,if_neg (by simp)]
      cases hpeer : sock.peer with
      | none => rfl
      | some peer =>
        rw [peerRing,hpeer,Option.bind_some] at hring
        simp only [hring]
    simp [hne,enotconn,ewouldblock]
  | some ring =>
    obtain ⟨peer,hpeer,hring⟩ := Option.bind_eq_some_iff.mp hring
    simp only [Option.some.injEq,exists_eq_left',Option.isSome_some,iff_true]
    by_cases hf : ring.isFull = true
    · simp [write,sendmsg,hpeer,hring,hf,wouldBlock]
    · have hne : (s.write sock true [byte]).2 ≠ .ret (-ewouldblock) := by
        rw [write,sendmsg,if_neg (by simp)]
        simp only [hpeer,hring,if_neg hf]
        split_ifs
        · split
          · simp
          · exact natCast_ne_ewouldblock _
        · exact natCast_ne_ewouldblock _
      simp [hne,hf]

theorem read_agrees_iff (lens : List Nat) (new fd : Nat) :
    Agrees (s.poll self sock pollIn) (s.readOrAccept self sock lens new fd) ↔
      s.ReadableAlike self sock := by
  rw [readOrAccept,ReadableAlike]
  split_ifs with hl
  · exact accept_agrees_iff hl new fd
  · exact recvmsg_agrees_iff hl lens

end Agreement

def hungUp : LocalSockets := ((boot.next (.socketpair 1 2 false)).1.next (.close 2)).1

theorem hungUp_reachable : Reachable hungUp :=
  @Reachable.step _ _ (.close 2) (.ret 0)
    (@Reachable.step boot _ (.socketpair 1 2 false) (.ret 0) .boot rfl (by decide) (by decide))
    rfl (by decide) (by decide)

end LocalSockets

theorem poll_agrees (p : Pipe) (e : EventFd) (s : LocalSockets) (self : Nat) (sock : LocalSocket)
    (count : Nat) (byte : UInt8) (lens : List Nat) (new fd : Nat) :
    (Agrees (p.poll pollIn) (answer (p.read true count)) ∧
      Agrees (p.poll pollOut) (answer (p.write true [byte]))) ∧
    ((Agrees (e.poll pollIn) (answer (e.read true count)) ↔ 8 ≤ count ∨ e.counter ≠ 0) ∧
      Agrees (e.poll pollOut) (answer (e.write true 8 1))) ∧
    (Agrees (s.poll self sock pollIn) (s.readOrAccept self sock lens new fd) ↔
      s.ReadableAlike self sock) ∧
    (Agrees (s.poll self sock pollOut) (s.write sock true [byte]).2 ↔ (s.peerRing sock).isSome) := by
  refine ⟨?_,?_,?_,?_⟩
  · exact ⟨p.poll_read_agrees count,p.poll_write_agrees byte⟩
  · exact ⟨e.poll_read_agrees_iff count,e.poll_write_agrees⟩
  · exact LocalSockets.read_agrees_iff lens new fd
  · exact LocalSockets.write_agrees_iff byte

-- A reader that polls never learns that the other end is closed.
theorem hangup_unpolled : ∃ s sock, LocalSockets.Reachable s ∧ s.sockets 1 = some sock ∧
    s.poll 1 sock pollIn = 0 ∧ (s.read 1 sock true 1).2 = .ret (-enotconn) ∧
      ¬Agrees (s.poll 1 sock pollIn) (s.read 1 sock true 1).2 := by
  have hpoll : ∀ sock, LocalSockets.hungUp.sockets 1 = some sock →
      LocalSockets.hungUp.poll 1 sock pollIn = 0 ∧
        (LocalSockets.hungUp.read 1 sock true 1).2 = .ret (-enotconn) := by
    rintro _ ⟨⟩
    exact ⟨by decide,by decide⟩
  obtain ⟨sock,hs⟩ := Option.isSome_iff_exists.mp
    (show (LocalSockets.hungUp.sockets 1).isSome by decide)
  obtain ⟨h0,hret⟩ := hpoll sock hs
  exact ⟨_,sock,LocalSockets.hungUp_reachable,hs,h0,hret,
    not_agrees (.inl ⟨h0,by rw [hret]; decide⟩)⟩

end SabaOS.Userland
