import Mathlib.Data.List.Forall2
import SabaOS.Userland.Seqpacket
import SabaOS.Userland.StreamDelivery

namespace SabaOS.Userland.Seqpacket

open SabaOS.Klib SabaOS.Fs SabaOS.Userland.StreamSocket Relation
open SabaOS.Lib (Header delivered_at)

structure Delivered (packet : List UInt8) (r : Received) : Prop where
  header : r.header = packet.length
  bytes : r.bytes = packet.take r.capacity
  truncated : r.truncated = true ↔ r.bytes.length < packet.length

section Rings

variable {ring : Ring} {iovs : List (List UInt8)} {lens : List Nat} {left : Nat}

theorem contents_le (hr : ring.Valid) : ring.contents.length ≤ 208 * 1024 := by
  have hcl := hr.count_le
  rw [RingBuffer.contents_length]
  omega

theorem sendLoop_all (iovs : List (List UInt8)) (hr : ring.Valid) (hfit : ring.contents.length + iovs.flatten.length ≤ 208 * 1024)
    (hw : ring.writeIndex + iovs.flatten.length < 2 ^ 64) :
    (sendLoop ring iovs).2 = iovs.flatten.length := by
  induction iovs generalizing ring with
  | nil => rfl
  | cons iov iovs ih =>
    rw [List.flatten_cons,List.length_append] at hfit hw ⊢
    have hle : (ring.write iov).2 ≤ iov.length := Nat.min_le_left _ _
    obtain ⟨hret,hc,hv,hi⟩ := hr.write_spec iov (by omega)
    have hall : (ring.write iov).2 = iov.length := by omega
    have hlen : (ring.write iov).1.contents.length = ring.contents.length + iov.length := by
      rw [hc,hall,List.take_length,List.length_append]
    rw [sendLoop]
    split_ifs with hzero hfull
    · rw [hzero,Nat.zero_add]
      exact ih hr (by omega) (by omega)
    · have hsize := hv.isFull_iff.mp hfull
      omega
    · rw [hall,ih hv (by omega) (by omega)]

theorem sendPacket_ok (iovs : List (List UInt8)) (hr : ring.Valid) (hfit : 4 + iovs.flatten.length ≤ ring.freeCount)
    (hw : ring.writeIndex + 4 + iovs.flatten.length < 2 ^ 64) :
    ∃ ring', sendPacket ring iovs = some (ring',iovs.flatten.length) ∧ ring'.Valid ∧
      ring'.contents = ring.contents ++ packetHeader.frame iovs.flatten := by
  have hfree := hr.freeCount_eq
  have hclen := RingBuffer.contents_length (r := ring)
  have hle := contents_le hr
  have hsum : (iovs.map List.length).sum % 2 ^ 32 = iovs.flatten.length := by
    rw [← List.length_flatten]
    exact Nat.mod_eq_of_lt (by omega)
  have hheader : (ring.write (lengthBytes iovs.flatten.length)).2 ≤ 4 := Nat.min_le_left _ _
  obtain ⟨hret,hc,hv,hi⟩ := hr.write_spec (lengthBytes iovs.flatten.length) (by omega)
  have hfour : (lengthBytes iovs.flatten.length).length = 4 := rfl
  have hwritten : (ring.write (lengthBytes iovs.flatten.length)).2 = 4 := by omega
  have hlen : (ring.write (lengthBytes iovs.flatten.length)).1.contents.length =
      ring.contents.length + 4 := by
    rw [hc,hwritten,List.length_append]
    rfl
  have hall := sendLoop_all iovs hv (by omega) (by omega)
  obtain ⟨hbody,-,hv',-⟩ := sendLoop_spec hv iovs (by omega)
  refine ⟨_,?_,hv',?_⟩
  · simp only [sendPacket,hsum]
    rw [if_pos hwritten]
    exact congrArg some (Prod.ext rfl hall)
  · rw [hbody,hc,hall,List.take_length,hwritten,List.append_assoc]
    rfl

theorem packetLoop_spec (lens : List Nat) (hr : ring.Valid)
    (hleft : left ≤ ring.contents.length) :
    (packetLoop ring left lens).2.flatten = ring.contents.take (min lens.sum left) ∧
      (packetLoop ring left lens).1.contents = ring.contents.drop (min lens.sum left) ∧
      (packetLoop ring left lens).1.Valid := by
  induction lens generalizing ring left with
  | nil => simp [packetLoop,hr]
  | cons len lens ih =>
    rw [packetLoop,List.sum_cons]
    dsimp only
    split_ifs with hlen hamount hempty
    · simpa [hlen] using ih hr hleft
    · have hzero : min (len + lens.sum) left = 0 := by omega
      rw [hzero]
      exact ⟨rfl,rfl,hr⟩
    · obtain ⟨hret,hc,hv,-⟩ := hr.read_spec (min len left)
      have hnil : ring.contents.drop (min len left) = [] := by
        rw [← hc]
        exact hv.isEmpty_iff.mp hempty
      have hle : ring.contents.length ≤ min len left := List.drop_eq_nil_iff.mp hnil
      have hsame : min (len + lens.sum) left = min len left := by omega
      rw [hsame]
      exact ⟨by simpa using hret,hc,hv⟩
    · obtain ⟨hret,hc,hv,-⟩ := hr.read_spec (min len left)
      have hgot : (ring.read (min len left)).2.length = min len left := by
        rw [hret,List.length_take]
        omega
      have hfit : left - min len left ≤ (ring.read (min len left)).1.contents.length := by
        rw [hc,List.length_drop]
        omega
      obtain ⟨hret',hc',hv'⟩ := ih hv hfit
      have hsplit : min (len + lens.sum) left = min len left + min lens.sum (left - min len left) := by
        omega
      rw [hgot,hsplit]
      refine ⟨?_,?_,hv'⟩
      · rw [List.flatten_cons,hret',hret,hc,List.take_add]
      · rw [hc',hc,List.drop_drop]

theorem recvPacket_ok {p : List UInt8} {ps : List (List UInt8)} (lens : List Nat)
    (hr : ring.Valid)
    (hc : ring.contents = packetHeader.frames (p :: ps)) :
    ∃ ring' r, recvPacket ring lens = some (ring',r) ∧ ring'.Valid ∧
      ring'.contents = packetHeader.frames ps ∧ Delivered p r := by
  have hle := contents_le hr
  have hlen : ring.contents.length = 4 + p.length + (packetHeader.frames ps).length := by
    rw [hc,Header.frames,List.length_append,Header.frame_length]
    rfl
  obtain ⟨hread,hrest,hv,-⟩ := hr.read_spec 4
  have hheader : (ring.read 4).2 = lengthBytes p.length := by
    rw [hread,hc]
    exact Header.take_frames (h := packetHeader)
  have hbody : (ring.read 4).1.contents = p ++ packetHeader.frames ps := by
    rw [hrest,hc]
    exact Header.drop_frames (h := packetHeader)
  have hlength : lengthOf (lengthBytes p.length) = p.length :=
    packetHeader.decode_encode p.length (by
      show p.length < 2 ^ 32
      omega)
  have hwhole : p.length ≤ (ring.read 4).1.contents.length := by
    rw [hbody,List.length_append]
    omega
  obtain ⟨hbytes,hcontents,hv'⟩ := packetLoop_spec lens hv hwhole
  have htake : (packetLoop (ring.read 4).1 p.length lens).2.flatten = p.take lens.sum := by
    rw [hbytes,hbody,List.take_append_of_le_length (by omega),← List.take_take,List.take_length]
  have hcount : (p.take lens.sum).length = min lens.sum p.length := List.length_take
  have hleft : (packetLoop (ring.read 4).1 p.length lens).1.contents =
      p.drop lens.sum ++ packetHeader.frames ps := by
    rw [hcontents,hbody,List.drop_append_of_le_length (Nat.min_le_right _ _)]
    rcases Nat.le_total lens.sum p.length with hsum | hsum
    · rw [Nat.min_eq_left hsum]
    · rw [Nat.min_eq_right hsum,List.drop_length,List.drop_eq_nil_of_le hsum]
  simp only [recvPacket,hheader,hlength,htake]
  rw [if_pos (show (lengthBytes p.length).length = 4 from rfl),if_pos (by omega)]
  split_ifs with hshort
  · have hdropped : (p.drop lens.sum).length = p.length - (p.take lens.sum).length := by
      rw [List.length_drop]
      omega
    obtain ⟨htrunc,hvt,-⟩ := hv'.truncate_spec (p.length - (p.take lens.sum).length)
    refine ⟨_,_,rfl,hvt,?_,⟨rfl,rfl,decide_eq_true_iff⟩⟩
    rw [htrunc,hleft]
    exact List.drop_left' hdropped
  · refine ⟨_,_,rfl,hv',?_,⟨rfl,rfl,decide_eq_true_iff⟩⟩
    rw [hleft,List.drop_eq_nil_of_le (by omega),List.nil_append]

end Rings

structure Flow (s : Pair) : Prop where
  peer : ∀ e, (s.sock e).peer = true
  ring : ∀ e, ∃ ring done rest, (s.sock e.other).ringBuffer = some ring ∧ ring.Valid ∧
    ring.contents = packetHeader.frames rest ∧ s.sent e = done ++ rest ∧
    List.Forall₂ Delivered done (s.got e.other)

variable {s s' : Pair} {e : Side} {ring : Ring} {c : Call} {nonblock : Bool} {ret : Except Errno Nat}

theorem Flow.sent {packet : List UInt8} (h : Flow s) (hring : (s.sock e.other).ringBuffer = some ring)
    {ring' : Ring} (hv : ring'.Valid)
    (hc : ring'.contents = ring.contents ++ packetHeader.frame packet) :
    Flow ((s.setRing e.other ring').addSent e packet) := by
  refine ⟨fun i => (ringed_peer s.sock e.other ring' i).trans (h.peer i),fun i => ?_⟩
  obtain ⟨r,done,rest,hr,hrv,hrc,hs,hd⟩ := h.ring i
  rcases e.eq_or_other i with rfl | rfl
  · cases hr.symm.trans hring
    refine ⟨ring',done,rest ++ [packet],ringed_self s.sock i.other ring',hv,?_,?_,hd⟩
    · rw [hc,hrc,Header.frames_concat]
    · show Function.update s.sent i (s.sent i ++ [packet]) i = _
      rw [Function.update_self,hs,List.append_assoc]
  · refine ⟨r,done,rest,?_,hrv,hrc,?_,hd⟩
    · rw [Side.other_other] at hr ⊢
      exact (ringed_of_ne s.sock e.other ring' e.other_ne.symm).trans hr
    · exact (Function.update_of_ne e.other_ne _ _).trans hs

theorem Flow.got {r : Received} {p : List UInt8} {done rest : List (List UInt8)} (h : Flow s)
    {ring' : Ring} (hv : ring'.Valid) (hc : ring'.contents = packetHeader.frames rest)
    (hs : s.sent e.other = done ++ p :: rest) (hd : List.Forall₂ Delivered done (s.got e))
    (hr : Delivered p r) : Flow ((s.setRing e ring').addGot e r) := by
  refine ⟨fun i => (ringed_peer s.sock e ring' i).trans (h.peer i),fun i => ?_⟩
  obtain ⟨q,done',rest',hq,hqv,hqc,hqs,hqd⟩ := h.ring i
  rcases e.eq_or_other i with rfl | rfl
  · refine ⟨q,done',rest',(ringed_of_ne s.sock i ring' i.other_ne).trans hq,hqv,hqc,hqs,?_⟩
    show List.Forall₂ Delivered done' (Function.update s.got i (s.got i ++ [r]) i.other)
    rw [Function.update_of_ne i.other_ne]
    exact hqd
  · rw [Side.other_other]
    refine ⟨ring',done ++ [p],rest,ringed_self s.sock e ring',hv,hc,?_,?_⟩
    · rw [List.append_assoc]
      exact hs
    · show List.Forall₂ Delivered (done ++ [p]) (Function.update s.got e (s.got e ++ [r]) e)
      rw [Function.update_self]
      exact List.rel_append hd (.cons hr .nil)

def Keeps : Outcome → Prop
  | .returned s _ => Flow s
  | .blocked => True
  | .crashed => False
  | .panicked => False

theorem sendReady_keeps {iovs : List (List UInt8)} (h : Flow s)
    (hfits : ∀ ring, (s.sock e.other).ringBuffer = some ring → ring.isFull = false →
      4 + iovs.flatten.length ≤ ring.freeCount ∧ ring.writeIndex + 4 + iovs.flatten.length < 2 ^ 64) :
    Keeps (s.sendReady e iovs nonblock) := by
  obtain ⟨ring,done,rest,hring,hv,hc,-,-⟩ := h.ring e
  simp only [Pair.sendReady,hring,h.peer e,if_true]
  split_ifs with hfull hn
  · exact h
  · trivial
  · obtain ⟨hfree,hw⟩ := hfits ring hring (Bool.eq_false_iff.mpr hfull)
    obtain ⟨ring',hsend,hv',hc'⟩ := sendPacket_ok _ hv hfree hw
    rw [hsend]
    exact h.sent hring hv' hc'

theorem recvReady_keeps {lens : List Nat} (h : Flow s) : Keeps (s.recvReady e lens nonblock) := by
  obtain ⟨ring,done,rest,hring,hv,hc,hs,hd⟩ := h.ring e.other
  rw [Side.other_other] at hring hd
  simp only [Pair.recvReady,hring,h.peer e,if_true]
  split_ifs with hempty hn
  · exact h
  · trivial
  · cases rest with
    | nil =>
      exact absurd (hv.isEmpty_iff.mpr hc) hempty
    | cons p ps =>
      obtain ⟨ring',r,hrecv,hv',hc',hr⟩ := recvPacket_ok lens hv hc
      rw [hrecv]
      exact h.got hv' hc' hs hd hr

theorem resume_keeps (nonblock : Bool) (h : Flow s) (hfits : s.fits c) :
    Keeps (s.resume c nonblock) := by
  unfold Pair.resume
  unfold Pair.fits at hfits
  cases hb : c.body with
  | send named iovs =>
    rw [hb] at hfits
    exact sendReady_keeps h hfits
  | recv lens => exact recvReady_keeps h

theorem start_keeps (nonblock : Bool) (h : Flow s) (hfits : s.fits c) :
    Keeps (s.start c nonblock) := by
  have hresume := resume_keeps nonblock h hfits
  unfold Pair.start
  unfold Pair.resume at hresume
  cases hb : c.body with
  | send named iovs =>
    rw [hb] at hresume
    dsimp only [Pair.sendmsg]
    split_ifs
    · exact h
    · exact h
    · exact hresume
  | recv lens =>
    rw [hb] at hresume
    dsimp only [Pair.recvmsg]
    split_ifs
    · exact h
    · exact hresume

theorem Flow.step (h : Flow s) (hstep : Step Pair.fits s s') : Flow s' := by
  cases hstep with
  | @returns _ _ nonblock _ hfits hret =>
    have hkeeps := start_keeps nonblock h hfits
    rw [hret] at hkeeps
    exact hkeeps
  | blocks => exact ⟨h.peer,h.ring⟩
  | @wakes _ _ nonblock _ hc hfits hret =>
    have hkeeps := resume_keeps nonblock h hfits
    rw [hret] at hkeeps
    exact ⟨hkeeps.peer,hkeeps.ring⟩
  | interrupted => exact ⟨h.peer,h.ring⟩

theorem accept_flow {client : Sock} {data data' : Nat → UInt8}
    (hc : ∀ ring, client.ringBuffer = some ring → ring.Valid ∧ ring.isEmpty = true) :
    Flow (Pair.accept client data data') := by
  have hflow := StreamSocket.accept_flow data data' hc
  refine ⟨hflow.peer,fun e => ?_⟩
  obtain ⟨ring,hring,hv,haccepted,-⟩ := hflow.ring e
  exact ⟨ring,[],[],hring,hv,haccepted.symm,rfl,.nil⟩

theorem flow_run {client : Sock} {data data' : Nat → UInt8}
    (hc : ∀ ring, client.ringBuffer = some ring → ring.Valid ∧ ring.isEmpty = true)
    (hrun : ReflTransGen (Step Pair.fits) (Pair.accept client data data') s) : Flow s := by
  induction hrun with
  | refl => exact accept_flow hc
  | tail _ hstep ih => exact ih.step hstep

def Pair.Framed (s : Pair) : Prop :=
  ∀ e (i : Nat) r, (s.got e.other)[i]? = some r → ∃ packet, (s.sent e)[i]? = some packet ∧ Delivered packet r

theorem Flow.framed (h : Flow s) : s.Framed := by
  intro e i r hr
  obtain ⟨ring,done,rest,-,-,-,hs,hd⟩ := h.ring e
  rw [hs]
  exact delivered_at hd hr

theorem packets_framed {client : Sock} {data data' : Nat → UInt8}
    (hc : ∀ ring, client.ringBuffer = some ring → ring.Valid ∧ ring.isEmpty = true)
    (hrun : ReflTransGen (Step Pair.fits) (Pair.accept client data data') s) :
    s.Framed ∧ ∀ c nonblock, s.fits c → s.start c nonblock ≠ .panicked ∧
      (c ∈ s.waiting → s.resume c nonblock ≠ .panicked) := by
  have hflow := flow_run hc hrun
  refine ⟨hflow.framed,fun c nonblock hfits => ⟨fun hpanic => ?_,fun _ hpanic => ?_⟩⟩
  · have hkeeps := start_keeps nonblock hflow hfits
    rw [hpanic] at hkeeps
    exact hkeeps
  · have hkeeps := resume_keeps nonblock hflow hfits
    rw [hpanic] at hkeeps
    exact hkeeps

theorem start_sends {iovs : List (List UInt8)} {ring' : Ring} {n : Nat} (hp : (s.sock e).peer = true)
    (hring : (s.sock e.other).ringBuffer = some ring) (hfull : ring.isFull = false)
    (hsend : sendPacket ring iovs = some (ring',n)) : s.start ⟨e,.send false iovs⟩ nonblock =
      .returned ((s.setRing e.other ring').addSent e iovs.flatten) (.ok n) := by
  simp [Pair.start,Pair.sendmsg,Pair.sendReady,hp,hring,hfull,hsend]

theorem start_panics {iovs : List (List UInt8)} (hp : (s.sock e).peer = true)
    (hring : (s.sock e.other).ringBuffer = some ring) (hfull : ring.isFull = false)
    (hsend : sendPacket ring iovs = none) : s.start ⟨e,.send false iovs⟩ nonblock = .panicked := by
  simp [Pair.start,Pair.sendmsg,Pair.sendReady,hp,hring,hfull,hsend]

theorem sendPacket_torn {iovs : List (List UInt8)} (hfree : ring.freeCount < 4) :
    sendPacket ring iovs = none := by
  have hwritten : ∀ n, (ring.write (lengthBytes n)).2 = min 4 ring.freeCount := fun _ => rfl
  simp only [sendPacket,hwritten]
  rw [if_neg (by omega)]

def connected : Pair := Pair.accept ⟨none,false⟩ (fun _ => 0) (fun _ => 0)

theorem newRing_valid : (newRing fun _ => 0).Valid :=
  ⟨by decide,by decide,le_rfl,Nat.two_pow_pos 64,Nat.zero_le _⟩

-- One byte is left in the ring: a second header does not fit.
theorem header_torn : ∃ s, ReflTransGen (Step fun _ _ => True) connected s ∧
    s.start ⟨.server,.send false [[42]]⟩ true = .panicked := by
  obtain ⟨p,hp⟩ : ∃ p : List UInt8, p.length = 208 * 1024 - 5 :=
    ⟨List.replicate (208 * 1024 - 5) 0,List.length_replicate⟩
  have hflat : [p].flatten.length = 208 * 1024 - 5 := by rw [List.flatten_singleton,hp]
  have hfree : (newRing fun _ => 0).freeCount = 208 * 1024 := by decide +kernel
  obtain ⟨ring,hsend,hv,hc⟩ := sendPacket_ok [p] newRing_valid
    (by rw [hflat,hfree]; decide) (by rw [hflat]; decide)
  have hlen : ring.contents.length = 208 * 1024 - 1 := by
    rw [hc,List.length_append,Header.frame_length,hflat]
    decide +kernel
  have hleft : ring.freeCount = 1 := by
    rw [hv.freeCount_eq,← RingBuffer.contents_length,hlen]
  have hfull : ring.isFull = false := by
    rw [Bool.eq_false_iff]
    intro hfull
    have hsize := hv.isFull_iff.mp hfull
    omega
  have hfirst : connected.start ⟨.server,.send false [p]⟩ false = .returned _ _ :=
    start_sends rfl rfl (by decide +kernel) hsend
  exact ⟨_,.single (.returns trivial hfirst),
    start_panics rfl rfl hfull (sendPacket_torn (by omega))⟩

def Outcome.pair? : Outcome → Option Pair
  | .returned s _ => some s
  | .blocked => none
  | .crashed => none
  | .panicked => none

theorem Step.of_pair? {C : Pair → Call → Prop} (hc : C s c) (h : (s.start c false).pair? = some s') :
    Step C s s' := by
  cases ho : s.start c false with
  | returned s₁ ret =>
    rw [ho] at h
    cases h
    exact .returns hc ho
  | blocked =>
    rw [ho] at h
    cases h
  | crashed =>
    rw [ho] at h
    cases h
  | panicked =>
    rw [ho] at h
    cases h

def sentOne : Pair := ((connected.start ⟨.server,.send false [[42],[43]]⟩ false).pair?).get (by decide +kernel)

def gotOne : Pair := ((sentOne.start ⟨.client,.recv [1]⟩ false).pair?).get (by decide +kernel)

theorem packets_framed_one : ReflTransGen (Step Pair.fits) connected gotOne ∧
    gotOne.got .client = [⟨2,1,[42],true⟩] ∧ gotOne.Framed := by
  have hfits : connected.fits ⟨.server,.send false [[42],[43]]⟩ := by
    intro ring hring _
    cases hring
    decide +kernel
  have hsent : Step Pair.fits connected sentOne :=
    .of_pair? hfits (Option.some_get (by decide +kernel)).symm
  have hgot : Step Pair.fits sentOne gotOne :=
    .of_pair? (c := ⟨.client,.recv [1]⟩) trivial (Option.some_get (by decide +kernel)).symm
  have hrun := (ReflTransGen.single hsent).tail hgot
  exact ⟨hrun,by decide +kernel,(packets_framed (fun _ h => by cases h) hrun).1⟩

end SabaOS.Userland.Seqpacket
