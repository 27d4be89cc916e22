import Mathlib.Data.List.TakeDrop
import Mathlib.Logic.Relation
import SabaOS.Userland.Datagram

namespace SabaOS.Userland.LocalDatagram

open SabaOS.Klib SabaOS.Lib Relation

structure Delivered (datagram : List UInt8) (r : Received) : Prop where
  chunks : r.chunks = r.lens.splitLengths datagram
  bytes : r.chunks.flatten = datagram.take r.lens.sum
  transferred : r.transferred = r.chunks.flatten.length
  complete : r.chunks.flatten = datagram ↔ datagram.length ≤ r.lens.sum
  truncated : r.truncated = true ↔ r.chunks.flatten.length < datagram.length

section Layout

variable {d : Datagram} {copied transferred : Nat} {iovs : List (List UInt8)} {lens : List Nat}

theorem flatten_splitLengths (lens : List Nat) (l : List UInt8) :
    (lens.splitLengths l).flatten = l.take lens.sum := by
  induction lens generalizing l with
  | nil => rfl
  | cons len lens ih =>
    rw [List.splitLengths_cons,List.flatten_cons,ih,List.sum_cons,List.take_add]

theorem splitLengths_of_nil (lens : List Nat) :
    lens.splitLengths ([] : List UInt8) = lens.map fun _ => [] := by
  induction lens with
  | nil => rfl
  | cons len lens ih =>
    rw [List.splitLengths_cons,List.take_nil,List.drop_nil,ih,List.map_cons]

theorem gather_eq (h : copied + iovs.flatten.length ≤ d.length) :
    d.gather copied iovs = some { d with data := copyIn d.data copied iovs.flatten } := by
  induction iovs generalizing d copied with
  | nil =>
    rw [List.flatten_nil,copyIn_nil]
    rfl
  | cons iov iovs ih =>
    rw [List.flatten_cons,List.length_append] at h
    rw [Datagram.gather,List.flatten_cons]
    split_ifs with hzero hfits
    · rw [List.eq_nil_of_length_eq_zero hzero,List.nil_append]
      exact ih (by omega)
    · rw [ih (by dsimp only; omega),copyIn_append]
    · omega

theorem construct_gather (self : Nat) (block : Block) (hsmall : iovs.flatten.length < 2 ^ 32) :
    ∃ d, (Datagram.construct block self ((iovs.map List.length).sum % 2 ^ 64)).gather 0 iovs = some d ∧
      d.sender = self ∧ d.bytes = iovs.flatten := by
  have hsum : (iovs.map List.length).sum % 2 ^ 64 = iovs.flatten.length := by
    rw [← List.length_flatten]
    exact Nat.mod_eq_of_lt (by omega)
  have hlength : (Datagram.construct block self iovs.flatten.length).length = iovs.flatten.length :=
    Nat.mod_eq_of_lt hsmall
  rw [hsum]
  refine ⟨_,gather_eq (by omega),rfl,?_⟩
  simp only [Datagram.bytes,hlength]
  exact copyOut_copyIn _ _ _

theorem bytes_length : d.bytes.length = d.length := copyOut_length _ _ _

theorem bytes_slice {n : Nat} (h : transferred + n ≤ d.length) :
    (d.bytes.drop transferred).take n = copyOut d.data transferred n := by
  rw [Datagram.bytes,copyOut_drop _ _ (by omega),Nat.zero_add,copyOut_take _ _ (by omega)]

theorem scatter_eq (h : transferred ≤ d.length) : d.scatter transferred lens =
    (lens.splitLengths (d.bytes.drop transferred),transferred + min lens.sum (d.length - transferred)) := by
  have hlt := d.length_lt
  induction lens generalizing transferred with
  | nil => simp [Datagram.scatter]
  | cons len lens ih =>
    have hleft : usub d.length transferred = d.length - transferred := usub_of_le (by omega) h
    rw [Datagram.scatter,List.splitLengths_cons,List.sum_cons,hleft]
    dsimp only
    split_ifs with hzero hshort
    · rw [ih h,hzero,Nat.zero_add]
      rfl
    · have hcount : min (d.length - transferred) len = d.length - transferred := by omega
      have hend : (d.bytes.drop transferred).length ≤ len := by
        rw [List.length_drop,bytes_length]
        omega
      rw [hcount,List.drop_eq_nil_of_le hend,splitLengths_of_nil,List.take_of_length_le hend,
        ← bytes_slice (by omega),List.take_of_length_le (by rw [List.length_drop,bytes_length])]
      congr 1
      omega
    · have hcount : min (d.length - transferred) len = len := by omega
      rw [hcount,ih (by omega),bytes_slice (by omega),List.drop_drop]
      congr 1
      omega

theorem scatter_delivers (d : Datagram) (lens : List Nat) : Delivered d.bytes
    ⟨lens,(d.scatter 0 lens).1,(d.scatter 0 lens).2,(d.scatter 0 lens).2 < d.length⟩ := by
  have hflat := flatten_splitLengths lens d.bytes
  have hlen : (d.bytes.take lens.sum).length = min lens.sum d.length := by
    rw [List.length_take,bytes_length]
  rw [scatter_eq (Nat.zero_le _)]
  simp only [Nat.zero_add,Nat.sub_zero,List.drop_zero]
  refine ⟨rfl,hflat,?_,?_,?_⟩
  · rw [hflat,hlen]
  · rw [hflat,List.take_eq_self_iff]
  · rw [decide_eq_true_iff,hflat,hlen,bytes_length]

end Layout

section Rings

variable {ring : Ring}

theorem newRing_count (data : Nat → Nat) : (newRing data).dataCount = 0 := by
  simp [newRing,RingBuffer.dataCount,usub]

theorem newRing_wrapping (data : Nat → Nat) : (newRing data).Wrapping where
  size_pos := by decide
  size_lt := by decide
  divides := by decide
  read_lt := Nat.two_pow_pos 64
  write_lt := Nat.two_pow_pos 64
  count_le := (newRing_count data).trans_le (Nat.zero_le 256)

theorem newRing_queue (data : Nat → Nat) : (newRing data).queue = [] := by
  rw [RingBuffer.queue,newRing_count]
  rfl

theorem write_one (hr : ring.Wrapping) (hfull : ring.isFull = false) (addr : Nat) :
    (ring.write [addr]).2 = 1 ∧ (ring.write [addr]).1.queue = ring.queue ++ [addr] ∧
      (ring.write [addr]).1.Wrapping := by
  obtain ⟨hret,hq,hw⟩ := hr.write_spec [addr]
  have hle := hr.count_le
  have hne : ring.dataCount ≠ 256 := of_decide_eq_false hfull
  have hone : (ring.write [addr]).2 = 1 := by
    rw [hret,List.length_singleton]
    omega
  refine ⟨hone,?_,hw⟩
  rw [hq,hone]
  rfl

theorem read_one (hr : ring.Wrapping) (hempty : ¬ring.isEmpty = true) :
    ∃ addr as, ring.queue = addr :: as ∧ (ring.read 1).2 = [addr] ∧
      (ring.read 1).1.queue = as ∧ (ring.read 1).1.Wrapping := by
  obtain ⟨hret,hq,hw⟩ := hr.read_spec 1
  cases hqueue : ring.queue with
  | nil => exact absurd (RingBuffer.isEmpty_iff_queue.mpr hqueue) hempty
  | cons addr as =>
    rw [hqueue] at hret hq
    exact ⟨addr,as,rfl,hret,hq,hw⟩

end Rings

def Waiting.Alive (s : Sockets) : Waiting → Prop
  | .send self target iovs =>
    (s.socks self).isSome ∧ (s.socks target).isSome ∧ iovs.flatten.length < 2 ^ 32
  | .recv self _ => (s.socks self).isSome

structure Wired (s : Sockets) : Prop where
  names : ∀ path self, s.names path = some (.datagram self) → (s.socks self).isSome
  connected : ∀ self sock target, s.socks self = some sock → sock.connected = some target →
    (s.socks target).isSome
  waiting : ∀ w ∈ s.waiting, w.Alive s
  senders : ∀ addr d, s.heap addr = some d → (s.socks d.sender).isSome
  rings : ∀ self sock, s.socks self = some sock → sock.ringBuffer.Wrapping

def Sockets.boxes (s : Sockets) : Boxes Nat Nat (List UInt8) :=
  ⟨s.queue,fun addr => (s.heap addr).map Datagram.bytes⟩

structure Flow (s : Sockets) : Prop where
  wired : Wired s
  mail : ∃ rest, s.boxes.Refines rest ∧
    ∀ self, ∃ done, s.sent self = done ++ rest self ∧ List.Forall₂ Delivered done (s.got self)

variable {s s' : Sockets} {self addr : Nat} {sock : Sock} {ring : Ring} {d : Datagram}

section Accessors

theorem setSock_self (s : Sockets) (self : Nat) (sock : Sock) :
    ((s.setSock self sock).socks self).isSome := by
  simp [Sockets.setSock]

theorem setSock_isSome {i : Nat} (h : (s.socks i).isSome) :
    ((s.setSock self sock).socks i).isSome := by
  rcases eq_or_ne i self with rfl | hi
  · exact setSock_self s i sock
  · simpa only [Sockets.setSock,Function.update_of_ne hi] using h

theorem setSock_queue (s : Sockets) (self : Nat) (sock : Sock) :
    (s.setSock self sock).queue = Function.update s.queue self sock.ringBuffer.queue := by
  funext i
  rcases eq_or_ne i self with rfl | hi
  · simp [Sockets.setSock,Sockets.queue]
  · simp [Sockets.setSock,Sockets.queue,Function.update_of_ne hi]

theorem queue_eq (h : s.socks self = some sock) : s.queue self = sock.ringBuffer.queue := by
  simp [Sockets.queue,h]

theorem queue_none (h : s.socks self = none) : s.queue self = [] := by
  simp [Sockets.queue,h]

theorem setSock_swap {self' : Nat} {sock' : Sock} (first : Sock) (h : self ≠ self') :
    (s.setSock self sock).setSock self' sock' =
      ((s.setSock self first).setSock self' sock').setSock self sock := by
  simp only [Sockets.setSock,Function.update_comm h,Function.update_idem]

end Accessors

theorem Wired.setSock (h : Wired s) (hr : sock.ringBuffer.Wrapping)
    (hc : ∀ target, sock.connected = some target → ((s.setSock self sock).socks target).isSome) :
    Wired (s.setSock self sock) := by
  have hcases : ∀ i k, (s.setSock self sock).socks i = some k → k = sock ∨ s.socks i = some k := by
    intro i k hk
    rcases eq_or_ne i self with rfl | hi
    · simp only [Sockets.setSock,Function.update_self] at hk
      exact .inl (Option.some.inj hk).symm
    · exact .inr (by simpa only [Sockets.setSock,Function.update_of_ne hi] using hk)
  refine ⟨fun path i hn => setSock_isSome (h.names path i hn),?_,?_,?_,?_⟩
  · intro i k target hk ht
    rcases hcases i k hk with rfl | hold
    · exact hc target ht
    · exact setSock_isSome (h.connected i k target hold ht)
  · intro w hw
    have halive := h.waiting w hw
    cases w with
    | send i target iovs =>
      exact ⟨setSock_isSome halive.1,setSock_isSome halive.2.1,halive.2.2⟩
    | recv i lens => exact setSock_isSome halive
  · intro addr d hd
    exact setSock_isSome (h.senders addr d hd)
  · intro i k hk
    rcases hcases i k hk with rfl | hold
    · exact hr
    · exact h.rings i k hold

theorem Wired.setHeap {o : Option Datagram} (h : Wired s)
    (ho : ∀ d, o = some d → (s.socks d.sender).isSome) : Wired (s.setHeap addr o) := by
  refine ⟨h.names,h.connected,h.waiting,?_,h.rings⟩
  intro a d hd
  rcases eq_or_ne a addr with rfl | ha
  · simp only [Sockets.setHeap,Function.update_self] at hd
    exact ho d hd
  · simp only [Sockets.setHeap,Function.update_of_ne ha] at hd
    exact h.senders a d hd

theorem Flow.setSock (h : Flow s) (hr : sock.ringBuffer.Wrapping)
    (hq : sock.ringBuffer.queue = s.queue self)
    (hc : ∀ target, sock.connected = some target → ((s.setSock self sock).socks target).isSome) :
    Flow (s.setSock self sock) := by
  obtain ⟨rest,hrefines,hsent⟩ := h.mail
  have hboxes : (s.setSock self sock).boxes = s.boxes := by
    rw [Sockets.boxes,setSock_queue,hq,Function.update_eq_self]
    rfl
  exact ⟨h.wired.setSock hr hc,rest,hboxes ▸ hrefines,hsent⟩

theorem setHeap_messages {o : Option Datagram} :
    (fun a => ((s.setHeap addr o).heap a).map Datagram.bytes) =
      Function.update (fun a => (s.heap a).map Datagram.bytes) addr (o.map Datagram.bytes) :=
  Function.comp_update (Option.map Datagram.bytes) s.heap addr o

theorem Flow.sent (h : Flow s) (hsock : s.socks self = some sock) (ha : s.heap addr = none)
    (hd : (s.socks d.sender).isSome) (hr : ring.Wrapping)
    (hq : ring.queue = sock.ringBuffer.queue ++ [addr]) :
    Flow (((s.setHeap addr (some d)).setSock self { sock with ringBuffer := ring }).addSent
      self d.bytes) := by
  obtain ⟨rest,hrefines,hsent⟩ := h.mail
  have hheap : Wired (s.setHeap addr (some d)) := h.wired.setHeap fun k hk => by
    cases hk
    exact hd
  have hwired : Wired ((s.setHeap addr (some d)).setSock self { sock with ringBuffer := ring }) :=
    hheap.setSock hr fun target ht => setSock_isSome (h.wired.connected self sock target hsock ht)
  have hboxes : ((s.setHeap addr (some d)).setSock self { sock with ringBuffer := ring }).boxes =
      s.boxes.post self addr d.bytes := by
    rw [Sockets.boxes,setSock_queue,hq,← queue_eq hsock]
    exact congrArg (Boxes.mk _) setHeap_messages
  refine ⟨⟨hwired.names,hwired.connected,hwired.waiting,hwired.senders,hwired.rings⟩,
    Function.update rest self (rest self ++ [d.bytes]),?_,fun i => ?_⟩
  · have hfree : s.boxes.heap addr = none := by
      simp only [Sockets.boxes,ha,Option.map_none]
    have hpost := hrefines.post (i := self) (m := d.bytes) hfree
    rw [← hboxes] at hpost
    exact hpost
  · obtain ⟨done,hs,hdone⟩ := hsent i
    refine ⟨done,?_,hdone⟩
    rcases eq_or_ne i self with rfl | hi
    · show Function.update s.sent i (s.sent i ++ [d.bytes]) i = _
      rw [Function.update_self,Function.update_self,hs,List.append_assoc]
    · show Function.update s.sent self (s.sent self ++ [d.bytes]) i = _
      rw [Function.update_of_ne hi,Function.update_of_ne hi,hs]

theorem Flow.got {as : List Nat} {r : Received} (h : Flow s) (hsock : s.socks self = some sock)
    (hqueue : sock.ringBuffer.queue = addr :: as) (hr : ring.Wrapping) (hq : ring.queue = as)
    (hd : ∀ d, s.heap addr = some d → Delivered d.bytes r) :
    Flow (((s.setHeap addr none).setSock self { sock with ringBuffer := ring }).addGot self r) := by
  obtain ⟨rest,hrefines,hsent⟩ := h.mail
  have hheap : Wired (s.setHeap addr none) := h.wired.setHeap (by nofun)
  have hwired : Wired ((s.setHeap addr none).setSock self { sock with ringBuffer := ring }) :=
    hheap.setSock hr fun target ht => setSock_isSome (h.wired.connected self sock target hsock ht)
  have hbox : s.boxes.queue self = addr :: as := (queue_eq hsock).trans hqueue
  have hboxes : ((s.setHeap addr none).setSock self { sock with ringBuffer := ring }).boxes =
      s.boxes.take self addr := by
    rw [Sockets.boxes,setSock_queue,hq,Boxes.take,hbox,List.tail_cons]
    exact congrArg (Boxes.mk _) setHeap_messages
  obtain ⟨m,ms,hms,hm,htake⟩ := hrefines.take hbox
  obtain ⟨k,hk,rfl⟩ := Option.map_eq_some_iff.mp hm
  refine ⟨⟨hwired.names,hwired.connected,hwired.waiting,hwired.senders,hwired.rings⟩,
    Function.update rest self ms,?_,fun i => ?_⟩
  · rw [← hboxes] at htake
    exact htake
  · obtain ⟨done,hs,hdone⟩ := hsent i
    rcases eq_or_ne i self with rfl | hi
    · refine ⟨done ++ [k.bytes],?_,?_⟩
      · rw [Function.update_self,List.append_assoc]
        exact hs.trans (congrArg (done ++ ·) hms)
      · show List.Forall₂ Delivered _ (Function.update s.got i (s.got i ++ [r]) i)
        rw [Function.update_self]
        exact List.rel_append hdone (.cons (hd k hk) .nil)
    · refine ⟨done,?_,?_⟩
      · rw [Function.update_of_ne hi]
        exact hs
      · show List.Forall₂ Delivered _ (Function.update s.got self (s.got self ++ [r]) i)
        rw [Function.update_of_ne hi]
        exact hdone

def Keeps (s : Sockets) : Outcome → Prop
  | .returned s' _ => Flow s'
  | .blocked w => w.Alive s
  | .crashed => False
  | .panicked => False

variable {target : Nat} {iovs : List (List UInt8)} {lens : List Nat} {nonblock : Bool} {block : Block}

theorem sendReady_keeps (h : Flow s) (hself : (s.socks self).isSome)
    (htarget : (s.socks target).isSome) (hsmall : iovs.flatten.length < 2 ^ 32)
    (hblock : s.heap block.addr = none) :
    Keeps s (s.sendReady self target iovs nonblock block) := by
  obtain ⟨sock,hsock⟩ := Option.isSome_iff_exists.mp htarget
  have hr := h.wired.rings target sock hsock
  simp only [Sockets.sendReady,hsock]
  cases hfull : sock.ringBuffer.isFull with
  | true =>
    cases nonblock with
    | true => exact h
    | false => exact ⟨hself,htarget,hsmall⟩
  | false =>
    obtain ⟨d,hd,rfl,hbytes⟩ := construct_gather self block hsmall
    obtain ⟨hone,hq,hw⟩ := write_one hr hfull block.addr
    simp only [hd,hone,if_true,← hbytes]
    exact h.sent hsock hblock hself hw hq

theorem recvReady_keeps (h : Flow s) (hself : (s.socks self).isSome) :
    Keeps s (s.recvReady self lens nonblock) := by
  obtain ⟨sock,hsock⟩ := Option.isSome_iff_exists.mp hself
  have hr := h.wired.rings self sock hsock
  simp only [Sockets.recvReady,hsock]
  split_ifs with hempty hn
  · exact h
  · exact hself
  · obtain ⟨addr,as,hqueue,hread,hq,hw⟩ := read_one hr hempty
    obtain ⟨rest,hrefines,-⟩ := h.mail
    have hbox : s.boxes.queue self = addr :: as := (queue_eq hsock).trans hqueue
    obtain ⟨m,ms,-,hm,-⟩ := hrefines.take hbox
    obtain ⟨d,hd,-⟩ := Option.map_eq_some_iff.mp hm
    simp only [hread,hd,h.wired.senders addr d hd,if_true]
    refine h.got hsock hqueue hw hq fun k hk => ?_
    rw [hd] at hk
    cases hk
    exact scatter_delivers d lens

theorem target_ok {addr : Address} (h : Wired s) (ht : s.target addr = .ok target) :
    (s.socks target).isSome := by
  unfold Sockets.target at ht
  split_ifs at ht
  cases hn : s.names addr.path with
  | none =>
    rw [hn] at ht
    cases ht
  | some v =>
    rw [hn] at ht
    cases v with
    | node => cases ht
    | socket => cases ht
    | datagram i =>
      cases ht
      exact h.names addr.path target hn

theorem start_keeps {c : Call} (nonblock : Bool) (h : Flow s) (hsmall : c.small)
    (hblock : s.heap block.addr = none) : Keeps s (s.start c nonblock block) := by
  cases c with
  | send self addr iovs =>
    simp only [Sockets.start,Sockets.sendmsg]
    cases hsock : s.socks self with
    | none => exact h
    | some sock =>
      have hself : (s.socks self).isSome := Option.isSome_of_eq_some hsock
      dsimp only
      cases hc : sock.connected with
      | some target =>
        exact sendReady_keeps h hself (h.wired.connected self sock target hsock hc) hsmall hblock
      | none =>
        cases addr with
        | none => exact h
        | some addr =>
          dsimp only
          cases ht : s.target addr with
          | error e => exact h
          | ok target => exact sendReady_keeps h hself (target_ok h.wired ht) hsmall hblock
  | recv self lens =>
    simp only [Sockets.start,Sockets.recvmsg]
    cases hsock : s.socks self with
    | none => exact h
    | some sock => exact recvReady_keeps h (Option.isSome_of_eq_some hsock)

theorem resume_keeps {w : Waiting} (nonblock : Bool) (h : Flow s) (hw : w ∈ s.waiting)
    (hblock : s.heap block.addr = none) : Keeps s (s.resume w nonblock block) := by
  have halive := h.wired.waiting w hw
  cases w with
  | send self target iovs => exact sendReady_keeps h halive.1 halive.2.1 halive.2.2 hblock
  | recv self lens => exact recvReady_keeps h halive

theorem Flow.setWaiting {ws : List Waiting} (h : Flow s) (hws : ∀ w ∈ ws, w.Alive s) :
    Flow { s with waiting := ws } := by
  refine ⟨⟨h.wired.names,h.wired.connected,fun w hw => ?_,h.wired.senders,h.wired.rings⟩,h.mail⟩
  have halive := hws w hw
  cases w with
  | send self target iovs => exact halive
  | recv self lens => exact halive

theorem Flow.erase (h : Flow s) (w : Waiting) : Flow { s with waiting := s.waiting.erase w } :=
  h.setWaiting fun w' hw' => h.wired.waiting w' (List.mem_of_mem_erase hw')

theorem Flow.create {data : Nat → Nat} {connected : Option Nat} (h : Flow s)
    (hself : s.queue self = [])
    (hc : ∀ target, connected = some target →
      ((s.setSock self ⟨newRing data,connected⟩).socks target).isSome) :
    Flow (s.setSock self ⟨newRing data,connected⟩) :=
  h.setSock (newRing_wrapping data) ((newRing_queue data).trans hself.symm) hc

theorem Flow.pair {self' : Nat} {data data' : Nat → Nat} (h : Flow s) (hself : s.socks self = none)
    (hself' : s.socks self' = none) (hne : self ≠ self') :
    Flow ((s.setSock self ⟨newRing data,some self'⟩).setSock self' ⟨newRing data',some self⟩) := by
  have hfirst : Flow (s.setSock self ⟨newRing data,none⟩) := h.create (queue_none hself) (by nofun)
  have hsecond : Flow ((s.setSock self ⟨newRing data,none⟩).setSock self' ⟨newRing data',some self⟩) := by
    refine hfirst.create ?_ ?_
    · rw [setSock_queue,Function.update_of_ne (Ne.symm hne),queue_none hself']
    · intro target ht
      cases ht
      exact setSock_isSome (setSock_self _ _ _)
  rw [setSock_swap ⟨newRing data,none⟩ hne]
  refine hsecond.create ?_ ?_
  · rw [setSock_queue,Function.update_of_ne hne,setSock_queue,Function.update_self,newRing_queue]
  · intro target ht
    cases ht
    exact setSock_isSome (setSock_self _ _ _)

theorem Flow.connect (h : Flow s) (self : Nat) (addr : Address) : Flow (s.connect self addr).1 := by
  unfold Sockets.connect
  cases hsock : s.socks self with
  | none => exact h
  | some sock =>
    cases ht : s.target addr with
    | error e => exact h
    | ok target =>
      refine h.setSock (h.wired.rings self sock hsock) (queue_eq hsock).symm fun i hi => ?_
      cases hi
      exact setSock_isSome (target_ok h.wired ht)

theorem Flow.step (h : Flow s) (hstep : Step s s') : Flow s' := by
  cases hstep with
  | socket hself => exact h.create (queue_none hself) (by nofun)
  | socketpair hself hself' hne => exact h.pair hself hself' hne
  | connect => exact h.connect _ _
  | files hnames =>
    exact ⟨⟨hnames,h.wired.connected,h.wired.waiting,h.wired.senders,h.wired.rings⟩,h.mail⟩
  | @returns _ _ nonblock _ _ hsmall hblock hret =>
    have hkeeps := start_keeps nonblock h hsmall hblock
    rw [hret] at hkeeps
    exact hkeeps
  | @blocks _ nonblock _ _ hsmall hblock hret =>
    have hkeeps := start_keeps nonblock h hsmall hblock
    rw [hret] at hkeeps
    exact h.setWaiting (List.forall_mem_cons.mpr ⟨hkeeps,h.wired.waiting⟩)
  | @wakes _ _ nonblock _ _ hw hblock hret =>
    have hkeeps := resume_keeps nonblock h hw hblock
    rw [hret] at hkeeps
    exact hkeeps.erase _
  | interrupted hw => exact h.erase _

theorem boot_flow : Flow .boot :=
  ⟨⟨nofun,nofun,nofun,nofun,nofun⟩,fun _ => [],Boxes.Refines.empty _,fun _ => ⟨[],rfl,.nil⟩⟩

theorem flow_run (hrun : ReflTransGen Step .boot s) : Flow s := by
  induction hrun with
  | refl => exact boot_flow
  | tail _ hstep ih => exact ih.step hstep

def Sockets.Ordered (s : Sockets) : Prop :=
  ∀ self (i : Nat) r, (s.got self)[i]? = some r →
    ∃ datagram, (s.sent self)[i]? = some datagram ∧ Delivered datagram r

theorem Flow.ordered (h : Flow s) : s.Ordered := by
  intro self i r hr
  obtain ⟨rest,-,hsent⟩ := h.mail
  obtain ⟨done,hs,hdone⟩ := hsent self
  rw [hs]
  exact delivered_at hdone hr

def Outcome.Fails (o : Outcome) : Prop := o = .crashed ∨ o = .panicked

theorem Keeps.not_fails {o : Outcome} (h : Keeps s o) : ¬o.Fails := by
  rintro (rfl | rfl)
  · exact h
  · exact h

theorem datagrams_delivered (hrun : ReflTransGen Step .boot s) :
    s.Ordered ∧ ∀ nonblock block, s.heap block.addr = none →
      (∀ c : Call, c.small → ¬(s.start c nonblock block).Fails) ∧
        ∀ w ∈ s.waiting, ¬(s.resume w nonblock block).Fails := by
  have hflow := flow_run hrun
  refine ⟨hflow.ordered,fun nonblock block hblock => ⟨fun c hsmall => ?_,fun w hw => ?_⟩⟩
  · exact (start_keeps nonblock hflow hsmall hblock).not_fails
  · exact (resume_keeps nonblock hflow hw hblock).not_fails

def Outcome.sockets? : Outcome → Option Sockets
  | .returned s _ => some s
  | .blocked _ => none
  | .crashed => none
  | .panicked => none

theorem Step.of_sockets? {c : Call} (hsmall : c.small) (hblock : s.heap block.addr = none)
    (h : (s.start c nonblock block).sockets? = some s') : Step s s' := by
  cases ho : s.start c nonblock block with
  | returned s₁ ret =>
    rw [ho] at h
    cases h
    exact .returns hsmall hblock ho
  | blocked w =>
    rw [ho] at h
    cases h
  | crashed =>
    rw [ho] at h
    cases h
  | panicked =>
    rw [ho] at h
    cases h

def paired : Sockets :=
  (Sockets.boot.setSock 0 ⟨newRing fun _ => 0,some 1⟩).setSock 1 ⟨newRing fun _ => 0,some 0⟩

def sentOne : Sockets :=
  ((paired.start (.send 0 none [[1],[],[2,3]]) false ⟨16,fun _ => 0⟩).sockets?).get (by decide +kernel)

def gotOne : Sockets :=
  ((sentOne.start (.recv 1 [0,1,1]) false ⟨32,fun _ => 0⟩).sockets?).get (by decide +kernel)

theorem datagrams_delivered_one : ReflTransGen Step .boot gotOne ∧
    gotOne.got 1 = [⟨[0,1,1],[[],[1],[2]],2,true⟩] ∧ gotOne.Ordered := by
  have hpaired : Step .boot paired := .socketpair rfl rfl (by decide)
  have hsent : Step paired sentOne :=
    .of_sockets? (c := .send 0 none [[1],[],[2,3]]) (show 3 < 2 ^ 32 by decide) rfl (Option.some_get (by decide +kernel)).symm
  have hgot : Step sentOne gotOne :=
    .of_sockets? (c := .recv 1 [0,1,1]) (show 2 < 2 ^ 32 by decide) rfl
      (Option.some_get (by decide +kernel)).symm
  have hrun := ((ReflTransGen.single hpaired).tail hsent).tail hgot
  exact ⟨hrun,by decide +kernel,(datagrams_delivered hrun).1⟩

end SabaOS.Userland.LocalDatagram
