import SabaOS.Lib.Tracking
import SabaOS.Net.Ipv4

namespace SabaOS.Net

open SabaOS.Lib

def portAllocRangeStart : Nat := 32768

def portAllocRangeEnd : Nat := 60999

def ebadf : Int := 9

def einval : Int := 22

def edestaddrreq : Int := 89

def eafnosupport : Int := 97

def eaddrinuse : Int := 98

def afInet : UInt16 := 2

def bswap32 (x : UInt32) : UInt32 :=
  (x >>> 24) ||| ((x >>> 8) &&& (0xff00 : UInt32)) ||| ((x <<< 8) &&& (0xff0000 : UInt32)) ||| (x <<< 24)

structure SockaddrIn where
  sinFamily : UInt16
  sinPort : UInt16
  sinAddr : UInt32
deriving DecidableEq, Repr

structure InternetAddress where
  ip : Ipv4 := 0
  port : UInt16 := 0
deriving DecidableEq, Repr

def InternetAddress.fromSockaddr (addr : SockaddrIn) : InternetAddress where
  ip := bswap32 addr.sinAddr
  port := bswap16 addr.sinPort

structure UdpSocket where
  boundAddress : InternetAddress := {}
  connectedAddress : InternetAddress := {}
  hasPort : Bool := false
  isConnected : Bool := false
deriving DecidableEq, Repr

def UdpSocket.withPort (socket : UdpSocket) (port : UInt16) : UdpSocket :=
  { socket with boundAddress := { socket.boundAddress with port := port }, hasPort := true }

def UdpSocket.rebound (socket : UdpSocket) (addr : SockaddrIn) (port : UInt16) : UdpSocket :=
  { socket with boundAddress := .fromSockaddr addr }.withPort port

-- `sockets` has the objects that are constructed, by address.
structure Udp where
  portTable : UInt16 → Option Nat
  sockets : Nat → Option UdpSocket

namespace Udp

def boot : Udp := ⟨fun _ => none,fun _ => none⟩

def setPort (u : Udp) (port : UInt16) (socket : Option Nat) : Udp :=
  { u with portTable := Function.update u.portTable port socket }

def setSocket (u : Udp) (self : Nat) (socket : Option UdpSocket) : Udp :=
  { u with sockets := Function.update u.sockets self socket }

-- `PORT_ALLOC_RANGE_END` itself is not tried.
def findPort (u : Udp) : Option Nat :=
  (List.range' portAllocRangeStart (portAllocRangeEnd - portAllocRangeStart)).find? fun i =>
    (u.portTable i.toUInt16).isNone

def allocPort (u : Udp) (self : Nat) (chosen : UInt16) : Udp × Except Int UInt16 :=
  let chosen := if chosen = 0 then (u.findPort.map Nat.toUInt16).getD chosen else chosen
  if u.portTable chosen ≠ none then (u,.error (-eaddrinuse))
  else (u.setPort chosen (some self),.ok chosen)

def freePort (u : Udp) (self : Nat) (socket : UdpSocket) : Udp :=
  if socket.hasPort then
    let u := u.setPort socket.boundAddress.port none
    u.setSocket self (some { socket with
      boundAddress := { socket.boundAddress with port := 0 }, hasPort := false })
  else u.setSocket self (some socket)

def takePort (u : Udp) (self : Nat) (port : UInt16) : Udp :=
  { u with sockets := Function.update u.sockets self ((u.sockets self).map fun socket =>
      { socket with boundAddress := { socket.boundAddress with port := port }, hasPort := true }) }

def bind (u : Udp) (self : Nat) (socket : UdpSocket) (addr : SockaddrIn) : Udp × Int :=
  match u.allocPort self (bswap16 addr.sinPort) with
  | (u,.error ret) => (u,ret)
  | (u,.ok ret) =>
    let socket := { socket with boundAddress := .fromSockaddr addr }
    ((u.freePort self socket).takePort self ret,0)

def connect (u : Udp) (self : Nat) (socket : UdpSocket) (addr : SockaddrIn) : Udp × Int :=
  (u.setSocket self (some { socket with connectedAddress := .fromSockaddr addr, isConnected := true }),0)

def sendmsg (u : Udp) (self : Nat) (socket : UdpSocket) (msgName : Option SockaddrIn) (sent : Int) :
    Udp × Int :=
  let send (u : Udp) : Udp × Int :=
    if msgName.isNone ∧ ¬socket.isConnected then (u,-edestaddrreq) else (u,sent)
  if socket.hasPort then send u
  else match u.allocPort self 0 with
    | (u,.error ret) => (u,ret)
    | (u,.ok ret) => send (u.takePort self ret)

inductive Op
  | socket (self : Nat)
  | bind (self : Nat) (addr : SockaddrIn)
  | connect (self : Nat) (addr : SockaddrIn)
  | sendmsg (self : Nat) (msgName : Option SockaddrIn) (sent : Int)
  | destroy (self : Nat)
deriving DecidableEq, Repr

def next (u : Udp) : Op → Udp × Int
  | .socket self => match u.sockets self with
    | some _ => (u,-ebadf)
    | none => (u.setSocket self (some {}),0)
  | .bind self addr => match u.sockets self with
    | none => (u,-ebadf)
    | some socket => if addr.sinFamily ≠ afInet then (u,-einval) else u.bind self socket addr
  | .connect self addr => match u.sockets self with
    | none => (u,-ebadf)
    | some socket =>
      if addr.sinFamily ≠ afInet then (u,-eafnosupport) else u.connect self socket addr
  | .sendmsg self msgName sent => match u.sockets self with
    | none => (u,-ebadf)
    | some socket => u.sendmsg self socket msgName sent
  | .destroy self => match u.sockets self with
    | none => (u,-ebadf)
    | some _ => (u.setSocket self none,0)

def Steps (u : Udp) (op : Op) (u' : Udp) : Prop := (u.next op).1 = u'

def Consistent (u : Udp) : Prop :=
  ∀ p self, u.portTable p = some self ↔
    ∃ socket, u.sockets self = some socket ∧ socket.hasPort ∧ socket.boundAddress.port = p

def HasFree (u : Udp) : Prop :=
  ∃ p : UInt16, portAllocRangeStart ≤ p.toNat ∧ p.toNat < portAllocRangeEnd ∧ u.portTable p = none

section AllocPort

variable {u : Udp} (self : Nat) {chosen : UInt16}

theorem findPort_some {i : Nat} (h : u.findPort = some i) :
    portAllocRangeStart ≤ i.toUInt16.toNat ∧ i.toUInt16.toNat < portAllocRangeEnd ∧
      u.portTable i.toUInt16 = none := by
  have hfree := List.find?_some h
  obtain ⟨hge,hlt⟩ := List.mem_range'_1.mp (List.mem_of_find?_eq_some h)
  have hi : i.toUInt16.toNat = i := by
    rw [Nat.toUInt16_eq,UInt16.toNat_ofNat_of_lt']
    simp only [portAllocRangeStart,portAllocRangeEnd,UInt16.size] at *
    omega
  rw [hi]
  refine ⟨hge,?_,Option.isNone_iff_eq_none.mp hfree⟩
  simp only [portAllocRangeStart,portAllocRangeEnd] at *
  omega

theorem findPort_none (h : u.findPort = none) : ¬u.HasFree := by
  rintro ⟨p,hge,hlt,hp⟩
  have hmem : p.toNat ∈ List.range' portAllocRangeStart (portAllocRangeEnd - portAllocRangeStart) := by
    refine List.mem_range'_1.mpr ⟨hge,?_⟩
    simp only [portAllocRangeStart,portAllocRangeEnd] at *
    omega
  have htaken := List.find?_eq_none.mp h p.toNat hmem
  rw [Nat.toUInt16_eq,UInt16.ofNat_toNat,hp] at htaken
  exact htaken rfl

theorem allocPort_chosen (hc : chosen ≠ 0) : u.allocPort self chosen =
    if u.portTable chosen ≠ none then (u,.error (-eaddrinuse))
    else (u.setPort chosen (some self),.ok chosen) := by
  rw [allocPort,if_neg hc]

theorem allocPort_free (hfree : u.HasFree) : ∃ port : UInt16,
    portAllocRangeStart ≤ port.toNat ∧ port.toNat < portAllocRangeEnd ∧ u.portTable port = none ∧
      u.allocPort self 0 = (u.setPort port (some self),.ok port) := by
  cases h : u.findPort with
  | none => exact absurd hfree (findPort_none h)
  | some i =>
    obtain ⟨hge,hlt,hnone⟩ := findPort_some h
    refine ⟨i.toUInt16,hge,hlt,hnone,?_⟩
    rw [allocPort,if_pos rfl,h,Option.map_some,Option.getD_some,if_neg (not_not_intro hnone)]

theorem allocPort_full (hfull : ¬u.HasFree) (h0 : u.portTable 0 = none) :
    u.allocPort self 0 = (u.setPort 0 (some self),.ok 0) := by
  cases h : u.findPort with
  | none => rw [allocPort,if_pos rfl,h,Option.map_none,Option.getD_none,if_neg (not_not_intro h0)]
  | some i => exact absurd ⟨_,findPort_some h⟩ hfull

end AllocPort

section Table

variable {u : Udp} {self : Nat} {socket : UdpSocket} {port : UInt16}

@[simp] theorem setSocket_sockets (new : Option UdpSocket) :
    (u.setSocket self new).sockets = Function.update u.sockets self new := rfl

@[simp] theorem setSocket_portTable (new : Option UdpSocket) :
    (u.setSocket self new).portTable = u.portTable := rfl

@[simp] theorem setPort_sockets (new : Option Nat) : (u.setPort port new).sockets = u.sockets := rfl

@[simp] theorem setPort_portTable (new : Option Nat) :
    (u.setPort port new).portTable = Function.update u.portTable port new := rfl

theorem takePort_eq (hs : u.sockets self = some socket) :
    u.takePort self port = u.setSocket self (some (socket.withPort port)) := by
  rw [takePort,hs]
  rfl

theorem setSocket_setSocket (first last : Option UdpSocket) :
    (u.setSocket self first).setSocket self last = u.setSocket self last := by
  simp only [setSocket,Function.update_idem]

namespace Consistent

variable (hc : u.Consistent)

include hc

theorem entry (hs : u.sockets self = some socket) (hp : socket.hasPort) :
    u.portTable socket.boundAddress.port = some self :=
  (hc _ _).mpr ⟨socket,hs,hp,rfl⟩

theorem no_entry (hs : u.sockets self = some socket) (hp : ¬socket.hasPort) (p : UInt16) :
    u.portTable p ≠ some self := by
  intro h
  obtain ⟨socket',hs',hp',-⟩ := (hc p self).mp h
  obtain rfl := Option.some.inj (hs.symm.trans hs')
  exact hp hp'

theorem no_entry_dead (hs : u.sockets self = none) (p : UInt16) : u.portTable p ≠ some self := by
  intro h
  obtain ⟨socket',hs',-⟩ := (hc p self).mp h
  cases hs.symm.trans hs'

theorem setSocket {new : Option UdpSocket} (hno : ∀ p, u.portTable p ≠ some self)
    (hnew : ∀ socket, new = some socket → ¬socket.hasPort) : (u.setSocket self new).Consistent := by
  intro p other
  rw [setSocket_portTable,setSocket_sockets]
  rcases eq_or_ne other self with rfl | hne
  · rw [Function.update_self]
    constructor
    · exact fun h => absurd h (hno p)
    · rintro ⟨socket',rfl,hp,-⟩
      exact absurd hp (hnew socket' rfl)
  · rw [Function.update_of_ne hne]
    exact hc p other

theorem install {new : UdpSocket} (hno : ∀ p, u.portTable p ≠ some self)
    (hport : u.portTable port = none) (hp : new.hasPort) (hnew : new.boundAddress.port = port) :
    ((u.setPort port (some self)).setSocket self (some new)).Consistent := by
  intro p other
  rw [setSocket_portTable,setPort_portTable,setSocket_sockets,setPort_sockets]
  rcases eq_or_ne other self with rfl | hne
  · rw [Function.update_self]
    rcases eq_or_ne p port with rfl | hpne
    · rw [Function.update_self]
      exact ⟨fun _ => ⟨new,rfl,hp,hnew⟩,fun _ => rfl⟩
    · rw [Function.update_of_ne hpne]
      constructor
      · exact fun h => absurd h (hno p)
      · rintro ⟨socket',hs',-,hport'⟩
        obtain rfl := Option.some.inj hs'
        exact absurd (hport'.symm.trans hnew) hpne
  · rw [Function.update_of_ne hne]
    rcases eq_or_ne p port with rfl | hpne
    · rw [Function.update_self]
      constructor
      · exact fun h => absurd (Option.some.inj h).symm hne
      · intro h
        cases hport.symm.trans ((hc p other).mpr h)
    · rw [Function.update_of_ne hpne]
      exact hc p other

theorem keep {new : UdpSocket} (hs : u.sockets self = some socket)
    (hp : new.hasPort = socket.hasPort) (hport : new.boundAddress.port = socket.boundAddress.port) :
    (u.setSocket self (some new)).Consistent := by
  intro p other
  rw [setSocket_portTable,setSocket_sockets,hc p other]
  rcases eq_or_ne other self with rfl | hne
  · rw [Function.update_self,hs]
    constructor
    · rintro ⟨socket',hs',h⟩
      obtain rfl := Option.some.inj hs'
      exact ⟨new,rfl,by rw [hp]; exact h.1,by rw [hport]; exact h.2⟩
    · rintro ⟨new',hnew',h⟩
      obtain rfl := Option.some.inj hnew'
      exact ⟨socket,rfl,by rw [← hp]; exact h.1,by rw [← hport]; exact h.2⟩
  · rw [Function.update_of_ne hne]

end Consistent

end Table

def Exhausted (u : Udp) : Prop :=
  ∀ p : UInt16, portAllocRangeStart ≤ p.toNat → p.toNat ≤ portAllocRangeEnd → u.portTable p ≠ none

def Chooses (u : Udp) (self : Nat) : Op → Prop
  | .bind other addr => other = self ∧ (u.sockets self).isSome ∧ addr.sinFamily = afInet ∧
      bswap16 addr.sinPort = 0
  | .sendmsg other _ _ => other = self ∧ ∃ socket, u.sockets self = some socket ∧ ¬socket.hasPort
  | _ => False

structure Good (u : Udp) (op : Op) (u' : Udp) : Prop where
  table : u'.Consistent
  range : ∀ self, u.Chooses self op → u.next op ≠ (u,-eaddrinuse) →
    ∃ socket, u'.sockets self = some socket ∧ socket.hasPort ∧
      portAllocRangeStart ≤ socket.boundAddress.port.toNat ∧
      socket.boundAddress.port.toNat ≤ portAllocRangeEnd
  exhausted : ∀ self, u.Chooses self op → u.Exhausted → u.next op = (u,-eaddrinuse)
  failed : ∀ self addr, op = .bind self addr → (u.next op).2 < 0 → u' = u

def BindSafe (u : Udp) (socket : UdpSocket) (port : UInt16) : Prop :=
  port ≠ 0 ∧ u.portTable port ≠ none ∨ ¬socket.hasPort ∧ (port = 0 → u.HasFree)

def Safe (u : Udp) (op : Op) (_ : Udp) : Prop :=
  match op with
  | .bind self addr => ∀ socket, u.sockets self = some socket → addr.sinFamily = afInet →
      u.BindSafe socket (bswap16 addr.sinPort)
  | .sendmsg self _ _ => ∀ socket, u.sockets self = some socket → socket.hasPort ∨ u.HasFree
  | .destroy self => ∀ socket, u.sockets self = some socket → ¬socket.hasPort
  | _ => True

structure Inv (u : Udp) : Prop where
  table : u.Consistent
  zero : u.portTable 0 = none

section Bind

variable {u : Udp} {self : Nat} {socket : UdpSocket} {addr : SockaddrIn} {port : UInt16}

theorem bind_error (ha : u.allocPort self (bswap16 addr.sinPort) = (u,.error (-eaddrinuse))) :
    u.bind self socket addr = (u,-eaddrinuse) := by
  rw [bind,ha]

theorem bind_ok (socket : UdpSocket) (ha : u.allocPort self (bswap16 addr.sinPort) = (u.setPort port (some self),.ok port)) :
    u.bind self socket addr = ((if socket.hasPort then
        (u.setPort port (some self)).setPort (bswap16 addr.sinPort) none
      else u.setPort port (some self)).setSocket self (some (socket.rebound addr port)),0) := by
  rw [bind,ha]
  by_cases hp : socket.hasPort
  · simp only [freePort,hp,if_true]
    rw [takePort_eq (Function.update_self _ _ _),setSocket_setSocket]
    rfl
  · simp only [freePort,if_neg hp]
    rw [takePort_eq (Function.update_self _ _ _),setSocket_setSocket]
    rfl

theorem rebind_inconsistent (hi : u.Inv) (hs : u.sockets self = some socket) (hp : socket.hasPort)
    (hport : u.portTable port = none) (hchosen : bswap16 addr.sinPort ≠ 0 → port = bswap16 addr.sinPort) :
    ¬(((u.setPort port (some self)).setPort (bswap16 addr.sinPort) none).setSocket self
      (some (socket.rebound addr port))).Consistent := by
  intro hc
  have hold := hi.table.entry hs hp
  have hne : socket.boundAddress.port ≠ port := fun h => by
    rw [h,hport] at hold
    cases hold
  have hne' : socket.boundAddress.port ≠ bswap16 addr.sinPort := by
    intro h
    rcases eq_or_ne (bswap16 addr.sinPort) 0 with h0 | h0
    · rw [h,h0,hi.zero] at hold
      cases hold
    · exact hne (h.trans (hchosen h0).symm)
  obtain ⟨socket',hs',-,hport'⟩ := (hc socket.boundAddress.port self).mp (by
    rw [setSocket_portTable,setPort_portTable,setPort_portTable,Function.update_of_ne hne',
      Function.update_of_ne hne,hold])
  rw [setSocket_sockets,Function.update_self] at hs'
  obtain rfl := Option.some.inj hs'
  exact hne hport'.symm

theorem rebound_port : (socket.rebound addr port).boundAddress.port = port := rfl

theorem good_iff_consistent (op : Op) {u' : Udp} (hno : ∀ self, ¬u.Chooses self op)
    (hfailed : ∀ self addr, op = .bind self addr → (u.next op).2 < 0 → u' = u) :
    u.Good op u' ↔ u'.Consistent :=
  ⟨Good.table,fun h => ⟨h,fun _ hc => absurd hc (hno _),fun _ hc => absurd hc (hno _),hfailed⟩⟩

theorem Exhausted.not_hasFree (h : u.Exhausted) : ¬u.HasFree := by
  rintro ⟨p,hge,hlt,hp⟩
  exact h p hge hlt.le hp

theorem next_bind (hs : u.sockets self = some socket) (hfamily : addr.sinFamily = afInet) :
    u.next (.bind self addr) = u.bind self socket addr := by
  simp only [next,hs,hfamily,ne_eq,not_true_eq_false,if_false]

theorem bind_chosen_good_iff (hi : u.Inv) (hs : u.sockets self = some socket)
    (hfamily : addr.sinFamily = afInet) (h0 : bswap16 addr.sinPort ≠ 0) :
    u.Good (.bind self addr) (u.bind self socket addr).1 ↔ u.BindSafe socket (bswap16 addr.sinPort) := by
  have hno : ∀ other, ¬u.Chooses other (.bind self addr) := fun other h => h0 h.2.2.2
  have halloc : u.allocPort self _ = _ := allocPort_chosen self h0
  rw [BindSafe]
  by_cases hport : u.portTable (bswap16 addr.sinPort) = none
  · rw [if_neg (not_not_intro hport)] at halloc
    have hbind := bind_ok socket halloc
    rw [good_iff_consistent _ hno (by rw [next_bind hs hfamily,hbind]; simp),hbind]
    by_cases hp : socket.hasPort
    · rw [if_pos hp]
      exact iff_of_false (rebind_inconsistent hi hs hp hport fun _ => rfl) (by simp [hport,hp])
    · rw [if_neg hp]
      exact iff_of_true (hi.table.install (hi.table.no_entry hs hp) hport rfl rebound_port)
        (.inr ⟨hp,fun h => absurd h h0⟩)
  · rw [if_pos hport] at halloc
    rw [good_iff_consistent _ hno (by rw [bind_error halloc]; simp),bind_error halloc]
    exact ⟨fun _ => .inl ⟨h0,hport⟩,fun _ => hi.table⟩

theorem bind_auto_good_iff (hi : u.Inv) (hs : u.sockets self = some socket)
    (hfamily : addr.sinFamily = afInet) (h0 : bswap16 addr.sinPort = 0) :
    u.Good (.bind self addr) (u.bind self socket addr).1 ↔ u.BindSafe socket (bswap16 addr.sinPort) := by
  have hchooses : u.Chooses self (.bind self addr) :=
    ⟨rfl,Option.isSome_iff_exists.mpr ⟨socket,hs⟩,hfamily,h0⟩
  by_cases hfree : u.HasFree
  · obtain ⟨port,hge,hlt,hport,halloc⟩ := allocPort_free self hfree
    rw [← h0] at halloc
    have hbind := bind_ok socket halloc
    by_cases hp : socket.hasPort
    · refine iff_of_false (fun h => ?_) (by simp [BindSafe,h0,hp])
      have htable := h.table
      rw [hbind,if_pos hp] at htable
      exact rebind_inconsistent hi hs hp hport (fun h => absurd h0 h) htable
    · refine iff_of_true ⟨?_,?_,?_,?_⟩ (.inr ⟨hp,fun _ => hfree⟩)
      · rw [hbind,if_neg hp]
        exact hi.table.install (hi.table.no_entry hs hp) hport rfl rebound_port
      · rintro other ⟨rfl,-⟩ -
        rw [hbind]
        exact ⟨_,Function.update_self _ _ _,rfl,hge,hlt.le⟩
      · exact fun _ _ hex => absurd hfree hex.not_hasFree
      · intro _ _ _ hneg
        rw [next_bind hs hfamily,hbind] at hneg
        exact absurd hneg (Int.lt_irrefl 0)
  · have halloc := allocPort_full self hfree hi.zero
    rw [← h0] at halloc
    have hbind := bind_ok socket halloc
    refine iff_of_false (fun h => ?_) (by simp [BindSafe,h0,hfree])
    obtain ⟨socket',hs',-,hge,-⟩ := h.range self hchooses (by
      rw [next_bind hs hfamily,hbind]
      exact fun h => (show (0 : Int) ≠ -eaddrinuse by decide) (congrArg Prod.snd h))
    rw [hbind,setSocket_sockets,Function.update_self] at hs'
    obtain rfl := Option.some.inj hs'
    rw [rebound_port,h0] at hge
    exact absurd hge (by decide)

theorem bind_good_iff (hi : u.Inv) (hs : u.sockets self = some socket)
    (hfamily : addr.sinFamily = afInet) :
    u.Good (.bind self addr) (u.bind self socket addr).1 ↔ u.BindSafe socket (bswap16 addr.sinPort) := by
  rcases eq_or_ne (bswap16 addr.sinPort) 0 with h0 | h0
  · exact bind_auto_good_iff hi hs hfamily h0
  · exact bind_chosen_good_iff hi hs hfamily h0

end Bind

section Sendmsg

variable {u : Udp} {self : Nat} {socket : UdpSocket} {msgName : Option SockaddrIn} {sent : Int}

theorem sendmsg_bound (hp : socket.hasPort) : (u.sendmsg self socket msgName sent).1 = u := by
  simp only [sendmsg,hp,if_true]
  split_ifs <;> rfl

theorem sendmsg_ok {port : UInt16} (msgName : Option SockaddrIn) (sent : Int) (hs : u.sockets self = some socket) (hp : ¬socket.hasPort)
    (ha : u.allocPort self 0 = (u.setPort port (some self),.ok port)) :
    (u.sendmsg self socket msgName sent).1 =
      (u.setPort port (some self)).setSocket self (some (socket.withPort port)) := by
  simp only [sendmsg,if_neg hp,ha]
  rw [takePort_eq (u := u.setPort port (some self)) hs]
  split_ifs <;> rfl

theorem sendmsg_good_iff (hi : u.Inv) (hs : u.sockets self = some socket) :
    u.Good (.sendmsg self msgName sent) (u.sendmsg self socket msgName sent).1 ↔
      socket.hasPort ∨ u.HasFree := by
  have hfailed : ∀ other addr, Op.sendmsg self msgName sent = .bind other addr →
      (u.next (.sendmsg self msgName sent)).2 < 0 → (u.sendmsg self socket msgName sent).1 = u :=
    fun _ _ h => by cases h
  have hnext : u.next (.sendmsg self msgName sent) = u.sendmsg self socket msgName sent := by
    simp only [next,hs]
  by_cases hp : socket.hasPort
  · rw [good_iff_consistent _ _ hfailed,sendmsg_bound hp]
    · exact ⟨fun _ => .inl hp,fun _ => hi.table⟩
    · rintro other ⟨rfl,socket',hs',hp'⟩
      obtain rfl := Option.some.inj (hs.symm.trans hs')
      exact hp' hp
  by_cases hfree : u.HasFree
  · obtain ⟨port,hge,hlt,hport,halloc⟩ := allocPort_free self hfree
    have hsend := sendmsg_ok msgName sent hs hp halloc
    refine iff_of_true ⟨?_,?_,?_,hfailed⟩ (.inr hfree)
    · rw [hsend]
      exact hi.table.install (hi.table.no_entry hs hp) hport rfl rfl
    · rintro other ⟨rfl,-⟩ -
      rw [hsend]
      exact ⟨_,Function.update_self _ _ _,rfl,hge,hlt.le⟩
    · exact fun _ _ hex => absurd hfree hex.not_hasFree
  · have hsend := sendmsg_ok msgName sent hs hp (allocPort_full self hfree hi.zero)
    refine iff_of_false (fun h => ?_) (by simp [hp,hfree])
    have hentry : (u.sendmsg self socket msgName sent).1.portTable 0 = some self := by
      rw [hsend]
      exact Function.update_self (0 : UInt16) (some self) u.portTable
    obtain ⟨socket',hs',-,hge,-⟩ := h.range self ⟨rfl,socket,hs,hp⟩ (by
      rw [hnext]
      intro heq
      rw [heq,hi.zero] at hentry
      cases hentry)
    rw [hsend,setSocket_sockets,Function.update_self] at hs'
    obtain rfl := Option.some.inj hs'
    exact absurd hge (show ¬portAllocRangeStart ≤ (0 : UInt16).toNat by decide)

end Sendmsg

section Step

variable {u u' : Udp} {op : Op}

theorem ne_zero_of_range {port : UInt16} (h : portAllocRangeStart ≤ port.toNat) : port ≠ 0 := by
  rintro rfl
  exact absurd h (by decide)

theorem setPort_zero {port : UInt16} (new : Option Nat) (h0 : u.portTable 0 = none)
    (h : port = 0 → new = none) : (u.setPort port new).portTable 0 = none := by
  rw [setPort_portTable]
  rcases eq_or_ne port 0 with rfl | hne
  · rw [Function.update_self,h rfl]
  · rw [Function.update_of_ne hne.symm,h0]

theorem bind_zero {self : Nat} {socket : UdpSocket} {addr : SockaddrIn} (h0 : u.portTable 0 = none)
    (hsafe : u.BindSafe socket (bswap16 addr.sinPort)) :
    (u.bind self socket addr).1.portTable 0 = none := by
  have hok : ∀ port : UInt16, port ≠ 0 →
      u.allocPort self (bswap16 addr.sinPort) = (u.setPort port (some self),.ok port) →
        (u.bind self socket addr).1.portTable 0 = none := by
    intro port hne halloc
    rw [bind_ok socket halloc,setSocket_portTable]
    have hset := setPort_zero (some self) h0 fun h => absurd h hne
    split_ifs
    · exact setPort_zero none hset fun _ => rfl
    · exact hset
  by_cases hp : bswap16 addr.sinPort = 0
  · rcases hsafe with ⟨hne,-⟩ | ⟨-,hfree⟩
    · exact absurd hp hne
    · obtain ⟨port,hge,-,-,halloc⟩ := allocPort_free self (hfree hp)
      exact hok port (ne_zero_of_range hge) (hp ▸ halloc)
  · have halloc : u.allocPort self _ = _ := allocPort_chosen self hp
    split_ifs at halloc with hport
    · rw [bind_error halloc]
      exact h0
    · exact hok _ hp halloc

theorem sendmsg_zero {self : Nat} {socket : UdpSocket} {msgName : Option SockaddrIn} {sent : Int}
    (h0 : u.portTable 0 = none) (hs : u.sockets self = some socket)
    (hsafe : socket.hasPort ∨ u.HasFree) :
    (u.sendmsg self socket msgName sent).1.portTable 0 = none := by
  by_cases hp : socket.hasPort
  · rw [sendmsg_bound hp,h0]
  · obtain ⟨port,hge,-,-,halloc⟩ := allocPort_free self (hsafe.resolve_left hp)
    rw [sendmsg_ok msgName sent hs hp halloc,setSocket_portTable]
    exact setPort_zero _ h0 fun h => absurd h (ne_zero_of_range hge)

theorem destroy_consistent_iff {self : Nat} {socket : UdpSocket} (hc : u.Consistent)
    (hs : u.sockets self = some socket) : (u.setSocket self none).Consistent ↔ ¬socket.hasPort := by
  constructor
  · intro hdead hp
    refine hdead.no_entry_dead ?_ socket.boundAddress.port (hc.entry hs hp)
    exact Function.update_self _ _ _
  · exact fun hp => hc.setSocket (hc.no_entry hs hp) fun _ h => by cases h

theorem connect_consistent {self : Nat} {socket : UdpSocket} {addr : SockaddrIn} (hc : u.Consistent)
    (hs : u.sockets self = some socket) : (u.connect self socket addr).1.Consistent :=
  hc.keep hs rfl rfl

theorem good_self (hc : u.Consistent) (hno : ∀ self, ¬u.Chooses self op) : u.Good op u :=
  (good_iff_consistent _ hno fun _ _ _ _ => rfl).mpr hc

theorem good_iff_safe (hi : u.Inv) (hstep : u.Steps op u') : u.Good op u' ↔ u.Safe op u' := by
  subst hstep
  cases op with
  | socket self =>
    rw [good_iff_consistent (.socket self) (fun _ h => h) fun _ _ h => by cases h]
    refine iff_of_true ?_ trivial
    cases hs : u.sockets self with
    | some _ =>
      simp only [next,hs]
      exact hi.table
    | none =>
      simp only [next,hs]
      exact hi.table.setSocket (hi.table.no_entry_dead hs) fun _ h => by cases h; simp
  | bind self addr =>
    cases hs : u.sockets self with
    | none =>
      simp only [Safe,next,hs]
      exact iff_of_true (good_self hi.table fun _ h => by obtain ⟨rfl,h,-⟩ := h; simp [hs] at h) (by simp)
    | some socket =>
      by_cases hfamily : addr.sinFamily = afInet
      · rw [next_bind hs hfamily,bind_good_iff hi hs hfamily]
        simp [Safe,hs,hfamily]
      · simp only [Safe,next,hs,if_pos hfamily]
        exact iff_of_true (good_self hi.table fun _ h => hfamily h.2.2.1) fun _ _ h => absurd h hfamily
  | connect self addr =>
    rw [good_iff_consistent (.connect self addr) (fun _ h => h) fun _ _ h => by cases h]
    refine iff_of_true ?_ trivial
    cases hs : u.sockets self with
    | none =>
      simp only [next,hs]
      exact hi.table
    | some socket =>
      simp only [next,hs]
      split_ifs
      · exact hi.table
      · exact connect_consistent hi.table hs
  | sendmsg self msgName sent =>
    cases hs : u.sockets self with
    | none =>
      simp only [Safe,next,hs]
      exact iff_of_true (good_self hi.table fun _ h => by
        obtain ⟨rfl,socket,h,-⟩ := h
        cases hs.symm.trans h) (by simp)
    | some socket =>
      simp only [Safe,next,hs]
      rw [sendmsg_good_iff hi hs]
      simp
  | destroy self =>
    rw [good_iff_consistent (.destroy self) (fun _ h => h) fun _ _ h => by cases h]
    cases hs : u.sockets self with
    | none =>
      simp only [Safe,next,hs]
      exact iff_of_true hi.table (by simp)
    | some socket =>
      simp only [Safe,next,hs]
      rw [destroy_consistent_iff hi.table hs]
      simp

theorem inv_step (hi : u.Inv) (hstep : u.Steps op u') (hgood : u.Good op u') : u'.Inv := by
  refine ⟨hgood.table,?_⟩
  have hsafe := (good_iff_safe hi hstep).mp hgood
  subst hstep
  cases op with
  | socket self | destroy self =>
    simp only [next]
    split <;> exact hi.zero
  | bind self addr =>
    cases hs : u.sockets self with
    | none =>
      simp only [next,hs]
      exact hi.zero
    | some socket =>
      simp only [next,hs]
      split_ifs with hfamily
      · exact hi.zero
      · exact bind_zero hi.zero (hsafe socket hs (not_not.mp hfamily))
  | connect self addr =>
    simp only [next]
    split
    · exact hi.zero
    · split_ifs <;> exact hi.zero
  | sendmsg self msgName sent =>
    cases hs : u.sockets self with
    | none =>
      simp only [next,hs]
      exact hi.zero
    | some socket =>
      simp only [next,hs]
      exact sendmsg_zero hi.zero hs (hsafe socket hs)

theorem boot_inv : boot.Inv :=
  ⟨fun _ _ => ⟨nofun,nofun⟩,rfl⟩

end Step

theorem port_table_run (ops : List Op) :
    boot.Consistent ∧ (Along Steps Good boot ops ↔ Along Steps Safe boot ops) := by
  refine ⟨boot_inv.table,?_⟩
  apply Along.iff_safe _ _ boot_inv
  · intro u op u' hi hstep
    exact good_iff_safe hi hstep
  · intro u op u' hi hstep hgood
    exact inv_step hi hstep hgood

def rebinding : List Op :=
  [.socket 0x1000,.bind 0x1000 ⟨afInet,0x5000,0⟩,.bind 0x1000 ⟨afInet,0x5100,0⟩]

theorem rebinding_stale : ¬(rebinding.foldl (fun u op => (u.next op).1) boot).Consistent := by
  intro hc
  obtain ⟨socket,hs,-,hport⟩ := (hc 80 0x1000).mp (by decide)
  have hbound : ((rebinding.foldl (fun u op => (u.next op).1) boot).sockets 0x1000).map
      (·.boundAddress.port) = some 81 := by decide
  rw [hs,Option.map_some,hport] at hbound
  exact absurd hbound (by decide)

end Udp

end SabaOS.Net
