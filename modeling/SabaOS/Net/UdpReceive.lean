import Mathlib.Data.Vector.Basic
import SabaOS.Klib.RingBuffer
import SabaOS.Net.Segments

namespace SabaOS.Net

open SabaOS.Klib

abbrev Buffer := Nat → UInt8

namespace Buffer

def span (mem : Buffer) (addr count : Nat) : List UInt8 := (List.range count).map fun i => mem (addr + i)

def be16 (mem : Buffer) (addr : Nat) : UInt16 := ((mem addr).toUInt16 <<< 8) ||| (mem (addr + 1)).toUInt16

def be32 (mem : Buffer) (addr : Nat) : UInt32 :=
  ((mem addr).toUInt32 <<< 24) ||| ((mem (addr + 1)).toUInt32 <<< 16) |||
    ((mem (addr + 2)).toUInt32 <<< 8) ||| (mem (addr + 3)).toUInt32

def mac (mem : Buffer) (addr : Nat) : Mac := Vector.ofFn fun i => mem (addr + i.val)

def ipv4Header (mem : Buffer) (addr : Nat) : Ipv4Header where
  versionAndHeaderLength := mem addr
  dscpAndEcn := mem (addr + 1)
  packetLength := mem.be16 (addr + 2)
  id := mem.be16 (addr + 4)
  flagsAndFragOffset := mem.be16 (addr + 6)
  timeToLive := mem (addr + 8)
  protocol := mem (addr + 9)
  headerChecksum := mem.be16 (addr + 10)
  srcAddr := mem.be32 (addr + 12)
  dstAddr := mem.be32 (addr + 16)

end Buffer

structure UdpHeader where
  srcPort : UInt16
  dstPort : UInt16
  length : UInt16
  checksum : UInt16
deriving DecidableEq, Repr

def UdpHeader.size : Nat := 8

def Buffer.udpHeader (mem : Buffer) (addr : Nat) : UdpHeader :=
  ⟨mem.be16 addr,mem.be16 (addr + 2),mem.be16 (addr + 4),mem.be16 (addr + 6)⟩

def ethHeaderSize : Nat := 14

def ethProtocolIpv4 : UInt16 := 0x800

def ethProtocolArp : UInt16 := 0x806

inductive Target where
  | none
  | arp (header : Nat)
  | tcp (header ipv4Header : Nat)
  | udp (header ipv4Header : Nat)
deriving DecidableEq, Repr

def ipv4Process (mem : Buffer) (ipv4 : Ipv4) (header : Nat) : Target :=
  let h := mem.ipv4Header header
  if h.versionAndHeaderLength ≠ versionAndHeaderLength ∨ (h.dstAddr ≠ broadcastIpv4 ∧ h.dstAddr ≠ ipv4) ∨
      Checked.computeHeaderChecksum h ≠ some 0 then .none
  else if h.getFlags &&& flagMoreFragments ≠ 0 ∨ 0 < h.getFragOffset then .none
  else if h.protocol = protocolTcp then .tcp (header + Ipv4Header.size) header
  else if h.protocol = protocolUdp then .udp (header + Ipv4Header.size) header
  else .none

def ethProcess (mem : Buffer) (mac : Mac) (ipv4 : Ipv4) : Target :=
  if mem.mac 0 ≠ mac ∧ mem.mac 0 ≠ broadcastMac then .none
  else
    let type := mem.be16 12
    if type = ethProtocolArp then .arp ethHeaderSize
    else if type = ethProtocolIpv4 then ipv4Process mem ipv4 ethHeaderSize
    else .none

structure Datagram where
  srcAddr : Ipv4 := 0
  srcPort : UInt16 := 0
  length : UInt16 := 0
  data : List UInt8 := []
deriving DecidableEq, Repr

structure Receiver where
  portTable : UInt16 → Option Nat
  ringBuffers : Nat → RingBuffer Datagram 256

def enqueue (ring : RingBuffer Datagram 256) (datagram : Datagram) : RingBuffer Datagram 256 :=
  let ring := if ring.isFull then (ring.read 1).1 else ring
  (ring.write [datagram]).1

structure Delivery where
  socket : Nat
  datagram : Datagram
deriving DecidableEq, Repr

-- `reads` are the bytes that are checksummed and copied, by their places in the buffer; no `next`
-- is a sum that overflows.
structure Receipt where
  reads : List (List Nat)
  next : Option (Receiver × Option Delivery)

def udpProcess (mem : Buffer) (r : Receiver) (header ipv4Header : Nat) : Receipt :=
  let h := mem.udpHeader header
  let ip := mem.ipv4Header ipv4Header
  let length := h.length.toNat
  if length < UdpHeader.size then ⟨[],some (r,none)⟩
  else
    let dataLength := length - UdpHeader.size
    let summed := List.range' header length
    match Checked.ipv4TransportChecksum (mem.span header length) ip.srcAddr ip.dstAddr ip.protocol with
    | none => ⟨[summed],none⟩
    | some checksum =>
      if checksum ≠ 0 then ⟨[summed],some (r,none)⟩
      else
        match r.portTable h.dstPort with
        | none => ⟨[summed],some (r,none)⟩
        | some socket =>
          let datagram : Datagram :=
            { srcAddr := ip.srcAddr
              srcPort := h.srcPort
              length := dataLength.toUInt16
              data := mem.span (header + UdpHeader.size) dataLength }
          let ring := enqueue (r.ringBuffers socket) datagram
          ⟨[summed,List.range' (header + UdpHeader.size) dataLength],
            some ({ r with ringBuffers := Function.update r.ringBuffers socket ring },
              some ⟨socket,datagram⟩)⟩

def receive (mem : Buffer) (mac : Mac) (ipv4 : Ipv4) (r : Receiver) : Receipt :=
  match ethProcess mem mac ipv4 with
  | .udp header ipv4Header => udpProcess mem r header ipv4Header
  | _ => ⟨[],some (r,none)⟩

def InPacket (mem : Buffer) (i : Nat) : Prop :=
  ethHeaderSize + Ipv4Header.size ≤ i ∧
    i < ethHeaderSize + (mem.ipv4Header ethHeaderSize).packetLength.toNat

def Overlong (mem : Buffer) : Prop :=
  (mem.ipv4Header ethHeaderSize).packetLength.toNat <
    Ipv4Header.size + (mem.udpHeader (ethHeaderSize + Ipv4Header.size)).length.toNat

def Receipt.Within (receipt : Receipt) (mem : Buffer) (P : Nat → Prop) : Prop :=
  (∀ read ∈ receipt.reads, ∀ i ∈ read, P i) ∧
    ∀ r d, receipt.next = some (r,some d) →
      ∃ bytes : List Nat, d.datagram.data = bytes.map mem ∧ ∀ i ∈ bytes, P i

def Confined (mem : Buffer) (r : Receiver) (receipt : Receipt) : Prop :=
  receipt.Within mem (InPacket mem) ∧ (Overlong mem → receipt.next = some (r,none))

section Received

variable {mem : Buffer} {mac : Mac} {ipv4 : Ipv4} {r : Receiver} {header ipv4Header n m : Nat}

theorem ipv4Process_udp (h : ipv4Process mem ipv4 n = .udp header ipv4Header) :
    header = n + Ipv4Header.size ∧ ipv4Header = n := by
  simp only [ipv4Process] at h
  split_ifs at h
  injection h with hheader hipv4
  exact ⟨hheader.symm,hipv4.symm⟩

theorem ethProcess_udp (h : ethProcess mem mac ipv4 = .udp header ipv4Header) :
    header = ethHeaderSize + Ipv4Header.size ∧ ipv4Header = ethHeaderSize := by
  simp only [ethProcess] at h
  split_ifs at h
  exact ipv4Process_udp h

theorem receive_udp (h : ethProcess mem mac ipv4 = .udp header ipv4Header) :
    receive mem mac ipv4 r = udpProcess mem r (ethHeaderSize + Ipv4Header.size) ethHeaderSize := by
  obtain ⟨rfl,rfl⟩ := ethProcess_udp h
  rw [receive,h]

theorem receive_other (h : ∀ header ipv4Header, ethProcess mem mac ipv4 ≠ .udp header ipv4Header) :
    receive mem mac ipv4 r = ⟨[],some (r,none)⟩ := by
  cases ht : ethProcess mem mac ipv4 with
  | udp header ipv4Header => exact absurd ht (h header ipv4Header)
  | none => rw [receive,ht]
  | arp header => rw [receive,ht]
  | tcp header ipv4Header => rw [receive,ht]

theorem confined_nothing : Confined mem r ⟨[],some (r,none)⟩ := by
  refine ⟨⟨?_,?_⟩,fun _ => rfl⟩
  · simp
  · simp

theorem udpProcess_short (h : (mem.udpHeader n).length.toNat < UdpHeader.size) :
    udpProcess mem r n m = ⟨[],some (r,none)⟩ := by
  simp only [udpProcess,if_pos h]

theorem mem_span {i start count : Nat} (h : i ∈ List.range' start count) : start ≤ i ∧ i < start + count := by
  simpa using h

theorem span_eq (start count : Nat) : mem.span start count = (List.range' start count).map mem := by
  rw [Buffer.span,List.range'_eq_map_range,List.map_map]
  rfl

section Within

variable {P : Nat → Prop} {summed copied : List Nat}

theorem Receipt.Within.mono {Q : Nat → Prop} {receipt : Receipt} (h : receipt.Within mem P)
    (hPQ : ∀ i, P i → Q i) : receipt.Within mem Q := by
  refine ⟨fun read hread i hi => hPQ i (h.1 read hread i hi),?_⟩
  intro r d hnext
  obtain ⟨bytes,hdata,hbytes⟩ := h.2 r d hnext
  exact ⟨bytes,hdata,fun i hi => hPQ i (hbytes i hi)⟩

theorem within_overflow (h : ∀ i ∈ summed, P i) : Receipt.Within ⟨[summed],none⟩ mem P := by
  refine ⟨?_,?_⟩
  · simpa using h
  · simp

theorem within_ignored (h : ∀ i ∈ summed, P i) : Receipt.Within ⟨[summed],some (r,none)⟩ mem P := by
  refine ⟨?_,?_⟩
  · simpa using h
  · simp

theorem within_delivered {d : Delivery} (h : ∀ i ∈ summed, P i) (hcopied : ∀ i ∈ copied, P i)
    (hdata : d.datagram.data = copied.map mem) :
    Receipt.Within ⟨[summed,copied],some (r,some d)⟩ mem P := by
  refine ⟨?_,?_⟩
  · rintro read hread
    rcases List.mem_pair.mp hread with rfl | rfl
    · exact h
    · exact hcopied
  · rintro r' d' hnext
    cases hnext
    exact ⟨copied,hdata,hcopied⟩

end Within

def Claimed (mem : Buffer) (n i : Nat) : Prop := n ≤ i ∧ i < n + (mem.udpHeader n).length.toNat

theorem udpProcess_within (h : UdpHeader.size ≤ (mem.udpHeader n).length.toNat) :
    (udpProcess mem r n m).Within mem (Claimed mem n) := by
  have hlong : ¬(mem.udpHeader n).length.toNat < UdpHeader.size := by omega
  have hsummed : ∀ i ∈ List.range' n (mem.udpHeader n).length.toNat, Claimed mem n i :=
    fun i hi => mem_span hi
  have hcopied : ∀ i ∈ List.range' (n + UdpHeader.size) ((mem.udpHeader n).length.toNat - UdpHeader.size),
      Claimed mem n i := by
    intro i hi
    have hspan := mem_span hi
    unfold Claimed
    omega
  simp only [udpProcess,if_neg hlong]
  split
  · exact within_overflow hsummed
  · split_ifs
    · exact within_ignored hsummed
    · split
      · exact within_ignored hsummed
      · exact within_delivered hsummed hcopied (span_eq _ _)

theorem udpProcess_summed (h : UdpHeader.size ≤ (mem.udpHeader n).length.toNat) :
    List.range' n (mem.udpHeader n).length.toNat ∈ (udpProcess mem r n m).reads := by
  have hlong : ¬(mem.udpHeader n).length.toNat < UdpHeader.size := by omega
  simp only [udpProcess,if_neg hlong]
  split
  · exact List.mem_cons_self
  · split_ifs
    · exact List.mem_cons_self
    · split
      · exact List.mem_cons_self
      · exact List.mem_cons_self

theorem udpProcess_confined (h : UdpHeader.size ≤ (mem.udpHeader (ethHeaderSize + Ipv4Header.size)).length.toNat) :
    Confined mem r (udpProcess mem r (ethHeaderSize + Ipv4Header.size) ethHeaderSize) ↔ ¬Overlong mem := by
  constructor
  · rintro ⟨⟨hreads,-⟩,-⟩ hover
    have hlast : ethHeaderSize + Ipv4Header.size +
        ((mem.udpHeader (ethHeaderSize + Ipv4Header.size)).length.toNat - 1) ∈
          List.range' (ethHeaderSize + Ipv4Header.size)
            (mem.udpHeader (ethHeaderSize + Ipv4Header.size)).length.toNat := by
      unfold UdpHeader.size at h
      simp only [List.mem_range'_1]
      omega
    have hin := hreads _ (udpProcess_summed h) _ hlast
    unfold InPacket at hin
    unfold Overlong at hover
    unfold UdpHeader.size at h
    omega
  · intro hover
    refine ⟨(udpProcess_within h).mono ?_,fun hbad => absurd hbad hover⟩
    rintro i ⟨hlow,hhigh⟩
    unfold Overlong at hover
    unfold InPacket
    omega

theorem received_confined_iff (mem : Buffer) (mac : Mac) (ipv4 : Ipv4) (r : Receiver) :
    Confined mem r (receive mem mac ipv4 r) ↔
      ∀ header ipv4Header, ethProcess mem mac ipv4 = .udp header ipv4Header →
        (mem.udpHeader header).length.toNat < UdpHeader.size ∨
          Ipv4Header.size + (mem.udpHeader header).length.toNat ≤
            (mem.ipv4Header ipv4Header).packetLength.toNat := by
  cases ht : ethProcess mem mac ipv4 with
  | udp header ipv4Header =>
    obtain ⟨rfl,rfl⟩ := ethProcess_udp ht
    rw [receive_udp ht]
    rcases Nat.lt_or_ge (mem.udpHeader (ethHeaderSize + Ipv4Header.size)).length.toNat UdpHeader.size with
      hshort | hlong
    · rw [udpProcess_short hshort]
      refine iff_of_true confined_nothing ?_
      rintro _ _ ⟨⟩
      exact .inl hshort
    · rw [udpProcess_confined hlong,Overlong,Nat.not_lt]
      constructor
      · rintro hle _ _ ⟨⟩
        exact .inr hle
      · intro hall
        rcases hall _ _ rfl with hshort | hle
        · omega
        · exact hle
  | none =>
    rw [receive_other (by simp [ht])]
    exact iff_of_true confined_nothing (by simp)
  | arp header =>
    rw [receive_other (by simp [ht])]
    exact iff_of_true confined_nothing (by simp)
  | tcp header ipv4Header =>
    rw [receive_other (by simp [ht])]
    exact iff_of_true confined_nothing (by simp)

end Received

section Stale

def staleBytes : List UInt8 :=
  [0xff,0xff,0xff,0xff,0xff,0xff,0x52,0x55,0x0a,0x00,0x02,0x02,0x08,0x00] ++
    [0x45,0,0,28,0,0,0,0,0xff,17,163,192,10,0,2,2,10,0,2,15] ++
    [0x04,0xd2,0x16,0x2e,0,12,47,40] ++ [0xde,0xad,0xbe,0xef]

def stale : Buffer := fun i => staleBytes.getD i 0

def listening : Receiver where
  portTable := fun port => if port = 5678 then some 0 else none
  ringBuffers := fun _ => ⟨0,0,fun _ => {}⟩

def guest : Ipv4 := 0x0a00020f

theorem stale_header : Checked.computeHeaderChecksum (stale.ipv4Header ethHeaderSize) = some 0 := by
  rw [header_checksum,Option.some_inj,checksumOf_eq_zero (by decide)]
  decide

theorem stale_udp (mac : Mac) : ethProcess stale mac guest = .udp 34 14 := by
  have hmac : stale.mac 0 = broadcastMac := by decide
  have hipv4 : ipv4Process stale guest ethHeaderSize = .udp 34 14 := by
    simp only [ipv4Process,stale_header]
    decide
  simp only [ethProcess,hmac,hipv4]
  have htype : stale.be16 12 = ethProtocolIpv4 := by decide
  rw [htype]
  simp [ethProtocolArp,ethProtocolIpv4]

theorem stale_checksum : Checked.ipv4TransportChecksum (stale.span 34 12) (stale.ipv4Header 14).srcAddr
    (stale.ipv4Header 14).dstAddr (stale.ipv4Header 14).protocol = some 0 := by
  rw [transportChecksum_some,checksumOf_eq_zero (by decide)]
  decide

theorem stale_next : (udpProcess stale listening 34 14).next.map Prod.snd =
    some (some ⟨0,⟨0x0a000202,1234,4,[0xde,0xad,0xbe,0xef]⟩⟩) := by
  have hlength : (stale.udpHeader 34).length.toNat = 12 := by decide
  have hport : listening.portTable (stale.udpHeader 34).dstPort = some 0 := by decide
  have hshort : ¬(12 < UdpHeader.size) := by decide
  simp only [udpProcess,hlength,if_neg hshort,stale_checksum,hport]
  rfl

theorem stale_delivered : ∃ r' d, (receive stale broadcastMac guest listening).next = some (r',some d) ∧
    d.datagram.data = [0xde,0xad,0xbe,0xef] ∧
    ¬Confined stale listening (receive stale broadcastMac guest listening) := by
  rw [receive_udp (stale_udp broadcastMac)]
  obtain ⟨⟨r',d⟩,hnext,rfl⟩ := Option.map_eq_some_iff.mp stale_next
  refine ⟨r',_,hnext,rfl,?_⟩
  rw [udpProcess_confined (by decide),not_not,Overlong]
  decide

end Stale

end SabaOS.Net
