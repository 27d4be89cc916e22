import Mathlib.Data.UInt
import Mathlib.Logic.Function.Basic
import SabaOS.Klib.Word

namespace SabaOS.Net

open SabaOS.Klib

abbrev Ipv4 := UInt32

abbrev Mac := Vector UInt8 6

def broadcastMac : Mac := Vector.replicate 6 0xff

def broadcastIpv4 : Ipv4 := 0xffffffff

def ehostunreach : Int := 113

def bswap16 (x : UInt16) : UInt16 := (x >>> 8) ||| (x <<< 8)

def be16 (x : UInt16) : List UInt8 := [(x >>> 8).toUInt8,x.toUInt8]

def be32 (x : UInt32) : List UInt8 :=
  [(x >>> 24).toUInt8,(x >>> 16).toUInt8,(x >>> 8).toUInt8,x.toUInt8]

structure Ipv4Header where
  versionAndHeaderLength : UInt8
  dscpAndEcn : UInt8
  packetLength : UInt16
  id : UInt16
  flagsAndFragOffset : UInt16
  timeToLive : UInt8
  protocol : UInt8
  headerChecksum : UInt16
  srcAddr : Ipv4
  dstAddr : Ipv4
deriving DecidableEq, Repr

def versionAndHeaderLength : UInt8 := ((4 : UInt8) <<< 4) ||| 5

def flagMoreFragments : UInt16 := (1 : UInt16) <<< 0

def flagDontFragment : UInt16 := (1 : UInt16) <<< 1

def protocolTcp : UInt8 := 6

def protocolUdp : UInt8 := 17

def partialChecksum : List UInt8 → Nat
  | [] => 0
  | [a] => a.toNat
  | a :: b :: bytes => a.toNat + 2 ^ 8 * b.toNat + partialChecksum bytes

def foldCarries (sum : Nat) : Nat :=
  if sum / 2 ^ 16 = 0 then sum else foldCarries (sum % 2 ^ 16 + sum / 2 ^ 16)
termination_by sum
decreasing_by omega

def checksumOf (sum : Nat) : UInt16 := bswap16 (~~~(foldCarries sum).toUInt16)

namespace Ipv4Header

def size : Nat := 20

def bytes (h : Ipv4Header) : List UInt8 :=
  [h.versionAndHeaderLength,h.dscpAndEcn] ++ be16 h.packetLength ++ be16 h.id ++
    be16 h.flagsAndFragOffset ++ [h.timeToLive,h.protocol] ++ be16 h.headerChecksum ++
    be32 h.srcAddr ++ be32 h.dstAddr

def getFlags (h : Ipv4Header) : UInt16 := (h.flagsAndFragOffset >>> 13) &&& 0x7

def getFragOffset (h : Ipv4Header) : UInt16 := (h.flagsAndFragOffset &&& 0x1fff) <<< 3

def setFlagsAndFragOffset (h : Ipv4Header) (flags fragOffset : UInt16) : Ipv4Header :=
  { h with flagsAndFragOffset := (flags <<< 13) ||| (fragOffset >>> 3) }

def computeHeaderChecksum (h : Ipv4Header) : UInt16 := checksumOf (partialChecksum h.bytes)

def stampChecksum (h : Ipv4Header) : Ipv4Header := { h with headerChecksum := h.computeHeaderChecksum }

theorem bytes_length (h : Ipv4Header) : h.bytes.length = size := rfl

end Ipv4Header

def pseudoHeader (srcAddr dstAddr : Ipv4) (protocol : UInt8) (length : UInt16) : List UInt8 :=
  be32 srcAddr ++ be32 dstAddr ++ [0,protocol] ++ be16 length

def ipv4TransportChecksum (data : List UInt8) (srcAddr dstAddr : Ipv4) (protocol : UInt8) : UInt16 :=
  checksumOf (partialChecksum (pseudoHeader srcAddr dstAddr protocol data.length.toUInt16) +
    partialChecksum data)

-- `alloc_packet` of both drivers asserts that the packet fits `mtu`.
structure Interface where
  mtu : Nat
  ipv4 : Ipv4
  ipv4PacketId : UInt32
deriving DecidableEq, Repr

structure Route where
  interface : Option Nat := none
  destination : Ipv4 := 0
  netmask : Ipv4 := 0
  gateway : Ipv4 := 0
  metric : Int := 0x7fffffff
deriving DecidableEq, Repr

def lookupRoute (routingTable : List Route) (ip : Ipv4) : Route :=
  routingTable.foldl (fun chosen route =>
    if ip &&& route.netmask ≠ route.destination &&& route.netmask then chosen
    else if route.metric < chosen.metric then route else chosen) {}

structure Fragment where
  header : Ipv4Header
  payload : List UInt8
  targetMac : Mac
deriving DecidableEq, Repr

def Fragment.bytes (f : Fragment) : List UInt8 := f.header.bytes ++ f.payload

structure Job where
  targetIp : Ipv4
  targetMac : Mac
  packetId : UInt16
  protocol : UInt8
deriving DecidableEq, Repr

-- `none` is a failed assertion
def Interface.fragment (i : Interface) (job : Job) (data : List UInt8)
    (fragmentLength fragmentOffset : UInt16) (isLastFragment : Bool) : Option Fragment :=
  if fragmentLength.toNat + Ipv4Header.size ≤ i.mtu then
    let header : Ipv4Header :=
      { versionAndHeaderLength := versionAndHeaderLength
        dscpAndEcn := 0
        packetLength := (fragmentLength.toNat + Ipv4Header.size).toUInt16
        id := job.packetId
        flagsAndFragOffset := 0
        timeToLive := 0xFF
        protocol := job.protocol
        headerChecksum := 0
        srcAddr := i.ipv4
        dstAddr := job.targetIp }
    let header := header.setFlagsAndFragOffset (if isLastFragment then 0 else flagMoreFragments)
      fragmentOffset
    some
      { header := header.stampChecksum
        payload := data.take fragmentLength.toNat
        targetMac := job.targetMac }
  else none

structure Sending where
  fragments : List Fragment
  ret : Int
deriving DecidableEq, Repr

def maxFragmentLength (mtu : Nat) : Nat := alignDown (usub mtu Ipv4Header.size) 8

def Interface.sendFrom (iface : Interface) (job : Job) (data : List UInt8) (sendPacket : Nat → Int)
    (numFragments : Nat) : Nat → Nat → Nat → Option Sending
  | 0, _, _ => some ⟨[],0⟩
  | left + 1, i, fragmentOffset => do
    let isLastFragment : Bool := i = usub numFragments 1
    let fragmentLength := min (maxFragmentLength iface.mtu) (usub data.length fragmentOffset)
    let fragment ← iface.fragment job (data.drop fragmentOffset) fragmentLength.toUInt16
      fragmentOffset.toUInt16 isLastFragment
    if sendPacket i < 0 then return ⟨[fragment],sendPacket i⟩
    let rest ← iface.sendFrom job data sendPacket numFragments left (i + 1)
      (uadd fragmentOffset (maxFragmentLength iface.mtu))
    return ⟨fragment :: rest.fragments,rest.ret⟩

-- The checksum lies at byte 6 of a UDP header and at byte 16 of a TCP header.
def stampChecksum (data : List UInt8) (srcAddr targetIp : Ipv4) (protocol : UInt8) : List UInt8 :=
  let checksum := ipv4TransportChecksum data srcAddr targetIp protocol
  let stamp (offset : Nat) := (data.set offset (checksum >>> 8).toUInt8).set (offset + 1) checksum.toUInt8
  if protocol = protocolUdp then stamp 6 else if protocol = protocolTcp then stamp 16 else data

def Interface.send (iface : Interface) (data : List UInt8) (targetIp : Ipv4) (targetMac : Mac)
    (protocol : UInt8) (sendPacket : Nat → Int) : Option Sending :=
  let numFragments := data.length / maxFragmentLength iface.mtu + 1
  iface.sendFrom ⟨targetIp,targetMac,iface.ipv4PacketId.toUInt16,protocol⟩ data sendPacket
    numFragments numFragments 0 0

structure Answers where
  arpLookup : Nat → Ipv4 → Int × Mac
  sendPacket : Nat → Int

structure Stack where
  routingTable : List Route
  interfaces : Nat → Interface

def Stack.takePacketId (net : Stack) (index : Nat) : Stack :=
  let iface := net.interfaces index
  let iface := { iface with ipv4PacketId := iface.ipv4PacketId + 1 }
  { net with interfaces := Function.update net.interfaces index iface }

def Stack.ipv4Send (net : Stack) (answers : Answers) (data : List UInt8) (targetIp : Ipv4)
    (protocol : UInt8) (computeChecksum : Bool) : Option (Stack × Sending) :=
  if targetIp = broadcastIpv4 then some (net,⟨[],-ehostunreach⟩)
  else
    let route := lookupRoute net.routingTable targetIp
    match route.interface with
    | none => some (net,⟨[],-ehostunreach⟩)
    | some index =>
      let (err,targetMac) :=
        answers.arpLookup index (if route.gateway ≠ 0 then route.gateway else targetIp)
      if err < 0 then some (net,⟨[],err⟩)
      else do
        let iface := net.interfaces index
        let data := if computeChecksum then stampChecksum data iface.ipv4 targetIp protocol else data
        let sending ← iface.send data targetIp targetMac protocol answers.sendPacket
        return (net.takePacketId index,sending)

end SabaOS.Net
