import Mathlib.Data.List.Basic
import SabaOS.Lib.Iterate
import SabaOS.Net.Ipv4

namespace SabaOS.Net

open SabaOS.Lib

-- The sums as the code keeps them: `none` is a sum that an `int` does not hold.
namespace Checked

def int (n : Nat) : Option Nat := if n < 2 ^ 31 then some n else none

def addInt (a b : Nat) : Option Nat := int (a + b)

def sumWords (sum : Nat) : List UInt8 → Option Nat
  | [] => some sum
  | [a] => addInt sum a.toNat
  | a :: b :: bytes => do
    let sum ← addInt sum (a.toNat + 2 ^ 8 * b.toNat)
    sumWords sum bytes

def partialChecksum (bytes : List UInt8) : Option Nat := sumWords 0 bytes

def computeHeaderChecksum (h : Ipv4Header) : Option UInt16 := do
  let sum ← partialChecksum h.bytes
  return checksumOf sum

def ipv4TransportChecksum (data : List UInt8) (srcAddr dstAddr : Ipv4) (protocol : UInt8) :
    Option UInt16 := do
  let sum ← partialChecksum (pseudoHeader srcAddr dstAddr protocol data.length.toUInt16)
  let rest ← partialChecksum data
  let sum ← addInt sum rest
  return checksumOf sum

def stampChecksum (data : List UInt8) (srcAddr targetIp : Ipv4) (protocol : UInt8) :
    Option (List UInt8) := do
  let checksum ← ipv4TransportChecksum data srcAddr targetIp protocol
  let stamp (offset : Nat) := (data.set offset (checksum >>> 8).toUInt8).set (offset + 1) checksum.toUInt8
  return if protocol = protocolUdp then stamp 6 else if protocol = protocolTcp then stamp 16 else data

def stampHeader (h : Ipv4Header) : Option Ipv4Header := do
  let checksum ← computeHeaderChecksum h
  return { h with headerChecksum := checksum }

theorem int_of_lt {n : Nat} (h : n < 2 ^ 31) : int n = some n := if_pos h

theorem int_of_le {n : Nat} (h : 2 ^ 31 ≤ n) : int n = none := if_neg (by omega)

theorem int_bind {n m : Nat} {f : Nat → Option Nat} (h : ∀ s, s < 2 ^ 31 → f s = int (s + m)) :
    (int n).bind f = int (n + m) := by
  rcases Nat.lt_or_ge n (2 ^ 31) with hn | hn
  · rw [int_of_lt hn,Option.bind_some,h n hn]
  · rw [int_of_le hn,Option.bind_none,int_of_le (by omega)]

theorem sumWords_eq (sum : Nat) (bytes : List UInt8) (h : sum < 2 ^ 31) :
    sumWords sum bytes = int (sum + Net.partialChecksum bytes) := by
  induction sum,bytes using sumWords.induct with
  | case1 sum => exact (int_of_lt h).symm
  | case2 sum a => rfl
  | case3 sum a b bytes ih =>
    rw [sumWords,Net.partialChecksum,← Nat.add_assoc]
    exact int_bind ih

theorem partialChecksum_eq (bytes : List UInt8) :
    partialChecksum bytes = int (Net.partialChecksum bytes) := by
  rw [partialChecksum,sumWords_eq 0 bytes (by decide),Nat.zero_add]

theorem computeHeaderChecksum_eq (h : Ipv4Header) :
    computeHeaderChecksum h = (int (Net.partialChecksum h.bytes)).map checksumOf := by
  rw [computeHeaderChecksum,partialChecksum_eq]
  cases int (Net.partialChecksum h.bytes) with
  | none => rfl
  | some sum => rfl

theorem ipv4TransportChecksum_eq (data : List UInt8) (srcAddr dstAddr : Ipv4) (protocol : UInt8) :
    ipv4TransportChecksum data srcAddr dstAddr protocol =
      (int (Net.partialChecksum (pseudoHeader srcAddr dstAddr protocol data.length.toUInt16) +
        Net.partialChecksum data)).map checksumOf := by
  rw [ipv4TransportChecksum,partialChecksum_eq,partialChecksum_eq]
  generalize Net.partialChecksum (pseudoHeader srcAddr dstAddr protocol data.length.toUInt16) = n
  generalize Net.partialChecksum data = m
  rcases Nat.lt_or_ge n (2 ^ 31) with hn | hn
  · rcases Nat.lt_or_ge m (2 ^ 31) with hm | hm
    · rw [int_of_lt hn,int_of_lt hm]
      change (addInt n m).bind _ = _
      cases hsum : int (n + m) with
      | none => simp only [addInt,hsum,Option.bind_none,Option.map_none]
      | some sum =>
        simp only [addInt,hsum,Option.bind_some,Option.map_some]
        rfl
    · have hsum : 2 ^ 31 ≤ n + m := by omega
      rw [int_of_lt hn,int_of_le hm,int_of_le hsum]
      rfl
  · have hsum : 2 ^ 31 ≤ n + m := by omega
    rw [int_of_le hn,int_of_le hsum]
    rfl

end Checked

section Fold

def foldTurn (sum : Nat) : Turn Nat Nat :=
  if sum / 2 ^ 16 = 0 then .stop sum else .again (sum % 2 ^ 16 + sum / 2 ^ 16)

theorem fold_ends (sum : Nat) : Ends foldTurn sum (foldCarries sum) := by
  induction sum using foldCarries.induct with
  | case1 sum h =>
    rw [foldCarries,if_pos h]
    exact .stop (by simp only [foldTurn,if_pos h])
  | case2 sum h ih =>
    rw [foldCarries,if_neg h]
    refine (ends_again ?_).mpr ih
    simp only [foldTurn,if_neg h]

theorem foldCarries_lt (sum : Nat) : foldCarries sum < 2 ^ 16 := by
  induction sum using foldCarries.induct with
  | case1 sum h =>
    rw [foldCarries,if_pos h]
    omega
  | case2 sum h ih => rwa [foldCarries,if_neg h]

theorem foldCarries_mod (sum : Nat) : foldCarries sum % 65535 = sum % 65535 := by
  induction sum using foldCarries.induct with
  | case1 sum h => rw [foldCarries,if_pos h]
  | case2 sum h ih =>
    rw [foldCarries,if_neg h,ih]
    omega

theorem foldCarries_pos {sum : Nat} (h : 0 < sum) : 0 < foldCarries sum := by
  induction sum using foldCarries.induct with
  | case1 sum hs => rwa [foldCarries,if_pos hs]
  | case2 sum hs ih =>
    rw [foldCarries,if_neg hs]
    exact ih (by omega)

theorem sum_add_complement {sum : Nat} (h : 0 < sum) :
    sum + (65535 - foldCarries sum) = 65535 * ((sum + 65534) / 65535) := by
  have hlt := foldCarries_lt sum
  have hmod := foldCarries_mod sum
  have hpos := foldCarries_pos h
  omega

theorem foldCarries_eq_iff {sum : Nat} (h : 0 < sum) : foldCarries sum = 65535 ↔ sum % 65535 = 0 := by
  have hlt := foldCarries_lt sum
  have hmod := foldCarries_mod sum
  have hpos := foldCarries_pos h
  omega

theorem bswap16_toNat (x : UInt16) : (bswap16 x).toNat = x.toNat / 2 ^ 8 + 2 ^ 8 * (x.toNat % 2 ^ 8) := by
  have hx := x.toNat_lt
  have hhi : x.toNat / 2 ^ 8 < 2 ^ 8 := by omega
  have hlow : x.toNat * 2 ^ 8 % 2 ^ 16 = 2 ^ 8 * (x.toNat % 2 ^ 8) := by omega
  simp only [bswap16,UInt16.toNat_or,UInt16.toNat_shiftRight,UInt16.toNat_shiftLeft,Nat.shiftRight_eq_div_pow,
    Nat.shiftLeft_eq]
  rw [show UInt16.toNat 8 % 16 = 8 from rfl,hlow,Nat.or_comm,← Nat.two_pow_add_eq_or_of_lt hhi]
  omega

theorem checksumOf_toNat (sum : Nat) : (checksumOf sum).toNat =
    (65535 - foldCarries sum) / 2 ^ 8 + 2 ^ 8 * ((65535 - foldCarries sum) % 2 ^ 8) := by
  have hlt := foldCarries_lt sum
  rw [checksumOf,bswap16_toNat,UInt16.toNat_not,UInt16.toNat_ofNat',Nat.mod_eq_of_lt hlt]
  rfl

theorem checksumOf_eq_zero {sum : Nat} (h : 0 < sum) : checksumOf sum = 0 ↔ sum % 65535 = 0 := by
  have hlt := foldCarries_lt sum
  rw [← UInt16.toNat_inj,checksumOf_toNat,← foldCarries_eq_iff h,UInt16.toNat_zero]
  omega

end Fold

section Words

def wordOf (a b : UInt8) : Nat := a.toNat + 2 ^ 8 * b.toNat

def wordsOf : List UInt8 → List Nat
  | a :: b :: bytes => wordOf a b :: wordsOf bytes
  | _ => []

theorem wordOf_lt (a b : UInt8) : wordOf a b < 2 ^ 16 := by
  have ha := a.toNat_lt
  have hb := b.toNat_lt
  unfold wordOf
  omega

theorem even_cons_cons {α : Type} {a b : α} {l : List α} (h : (a :: b :: l).length % 2 = 0) :
    l.length % 2 = 0 := by
  simp only [List.length_cons] at h
  omega

theorem partialChecksum_append {l r : List UInt8} (h : l.length % 2 = 0) :
    partialChecksum (l ++ r) = partialChecksum l + partialChecksum r := by
  induction l using partialChecksum.induct with
  | case1 => simp [partialChecksum]
  | case2 a => simp at h
  | case3 a b l ih =>
    simp only [List.cons_append,partialChecksum,ih (even_cons_cons h)]
    omega

theorem wordsOf_append {l r : List UInt8} (h : l.length % 2 = 0) :
    wordsOf (l ++ r) = wordsOf l ++ wordsOf r := by
  induction l using partialChecksum.induct with
  | case1 => rfl
  | case2 a => simp at h
  | case3 a b l ih => simp only [List.cons_append,wordsOf,ih (even_cons_cons h)]

theorem mem_wordsOf {w : Nat} {bytes : List UInt8} (h : w ∈ wordsOf bytes) :
    ∃ l a b r, bytes = l ++ [a,b] ++ r ∧ l.length % 2 = 0 ∧ w = wordOf a b := by
  induction bytes using partialChecksum.induct with
  | case1 => cases h
  | case2 a => cases h
  | case3 a b bytes ih =>
    rcases List.mem_cons.mp h with rfl | h
    · exact ⟨[],a,b,bytes,rfl,rfl,rfl⟩
    · obtain ⟨l,a',b',r,rfl,heven,hw⟩ := ih h
      refine ⟨a :: b :: l,a',b',r,rfl,?_,hw⟩
      simp only [List.length_cons]
      omega

theorem partialChecksum_word {l r : List UInt8} {a b : UInt8} (h : l.length % 2 = 0) :
    partialChecksum (l ++ [a,b] ++ r) = partialChecksum l + wordOf a b + partialChecksum r := by
  rw [List.append_assoc,partialChecksum_append h,List.cons_append,List.cons_append,List.nil_append,
    partialChecksum,wordOf]
  omega

theorem partialChecksum_last {l : List UInt8} {a : UInt8} (h : l.length % 2 = 0) :
    partialChecksum (l ++ [a]) = partialChecksum l + a.toNat := by
  rw [partialChecksum_append h,partialChecksum]

theorem wordOf_be16 (x : UInt16) :
    wordOf (x >>> 8).toUInt8 x.toUInt8 = x.toNat / 2 ^ 8 + 2 ^ 8 * (x.toNat % 2 ^ 8) := by
  have hx := x.toNat_lt
  rw [wordOf,UInt16.toNat_toUInt8,UInt16.toNat_toUInt8,UInt16.toNat_shiftRight,
    show UInt16.toNat 8 % 16 = 8 from rfl,Nat.shiftRight_eq_div_pow]
  omega

theorem wordOf_checksumOf (sum : Nat) :
    wordOf (checksumOf sum >>> 8).toUInt8 (checksumOf sum).toUInt8 = 65535 - foldCarries sum := by
  have hlt := foldCarries_lt sum
  rw [wordOf_be16,checksumOf_toNat]
  omega

theorem partialChecksum_be16 {l r : List UInt8} {x : UInt16} (h : l.length % 2 = 0) :
    partialChecksum (l ++ be16 x ++ r) =
      partialChecksum l + wordOf (x >>> 8).toUInt8 x.toUInt8 + partialChecksum r :=
  partialChecksum_word h

theorem partialChecksum_stored {l r : List UInt8} (h : l.length % 2 = 0) (sum : Nat) :
    partialChecksum (l ++ be16 (checksumOf sum) ++ r) =
      partialChecksum (l ++ be16 0 ++ r) + (65535 - foldCarries sum) := by
  have hzero : wordOf ((0 : UInt16) >>> 8).toUInt8 (0 : UInt16).toUInt8 = 0 := rfl
  rw [partialChecksum_be16 h,partialChecksum_be16 h,wordOf_checksumOf,hzero]
  omega

theorem partialChecksum_le (bytes : List UInt8) :
    partialChecksum bytes ≤ 65535 * ((bytes.length + 1) / 2) := by
  induction bytes using partialChecksum.induct with
  | case1 => simp [partialChecksum]
  | case2 a =>
    have ha := a.toNat_lt
    simp only [partialChecksum,List.length_singleton]
    omega
  | case3 a b bytes ih =>
    have hw := wordOf_lt a b
    simp only [partialChecksum,List.length_cons]
    unfold wordOf at hw
    omega

end Words

section Headers

namespace Ipv4Header

def unsummed (h : Ipv4Header) : Ipv4Header := { h with headerChecksum := 0 }

def before (h : Ipv4Header) : List UInt8 :=
  [h.versionAndHeaderLength,h.dscpAndEcn] ++ be16 h.packetLength ++ be16 h.id ++
    be16 h.flagsAndFragOffset ++ [h.timeToLive,h.protocol]

theorem before_even (h : Ipv4Header) : h.before.length % 2 = 0 := by
  simp [before,be16]

end Ipv4Header

theorem checksumOf_stored (sum : Nat) : checksumOf (sum + (65535 - foldCarries sum)) = 0 := by
  have hlt := foldCarries_lt sum
  have hmod := foldCarries_mod sum
  rcases Nat.eq_zero_or_pos sum with rfl | hpos
  · have hzero : foldCarries 0 = 0 := by
      rw [foldCarries]
      exact if_pos rfl
    rw [hzero]
    exact (checksumOf_eq_zero (by decide)).mpr (by decide)
  · exact (checksumOf_eq_zero (by omega)).mpr (by omega)

theorem header_sum_lt (h : Ipv4Header) : partialChecksum h.bytes < 2 ^ 31 := by
  have hle := partialChecksum_le h.bytes
  rw [h.bytes_length,Ipv4Header.size] at hle
  omega

theorem header_checksum (h : Ipv4Header) :
    Checked.computeHeaderChecksum h = some (checksumOf (partialChecksum h.bytes)) := by
  rw [Checked.computeHeaderChecksum_eq,Checked.int_of_lt (header_sum_lt h),Option.map_some]

theorem header_round_trip (h : Ipv4Header) :
    ∃ stored, Checked.stampHeader h.unsummed = some stored ∧
      Checked.computeHeaderChecksum stored = some 0 := by
  let sum := partialChecksum h.unsummed.bytes
  let stored : Ipv4Header := { h with headerChecksum := checksumOf sum }
  have hsum : partialChecksum stored.bytes = sum + (65535 - foldCarries sum) :=
    partialChecksum_stored h.before_even sum
  refine ⟨stored,?_,?_⟩
  · rw [Checked.stampHeader,header_checksum]
    rfl
  · rw [header_checksum,hsum,checksumOf_stored]

end Headers

end SabaOS.Net
