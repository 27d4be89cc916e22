import SabaOS.Net.Checksum

namespace SabaOS.Net

open SabaOS.Lib

inductive Transport where
  | udp
  | tcp
deriving DecidableEq, Repr

namespace Transport

def protocol : Transport → UInt8
  | udp => protocolUdp
  | tcp => protocolTcp

def headerSize : Transport → Nat
  | udp => 8
  | tcp => 20

def checksumAt : Transport → Nat
  | udp => 6
  | tcp => 16

theorem checksumAt_le (t : Transport) : t.checksumAt + 2 ≤ t.headerSize := by
  cases t <;> decide

theorem checksumAt_even (t : Transport) : t.checksumAt % 2 = 0 := by
  cases t <;> rfl

theorem protocol_pos (t : Transport) : 0 < t.protocol.toNat := by
  cases t <;> decide

end Transport

structure Segment where
  transport : Transport
  data : List UInt8
  header_le : transport.headerSize ≤ data.length
  length_le : data.length ≤ 65535
  unsummed : (data.drop transport.checksumAt).take 2 = be16 0

namespace Segment

def before (s : Segment) : List UInt8 := s.data.take s.transport.checksumAt

def after (s : Segment) : List UInt8 := s.data.drop (s.transport.checksumAt + 2)

def stored (s : Segment) (checksum : UInt16) : List UInt8 := s.before ++ be16 checksum ++ s.after

variable (s : Segment)

theorem before_length : s.before.length = s.transport.checksumAt := by
  have hfield := s.transport.checksumAt_le
  have hheader := s.header_le
  rw [before,List.length_take]
  omega

theorem before_even : s.before.length % 2 = 0 := by
  rw [before_length]
  exact s.transport.checksumAt_even

theorem data_eq : s.data = s.stored 0 := by
  have hafter : s.after = (s.data.drop s.transport.checksumAt).drop 2 := by
    rw [List.drop_drop]
    rfl
  rw [stored,hafter,← s.unsummed,List.append_assoc,List.take_append_drop]
  exact (List.take_append_drop _ _).symm

theorem stored_length (checksum : UInt16) : (s.stored checksum).length = s.data.length := by
  conv_rhs => rw [s.data_eq]
  simp [stored,be16]

theorem set_stored (checksum : UInt16) :
    (s.data.set s.transport.checksumAt (checksum >>> 8).toUInt8).set (s.transport.checksumAt + 1)
      checksum.toUInt8 = s.stored checksum := by
  have hlen := s.before_length
  rw [s.data_eq,stored,stored,List.append_assoc,List.append_assoc,List.set_append_right _ _ (by omega),
    List.set_append_right _ _ (by omega),hlen,Nat.sub_self,Nat.add_sub_cancel_left]
  rfl

end Segment

inductive WordChanged : List UInt8 → List UInt8 → Prop where
  | word (l r : List UInt8) (a b a' b' : UInt8) (even : l.length % 2 = 0)
      (other : wordOf a b % 65535 ≠ wordOf a' b' % 65535) :
      WordChanged (l ++ [a,b] ++ r) (l ++ [a',b'] ++ r)
  | last (l : List UInt8) (a a' : UInt8) (even : l.length % 2 = 0) (other : a ≠ a') :
      WordChanged (l ++ [a]) (l ++ [a'])

def transportSum (srcAddr dstAddr : Ipv4) (protocol : UInt8) (data : List UInt8) : Nat :=
  partialChecksum (pseudoHeader srcAddr dstAddr protocol data.length.toUInt16) + partialChecksum data

namespace Segment

variable (s : Segment) (srcAddr dstAddr : Ipv4)

def sum : Nat := transportSum srcAddr dstAddr s.transport.protocol s.data

def Protected : Prop :=
  ∃ stored, Checked.stampChecksum s.data srcAddr dstAddr s.transport.protocol = some stored ∧
    Checked.ipv4TransportChecksum stored srcAddr dstAddr s.transport.protocol = some 0 ∧
    ∀ received, WordChanged stored received → ∃ checksum, checksum ≠ 0 ∧
      Checked.ipv4TransportChecksum received srcAddr dstAddr s.transport.protocol = some checksum

def Fits : Prop :=
  s.sum srcAddr dstAddr ≤ 65535 * 32767 ∨
    s.sum srcAddr dstAddr ≤ 65535 * 32768 - 2 ^ 15 ∧
      ∀ w ∈ wordsOf s.before ++ wordsOf s.after, 2 ^ 15 ≤ w

end Segment

section Sums

variable {srcAddr dstAddr : Ipv4} {protocol : UInt8} {data data' stored received : List UInt8} {c : UInt16}

theorem transportChecksum_eq : Checked.ipv4TransportChecksum data srcAddr dstAddr protocol =
    (Checked.int (transportSum srcAddr dstAddr protocol data)).map checksumOf :=
  Checked.ipv4TransportChecksum_eq data srcAddr dstAddr protocol

theorem transportChecksum_some :
    Checked.ipv4TransportChecksum data srcAddr dstAddr protocol = some c ↔
      transportSum srcAddr dstAddr protocol data < 2 ^ 31 ∧
        checksumOf (transportSum srcAddr dstAddr protocol data) = c := by
  rw [transportChecksum_eq]
  rcases Nat.lt_or_ge (transportSum srcAddr dstAddr protocol data) (2 ^ 31) with h | h
  · rw [Checked.int_of_lt h,Option.map_some,Option.some_inj]
    exact (and_iff_right h).symm
  · rw [Checked.int_of_le h]
    constructor
    · rintro ⟨⟩
    · rintro ⟨hlt,-⟩
      omega

theorem pseudoHeader_pos (h : 0 < protocol.toNat) (length : UInt16) :
    0 < partialChecksum (pseudoHeader srcAddr dstAddr protocol length) := by
  simp only [pseudoHeader,be32,be16,List.cons_append,List.nil_append,partialChecksum]
  omega

theorem transportSum_pos (h : 0 < protocol.toNat) : 0 < transportSum srcAddr dstAddr protocol data :=
  Nat.add_pos_left (pseudoHeader_pos h _) _

variable (srcAddr dstAddr protocol) in
theorem transportSum_length (h : data.length = data'.length) :
    transportSum srcAddr dstAddr protocol data' + partialChecksum data =
      transportSum srcAddr dstAddr protocol data + partialChecksum data' := by
  rw [transportSum,transportSum,h]
  omega

theorem WordChanged.length (h : WordChanged stored received) : stored.length = received.length := by
  cases h with
  | word l r a b a' b' _ _ => simp
  | last l a a' _ _ => simp

theorem WordChanged.sum (h : WordChanged stored received) :
    ∃ w w', partialChecksum received + w = partialChecksum stored + w' ∧ w % 65535 ≠ w' % 65535 ∧
      (w ∈ wordsOf stored ∧ w' < 2 ^ 16 ∨ w' < 2 ^ 8) := by
  cases h with
  | word l r a b a' b' even other =>
    refine ⟨wordOf a b,wordOf a' b',?_,other,.inl ⟨?_,wordOf_lt a' b'⟩⟩
    · rw [partialChecksum_word even,partialChecksum_word even]
      omega
    · rw [List.append_assoc,wordsOf_append even]
      exact List.mem_append_right _ List.mem_cons_self
  | last l a a' even other =>
    have ha := a.toNat_lt
    have ha' := a'.toNat_lt
    have hne : a.toNat ≠ a'.toNat := fun he => other (UInt8.toNat_inj.mp he)
    refine ⟨a.toNat,a'.toNat,?_,by omega,.inr ha'⟩
    rw [partialChecksum_last even,partialChecksum_last even]
    omega

theorem exists_wordChanged {w : Nat} (h : w ∈ wordsOf stored) (hw : w < 2 ^ 15) :
    ∃ received, WordChanged stored received ∧
      partialChecksum stored + 2 ^ 15 ≤ partialChecksum received := by
  obtain ⟨l,a,b,r,rfl,heven,rfl⟩ := mem_wordsOf h
  rcases Nat.eq_zero_or_pos (wordOf a b) with hzero | hpos
  · have hother : wordOf a b % 65535 ≠ wordOf 254 255 % 65535 := by
      rw [hzero]
      decide
    refine ⟨_,.word l r a b 254 255 heven hother,?_⟩
    rw [partialChecksum_word heven,partialChecksum_word heven,hzero,
      show wordOf 254 255 = 65534 from rfl]
    omega
  · have hother : wordOf a b % 65535 ≠ wordOf 255 255 % 65535 := by
      rw [show wordOf 255 255 = 65535 from rfl]
      omega
    refine ⟨_,.word l r a b 255 255 heven hother,?_⟩
    rw [partialChecksum_word heven,partialChecksum_word heven,show wordOf 255 255 = 65535 from rfl]
    omega

end Sums

namespace Segment

variable (s : Segment) (srcAddr dstAddr : Ipv4)

def checksum : UInt16 := checksumOf (s.sum srcAddr dstAddr)

def storedSum : Nat :=
  transportSum srcAddr dstAddr s.transport.protocol (s.stored (s.checksum srcAddr dstAddr))

theorem sum_pos : 0 < s.sum srcAddr dstAddr := transportSum_pos s.transport.protocol_pos

theorem storedSum_eq : s.storedSum srcAddr dstAddr =
    s.sum srcAddr dstAddr + (65535 - foldCarries (s.sum srcAddr dstAddr)) := by
  have hlen := s.stored_length (s.checksum srcAddr dstAddr)
  have hmove := transportSum_length srcAddr dstAddr s.transport.protocol hlen.symm
  have hdata : partialChecksum s.data = partialChecksum (s.stored 0) := by rw [← s.data_eq]
  have hstored : partialChecksum (s.stored (s.checksum srcAddr dstAddr)) =
      partialChecksum (s.stored 0) + (65535 - foldCarries (s.sum srcAddr dstAddr)) :=
    partialChecksum_stored s.before_even _
  rw [storedSum]
  unfold sum at hstored ⊢
  omega

theorem storedSum_ceil :
    s.storedSum srcAddr dstAddr = 65535 * ((s.sum srcAddr dstAddr + 65534) / 65535) := by
  rw [storedSum_eq]
  exact sum_add_complement (s.sum_pos srcAddr dstAddr)

theorem stampChecksum_eq : Checked.stampChecksum s.data srcAddr dstAddr s.transport.protocol =
    (Checked.ipv4TransportChecksum s.data srcAddr dstAddr s.transport.protocol).map s.stored := by
  rw [Checked.stampChecksum]
  cases Checked.ipv4TransportChecksum s.data srcAddr dstAddr s.transport.protocol with
  | none => rfl
  | some c =>
    rw [Option.map_some,← s.set_stored]
    cases s.transport with
    | udp => rfl
    | tcp => rfl

theorem stampChecksum_some {stored : List UInt8} :
    Checked.stampChecksum s.data srcAddr dstAddr s.transport.protocol = some stored ↔
      s.sum srcAddr dstAddr < 2 ^ 31 ∧ s.stored (s.checksum srcAddr dstAddr) = stored := by
  rw [stampChecksum_eq,Option.map_eq_some_iff]
  constructor
  · rintro ⟨c,hc,rfl⟩
    obtain ⟨hlt,rfl⟩ := transportChecksum_some.mp hc
    exact ⟨hlt,rfl⟩
  · rintro ⟨hlt,rfl⟩
    exact ⟨_,transportChecksum_some.mpr ⟨hlt,rfl⟩,rfl⟩

theorem mem_wordsOf_stored {c : UInt16} {w : Nat} :
    w ∈ wordsOf (s.stored c) ↔
      w ∈ wordsOf s.before ++ wordsOf s.after ∨ w = wordOf (c >>> 8).toUInt8 c.toUInt8 := by
  have hwords : wordsOf (be16 c ++ s.after) = wordOf (c >>> 8).toUInt8 c.toUInt8 :: wordsOf s.after := rfl
  rw [stored,List.append_assoc,wordsOf_append s.before_even,hwords,List.mem_append,List.mem_cons,
    List.mem_append]
  tauto

theorem wordOf_checksum : wordOf (s.checksum srcAddr dstAddr >>> 8).toUInt8 (s.checksum srcAddr dstAddr).toUInt8 +
    s.sum srcAddr dstAddr = s.storedSum srcAddr dstAddr := by
  have hword := wordOf_checksumOf (s.sum srcAddr dstAddr)
  rw [storedSum_eq,checksum]
  omega

variable {srcAddr dstAddr}

theorem received_sum {received : List UInt8}
    (h : WordChanged (s.stored (s.checksum srcAddr dstAddr)) received) :
    transportSum srcAddr dstAddr s.transport.protocol received +
        partialChecksum (s.stored (s.checksum srcAddr dstAddr)) =
      s.storedSum srcAddr dstAddr + partialChecksum received :=
  transportSum_length _ _ _ h.length

theorem received_lt (hfits : s.Fits srcAddr dstAddr) {received : List UInt8}
    (h : WordChanged (s.stored (s.checksum srcAddr dstAddr)) received) :
    transportSum srcAddr dstAddr s.transport.protocol received < 2 ^ 31 := by
  have hceil := s.storedSum_ceil srcAddr dstAddr
  have hsum := s.received_sum h
  obtain ⟨w,w',hmove,-,hw⟩ := h.sum
  rcases hfits with hsmall | ⟨hlarge,hwords⟩
  · rcases hw with ⟨-,hw'⟩ | hw'
    · omega
    · omega
  · rcases hw with ⟨hmem,hw'⟩ | hw'
    · rcases s.mem_wordsOf_stored.mp hmem with hmem | rfl
      · have hbig := hwords w hmem
        omega
      · have hword := s.wordOf_checksum srcAddr dstAddr
        omega
    · omega

theorem received_rejected (hfits : s.Fits srcAddr dstAddr) {received : List UInt8}
    (h : WordChanged (s.stored (s.checksum srcAddr dstAddr)) received) :
    ∃ checksum, checksum ≠ 0 ∧
      Checked.ipv4TransportChecksum received srcAddr dstAddr s.transport.protocol = some checksum := by
  have hceil := s.storedSum_ceil srcAddr dstAddr
  have hsum := s.received_sum h
  have hpos : 0 < transportSum srcAddr dstAddr s.transport.protocol received :=
    transportSum_pos s.transport.protocol_pos
  obtain ⟨w,w',hmove,hother,-⟩ := h.sum
  refine ⟨_,?_,transportChecksum_some.mpr ⟨s.received_lt hfits h,rfl⟩⟩
  intro hzero
  have hmod := (checksumOf_eq_zero hpos).mp hzero
  omega

theorem protected_of_fits (hfits : s.Fits srcAddr dstAddr) : s.Protected srcAddr dstAddr := by
  have hceil := s.storedSum_ceil srcAddr dstAddr
  have hpos : 0 < s.storedSum srcAddr dstAddr := transportSum_pos s.transport.protocol_pos
  have hle : s.sum srcAddr dstAddr ≤ 65535 * 32768 := by
    rcases hfits with h | ⟨h,-⟩
    · omega
    · omega
  refine ⟨s.stored (s.checksum srcAddr dstAddr),?_,?_,fun received h => s.received_rejected hfits h⟩
  · exact (s.stampChecksum_some srcAddr dstAddr).mpr ⟨by omega,rfl⟩
  · refine transportChecksum_some.mpr ⟨?_,(checksumOf_eq_zero hpos).mpr ?_⟩
    · change s.storedSum srcAddr dstAddr < 2 ^ 31
      omega
    · omega

theorem fits_of_protected (h : s.Protected srcAddr dstAddr) : s.Fits srcAddr dstAddr := by
  obtain ⟨stored,hstamp,haccept,hreject⟩ := h
  obtain ⟨-,rfl⟩ := (s.stampChecksum_some srcAddr dstAddr).mp hstamp
  have hlt : s.storedSum srcAddr dstAddr < 2 ^ 31 := (transportChecksum_some.mp haccept).1
  have hceil := s.storedSum_ceil srcAddr dstAddr
  rcases Nat.lt_or_ge (65535 * 32767) (s.sum srcAddr dstAddr) with hlarge | hsmall
  · have hwords : ∀ w ∈ wordsOf (s.stored (s.checksum srcAddr dstAddr)), 2 ^ 15 ≤ w := by
      intro w hw
      by_contra hlow
      obtain ⟨received,hchange,hmore⟩ := exists_wordChanged hw (by omega)
      obtain ⟨c,-,hdefined⟩ := hreject received hchange
      have hfit := (transportChecksum_some.mp hdefined).1
      have hsum := s.received_sum hchange
      omega
    have hchecksum := hwords _ (s.mem_wordsOf_stored.mpr (.inr rfl))
    have hword := s.wordOf_checksum srcAddr dstAddr
    exact .inr ⟨by omega,fun w hw => hwords w (s.mem_wordsOf_stored.mpr (.inl hw))⟩
  · exact .inl hsmall

end Segment

theorem checksum_round_trip_iff (sum : Nat) (h : Ipv4Header) (s : Segment) (srcAddr dstAddr : Ipv4) :
    (Ends foldTurn sum (foldCarries sum) ∧
      (∃ stored, Checked.stampHeader h.unsummed = some stored ∧
        Checked.computeHeaderChecksum stored = some 0) ∧ s.Protected srcAddr dstAddr) ↔
      s.Fits srcAddr dstAddr := by
  constructor
  · rintro ⟨-,-,hs⟩
    exact s.fits_of_protected hs
  · intro hs
    exact ⟨fold_ends sum,header_round_trip h,s.protected_of_fits hs⟩

section Long

theorem partialChecksum_ones (n : Nat) : partialChecksum (List.replicate (2 * n) 255) = 65535 * n := by
  induction n with
  | zero => rfl
  | succ n ih =>
    rw [show 2 * (n + 1) = 2 * n + 1 + 1 by omega,List.replicate_succ,List.replicate_succ,partialChecksum,ih,
      show UInt8.toNat 255 = 255 from rfl]
    omega

theorem partialChecksum_odd_ones (n : Nat) :
    partialChecksum (List.replicate (2 * n + 1) 255) = 65535 * n + 255 := by
  rw [List.replicate_succ',partialChecksum_last (by simp),partialChecksum_ones]
  rfl

def ones : Segment where
  transport := .udp
  data := List.replicate 6 255 ++ be16 0 ++ List.replicate 65527 255
  header_le := by
    rw [List.length_append,List.length_append,List.length_replicate,List.length_replicate]
    decide
  length_le := by
    rw [List.length_append,List.length_append,List.length_replicate,List.length_replicate]
    decide
  unsummed := rfl

theorem ones_sum : ones.sum 0xc0a8fffe 0xc0a8fffd = 2147606654 := by
  have hlen : ones.data.length = 65535 := by
    rw [ones,List.length_append,List.length_append,List.length_replicate,List.length_replicate]
    rfl
  have hdata : partialChecksum ones.data = 65535 * 3 + (65535 * 32763 + 255) := by
    have hodd : ones.data = List.replicate (2 * 3) 255 ++ be16 0 ++ List.replicate (2 * 32763 + 1) 255 := rfl
    rw [hodd,partialChecksum_be16 (by rfl),partialChecksum_ones,partialChecksum_odd_ones]
    rfl
  rw [Segment.sum,transportSum,hlen,hdata]
  rfl

theorem ones_overflow : ¬ones.Protected 0xc0a8fffe 0xc0a8fffd := by
  rintro ⟨stored,hstamp,-⟩
  have hlt := ((ones.stampChecksum_some 0xc0a8fffe 0xc0a8fffd).mp hstamp).1
  rw [ones_sum] at hlt
  omega

end Long

end SabaOS.Net
