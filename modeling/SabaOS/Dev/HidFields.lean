import Mathlib.Algebra.Order.BigOperators.Group.List
import SabaOS.Dev.UsbHid
import SabaOS.Lib.Framing

namespace SabaOS.Dev.Hid

open SabaOS.Lib

def totalBits (items : List InputItem) : Nat := (items.map fun item => item.sizeBits.toNat).sum

structure Report (items : List InputItem) where
  bytes : List UInt8
  packet : bytes.length < 256
  whole : totalBits items ≤ 8 * bytes.length

namespace InputItem

def Sized (item : InputItem) : Prop := item.sizeBits = 1 ∨ item.sizeBits = 8 ∨ item.sizeBits = 16

def Variable (item : InputItem) : Prop := item.isArray = false ∧ item.isConstant = false

def read (item : InputItem) (bytes : List UInt8) (offset : Nat) : Int :=
  if item.sizeBits = 1 then bits bytes offset 1
  else signed item.sizeBits.toNat (bits bytes offset item.sizeBits.toNat)

def events (item : InputItem) (n : Int) (keyStatus : UInt16 → Bool) : List InputEvent :=
  if item.type = evKey then
    if decide (n ≠ 0) ≠ keyStatus item.code then [⟨evKey,item.code,(decide (n ≠ 0)).toUInt32⟩] else []
  else if item.type = evRel then if n ≠ 0 then [⟨evRel,item.code,.ofInt n⟩] else []
  else []

structure Given (item : InputItem) (bytes : List UInt8) (offset : Nat) (v : Visit) : Prop where
  value : v.value = item.read bytes offset
  pushed : v.after.pushed = v.before.pushed ++ item.events (item.read bytes offset) v.before.keyStatus

structure Fine (item : InputItem) (bytes : List UInt8) (offset : Nat) : Prop where
  bit : item.Variable → item.sizeBits = 1 → offset % 32 < 8 ∨ bits bytes offset 1 = 0
  unsupported : item.Variable → item.type = 0 → item.sizeBits = 8 ∨ item.sizeBits = 16 →
    offset % 8 = 0 ∨ bits bytes offset item.sizeBits.toNat = 0
  size : item.type = 0 → ¬item.Sized → offset % 8 = 0 → 8 * bytes.length ≤ offset

section Field

variable {item : InputItem} {bytes : List UInt8} {offset : Nat} {k : Keys} {n : Int} {table : KeycodeTable}

theorem toNat_ofNat (h : offset < 8 * bytes.length) (hlen : bytes.length < 256) :
    (UInt32.ofNat offset).toNat = offset :=
  UInt32.toNat_ofNat_of_lt' (by simp [UInt32.size]; omega)

theorem shifted_bit (b : UInt8) (h : offset < 2 ^ 32) : b.toUInt32 &&& (1 <<< UInt32.ofNat offset) ≠ 0 ↔
    offset % 32 < 8 ∧ b.toNat.testBit (offset % 8) := by
  have hoff : (UInt32.ofNat offset).toNat = offset := UInt32.toNat_ofNat_of_lt' h
  have hmod : offset % 32 < 32 := Nat.mod_lt _ (by decide)
  have hpow : 1 <<< (offset % 32) % 2 ^ 32 = 2 ^ (offset % 32) := by
    rw [Nat.one_shiftLeft,Nat.mod_eq_of_lt (Nat.pow_lt_pow_right (by decide) hmod)]
  have hand : (b.toUInt32 &&& (1 <<< UInt32.ofNat offset)).toNat =
      (b.toNat.testBit (offset % 32)).toNat * 2 ^ (offset % 32) := by
    rw [UInt32.toNat_and,UInt32.toNat_shiftLeft,UInt8.toNat_toUInt32,hoff,UInt32.toNat_one,hpow,Nat.and_two_pow]
  have hne : b.toUInt32 &&& (1 <<< UInt32.ofNat offset) ≠ 0 ↔ b.toNat.testBit (offset % 32) = true := by
    rw [ne_eq,← UInt32.toNat_inj,hand]
    cases b.toNat.testBit (offset % 32) <;> simp
  rw [hne]
  constructor
  · intro hbit
    have hlow : offset % 32 < 8 := by
      by_contra hhigh
      have hb : b.toNat < 2 ^ (offset % 32) :=
        lt_of_lt_of_le b.toNat_lt (Nat.pow_le_pow_right (by decide) (not_lt.mp hhigh))
      rw [Nat.testBit_lt_two_pow hb] at hbit
      cases hbit
    refine ⟨hlow,?_⟩
    rwa [show offset % 8 = offset % 32 by omega]
  · rintro ⟨hlow,hbit⟩
    rwa [show offset % 32 = offset % 8 by omega]

structure Placed (bytes : List UInt8) (offset : Nat) : Prop where
  inside : offset < 8 * bytes.length
  packet : bytes.length < 256

theorem Placed.toNat (h : Placed bytes offset) : (UInt32.ofNat offset).toNat = offset :=
  toNat_ofNat h.inside h.packet

theorem Placed.byte (h : Placed bytes offset) : (UInt32.ofNat offset / 8).toNat = offset / 8 := by
  rw [UInt32.toNat_div,h.toNat]
  rfl

theorem Placed.aligned (h : Placed bytes offset) : UInt32.ofNat offset % 8 = 0 ↔ offset % 8 = 0 := by
  rw [← UInt32.toNat_inj,UInt32.toNat_mod,h.toNat]
  exact Iff.rfl

theorem field_eq (h : Placed bytes offset) : item.field bytes (.ofNat offset) =
    if item.sizeBits = 1 then
      .value (if (bytes.getD (offset / 8) 0).toUInt32 &&& (1 <<< UInt32.ofNat offset) ≠ 0 then 1 else 0)
    else if offset % 8 = 0 then
      if item.sizeBits = 8 then .value (signed 8 (bytes.getD (offset / 8) 0).toNat)
      else if item.sizeBits = 16 then
        if bytes.length ≤ offset / 8 + 1 then .outside
        else
          .value (signed 16 ((bytes.getD (offset / 8) 0).toUInt16 |||
            ((bytes.getD (offset / 8 + 1) 0).toUInt16 <<< 8)).toNat)
      else .unreachable
    else .value 0 := by
  have hinside := h.inside
  have hnot : ¬bytes.length ≤ offset / 8 := by omega
  unfold field
  simp only [h.byte,h.aligned]
  rw [if_neg hnot]

theorem field_outside (h : 8 * bytes.length ≤ offset) (hoff : offset < 2 ^ 32) :
    item.field bytes (.ofNat offset) = .outside := by
  have htoNat : (UInt32.ofNat offset).toNat = offset := UInt32.toNat_ofNat_of_lt' hoff
  have hbyte : bytes.length ≤ (UInt32.ofNat offset / 8).toNat := by
    rw [UInt32.toNat_div,htoNat,show UInt32.toNat 8 = 8 from rfl]
    omega
  unfold field
  exact if_pos hbyte

theorem field_bit (h : Placed bytes offset) (hsize : item.sizeBits = 1) :
    item.field bytes (.ofNat offset) = .value (if offset % 32 < 8 then bits bytes offset 1 else 0) := by
  have hoff : offset < 2 ^ 32 := by
    have hinside := h.inside
    have hpacket := h.packet
    omega
  have hbit := shifted_bit (bytes.getD (offset / 8) 0) hoff
  have hbits : (bits bytes offset 1 : Int) = if (bytes.getD (offset / 8) 0).toNat.testBit (offset % 8) then 1 else 0 := by
    rw [bits_one]
    cases (bytes.getD (offset / 8) 0).toNat.testBit (offset % 8) <;> rfl
  rw [field_eq h,if_pos hsize,hbits]
  congr 1
  split_ifs <;> simp_all

theorem field_byte (h : Placed bytes offset) (hsize : item.sizeBits = 8) (halign : offset % 8 = 0) :
    item.field bytes (.ofNat offset) = .value (signed 8 (bits bytes offset 8)) := by
  have hone : item.sizeBits ≠ 1 := by
    rw [hsize]
    decide
  rw [field_eq h,if_neg hone,if_pos halign,if_pos hsize,bits_byte halign]

theorem word_toNat (low high : UInt8) : (low.toUInt16 ||| (high.toUInt16 <<< 8)).toNat = low.toNat + 256 * high.toNat := by
  have hlow := low.toNat_lt
  have hhigh := high.toNat_lt
  have hshift : (high.toUInt16 <<< 8).toNat = 2 ^ 8 * high.toNat := by
    rw [UInt16.toNat_shiftLeft,UInt8.toNat_toUInt16,Nat.shiftLeft_eq]
    simp
    omega
  rw [UInt16.toNat_or,hshift,UInt8.toNat_toUInt16,Nat.or_comm,← Nat.two_pow_add_eq_or_of_lt hlow]
  omega

theorem field_word (h : Placed bytes offset) (hsize : item.sizeBits = 16) (halign : offset % 8 = 0)
    (hend : offset + 16 ≤ 8 * bytes.length) :
    item.field bytes (.ofNat offset) = .value (signed 16 (bits bytes offset 16)) := by
  have hone : item.sizeBits ≠ 1 ∧ item.sizeBits ≠ 8 := by
    rw [hsize]
    decide
  have hnext : ¬bytes.length ≤ offset / 8 + 1 := by omega
  rw [field_eq h,if_neg hone.1,if_pos halign,if_neg hone.2,if_pos hsize,if_neg hnext,word_toNat,bits_word halign]

theorem field_unaligned (h : Placed bytes offset) (hsize : item.sizeBits ≠ 1) (halign : offset % 8 ≠ 0) :
    item.field bytes (.ofNat offset) = .value 0 := by
  rw [field_eq h,if_neg hsize,if_neg halign]

theorem field_unreachable (h : Placed bytes offset) (hsize : ¬item.Sized) (halign : offset % 8 = 0) :
    item.field bytes (.ofNat offset) = .unreachable := by
  have hone : item.sizeBits ≠ 1 := fun heq => hsize (.inl heq)
  have height : item.sizeBits ≠ 8 := fun heq => hsize (.inr (.inl heq))
  have hsixteen : item.sizeBits ≠ 16 := fun heq => hsize (.inr (.inr heq))
  rw [field_eq h,if_neg hone,if_pos halign,if_neg height,if_neg hsixteen]

theorem report_pushed : (item.report n k).pushed = k.pushed ++ item.events n k.keyStatus := by
  unfold report events Keys.processButton
  split_ifs <;> simp_all [Keys.pushEvent,Keys.set]

theorem supported_iff (h : Placed bytes offset) : item.supported (.ofNat offset) ↔
    item.type = 0 ∨ item.sizeBits = 1 ∨ offset % 8 = 0 ∧ (item.sizeBits = 8 ∨ item.sizeBits = 16) := by
  simp only [supported,Bool.or_eq_true,Bool.and_eq_true,decide_eq_true_eq,h.aligned,or_assoc]

def Reads (item : InputItem) (bytes : List UInt8) (offset : Nat) : Prop :=
  ∃ n, item.field bytes (.ofNat offset) = .value n ∧ (item.Variable → item.Sized → n = item.read bytes offset)

theorem reads_value (h : item.field bytes (.ofNat offset) = .value n) : item.Reads bytes offset ↔
    (item.Variable → item.Sized → n = item.read bytes offset) := by
  constructor
  · rintro ⟨m,hm,hread⟩
    cases h.symm.trans hm
    exact hread
  · intro hread
    exact ⟨n,h,hread⟩

theorem reads_bit_iff (h : Placed bytes offset) (hsize : item.sizeBits = 1) :
    item.Reads bytes offset ↔ item.Fine bytes offset := by
  have hread : item.read bytes offset = bits bytes offset 1 := if_pos hsize
  have hneed : (if offset % 32 < 8 then (bits bytes offset 1 : Int) else 0) = bits bytes offset 1 ↔
      offset % 32 < 8 ∨ bits bytes offset 1 = 0 := by
    split_ifs with hlow
    · simp [hlow]
    · rw [eq_comm]
      simp [hlow]
  rw [reads_value (field_bit h hsize),hread,hneed]
  constructor
  · intro hvalue
    refine ⟨fun hvar _ => hvalue hvar (.inl hsize),?_,fun _ hsized => absurd (.inl hsize) hsized⟩
    rintro - - (hother | hother)
    · cases hsize.symm.trans hother
    · cases hsize.symm.trans hother
  · intro hfine hvar _
    exact hfine.bit hvar hsize

theorem reads_aligned_iff (h : Placed bytes offset) (hend : offset + item.sizeBits.toNat ≤ 8 * bytes.length)
    (hsize : item.sizeBits ≠ 1) (halign : offset % 8 = 0) (htype : item.Sized ∨ item.type = 0) :
    item.Reads bytes offset ↔ item.Fine bytes offset := by
  have hread : item.read bytes offset = signed item.sizeBits.toNat (bits bytes offset item.sizeBits.toNat) :=
    if_neg hsize
  by_cases hsized : item.Sized
  · have hfine : item.Fine bytes offset := ⟨fun _ hone => absurd hone hsize,fun _ _ _ => .inl halign,
      fun _ hnot => absurd hsized hnot⟩
    refine iff_of_true ?_ hfine
    rcases hsized with hone | height | hsixteen
    · exact absurd hone hsize
    · rw [reads_value (field_byte h height halign),hread,height]
      exact fun _ _ => rfl
    · rw [hsixteen] at hend
      rw [reads_value (field_word h hsixteen halign hend),hread,hsixteen]
      exact fun _ _ => rfl
  · refine iff_of_false ?_ ?_
    · rintro ⟨n,hn,-⟩
      cases (field_unreachable h hsized halign).symm.trans hn
    · intro hfine
      have hout := hfine.size (htype.resolve_left hsized) hsized halign
      exact absurd h.inside (not_lt.mpr hout)

theorem reads_unaligned_iff (h : Placed bytes offset) (hsize : item.sizeBits ≠ 1) (halign : offset % 8 ≠ 0)
    (htype : item.type = 0) : item.Reads bytes offset ↔ item.Fine bytes offset := by
  have hread : item.read bytes offset = signed item.sizeBits.toNat (bits bytes offset item.sizeBits.toNat) :=
    if_neg hsize
  have hlt : bits bytes offset item.sizeBits.toNat < 2 ^ item.sizeBits.toNat := bits_lt
  have hzero := signed_eq_zero hlt
  rw [reads_value (field_unaligned h hsize halign),hread,eq_comm,hzero]
  constructor
  · intro hvalue
    refine ⟨fun _ hone => absurd hone hsize,fun hvar _ hsized => .inr (hvalue hvar (.inr hsized)),?_⟩
    exact fun _ _ hzero => absurd hzero halign
  · intro hfine hvar hsized
    have hwide := hfine.unsupported hvar htype (hsized.resolve_left hsize)
    exact hwide.resolve_left halign

theorem reads_iff_fine (h : Placed bytes offset) (hend : offset + item.sizeBits.toNat ≤ 8 * bytes.length)
    (hsupported : item.supported (.ofNat offset)) : item.Reads bytes offset ↔ item.Fine bytes offset := by
  rw [supported_iff h] at hsupported
  by_cases hone : item.sizeBits = 1
  · exact reads_bit_iff h hone
  · rcases hsupported with htype | hsize | ⟨halign,hsize⟩
    · by_cases halign : offset % 8 = 0
      · exact reads_aligned_iff h hend hone halign (.inr htype)
      · exact reads_unaligned_iff h hone halign htype
    · exact absurd hsize hone
    · exact reads_aligned_iff h hend hone halign (.inl (.inr hsize))

end Field

end InputItem

def Linked : Keys → List Visit → Keys → Prop
  | k,[],k' => k = k'
  | k,v :: visits,k' => v.before = k ∧ Linked v.after visits k'

def Decodes (table : KeycodeTable) (items : List InputItem) (bytes : List UInt8) (k : Keys) : Prop :=
  ∃ r, event table bytes items k = some r ∧ Linked k r.visits r.keys ∧ ∀ pre item post, items = pre ++ item :: post →
    item.Variable → item.Sized → ∃ v, r.visits[pre.length]? = some v ∧ item.Given bytes (totalBits pre) v

section Loop

variable {table : KeycodeTable} {items : List InputItem} {item : InputItem} {bytes : List UInt8} {k : Keys}
variable {offset : Nat} {r : Reported}

theorem totalBits_cons : totalBits (item :: items) = item.sizeBits.toNat + totalBits items := List.sum_cons

def LoopDecodes (table : KeycodeTable) (bytes : List UInt8) (offset : Nat) (items : List InputItem) (k : Keys) : Prop :=
  ∃ r, eventLoop table bytes (.ofNat offset) items k = some r ∧ ∀ pre item post, items = pre ++ item :: post →
    item.Variable → item.Sized → ∃ v, r.visits[pre.length]? = some v ∧ item.Given bytes (offset + totalBits pre) v

theorem next_offset : UInt32.ofNat offset + item.sizeBits = UInt32.ofNat (offset + item.sizeBits.toNat) := by
  rw [UInt32.ofNat_add,UInt32.ofNat_toNat]

theorem field_not_outside (h : InputItem.Placed bytes offset) (hend : offset + item.sizeBits.toNat ≤ 8 * bytes.length) :
    item.field bytes (.ofNat offset) ≠ .outside := by
  intro hfield
  rw [InputItem.field_eq h] at hfield
  split_ifs at hfield with hone halign height hsixteen hout
  rw [hsixteen,show UInt32.toNat 16 = 16 from rfl] at hend
  omega

theorem eventLoop_cons {n : Int} (h : item.field bytes (.ofNat offset) = .value n) :
    eventLoop table bytes (.ofNat offset) (item :: items) k = some r ↔
      ∃ r', eventLoop table bytes (.ofNat (offset + item.sizeBits.toNat)) items (item.handle table n k).2 = some r' ∧
        r = ⟨(item.handle table n k).1 :: r'.inputItems,r'.keys,⟨n,k,(item.handle table n k).2⟩ :: r'.visits⟩ := by
  simp only [eventLoop,h,next_offset]
  cases eventLoop table bytes (.ofNat (offset + item.sizeBits.toNat)) items (item.handle table n k).2 with
  | none => simp
  | some r' => simp [eq_comm]

theorem eventLoop_unreachable (h : item.field bytes (.ofNat offset) = .unreachable) :
    eventLoop table bytes (.ofNat offset) (item :: items) k = none := by
  simp only [eventLoop,h]

theorem eventLoop_linked {bitOffset : UInt32} (h : eventLoop table bytes bitOffset items k = some r) :
    Linked k r.visits r.keys := by
  induction items generalizing bitOffset k r with
  | nil =>
    cases h
    exact rfl
  | cons item items ih =>
    simp only [eventLoop] at h
    split at h
    · cases h
      exact rfl
    · cases h
    · split at h
      · cases h
      · rename_i hrest
        cases h
        exact ⟨rfl,ih hrest⟩

theorem handle_given {n : Int} (hvar : item.Variable) (h : n = item.read bytes offset) :
    item.Given bytes offset ⟨n,k,(item.handle table n k).2⟩ := by
  have hhandle : (item.handle table n k).2 = item.report n k := by
    rw [InputItem.handle,hvar.1,hvar.2]
    rfl
  refine ⟨h,?_⟩
  rw [hhandle,← h]
  exact InputItem.report_pushed

theorem loopDecodes_cons (h : InputItem.Placed bytes offset) (hend : offset + item.sizeBits.toNat ≤ 8 * bytes.length) :
    LoopDecodes table bytes offset (item :: items) k ↔ ∃ n, item.field bytes (.ofNat offset) = .value n ∧
      (item.Variable → item.Sized → n = item.read bytes offset) ∧
      LoopDecodes table bytes (offset + item.sizeBits.toNat) items (item.handle table n k).2 := by
  cases hf : item.field bytes (.ofNat offset) with
  | outside => exact absurd hf (field_not_outside h hend)
  | unreachable =>
    refine iff_of_false ?_ ?_
    · rintro ⟨r,hr,-⟩
      cases (eventLoop_unreachable hf).symm.trans hr
    · rintro ⟨n,hn,-⟩
      cases hn
  | value n =>
    constructor
    · rintro ⟨r,hr,hall⟩
      obtain ⟨r',hr',rfl⟩ := (eventLoop_cons hf).mp hr
      obtain ⟨hhead,htail⟩ := forall_split_cons.mp hall
      refine ⟨n,rfl,?_,r',hr',?_⟩
      · intro hvar hsized
        obtain ⟨v,hv,hgiven⟩ := hhead hvar hsized
        cases hv
        exact hgiven.value
      · intro pre x post hl hvar hsized
        obtain ⟨v,hv,hgiven⟩ := htail pre x post hl hvar hsized
        rw [totalBits_cons,← Nat.add_assoc] at hgiven
        exact ⟨v,hv,hgiven⟩
    · rintro ⟨m,hm,hread,r',hr',hall⟩
      cases hm
      refine ⟨_,(eventLoop_cons hf).mpr ⟨r',hr',rfl⟩,forall_split_cons.mpr ⟨?_,?_⟩⟩
      · intro hvar hsized
        exact ⟨_,rfl,handle_given hvar (hread hvar hsized)⟩
      · intro pre x post hl hvar hsized
        obtain ⟨v,hv,hgiven⟩ := hall pre x post hl hvar hsized
        rw [totalBits_cons,← Nat.add_assoc]
        exact ⟨v,hv,hgiven⟩

theorem fine_of_empty (hsize : item.sizeBits = 0) (h : 8 * bytes.length ≤ offset) : item.Fine bytes offset := by
  have hnot : item.sizeBits ≠ 1 ∧ item.sizeBits ≠ 8 ∧ item.sizeBits ≠ 16 := by
    rw [hsize]
    decide
  refine ⟨fun _ hone => absurd hone hnot.1,?_,fun _ _ _ => h⟩
  rintro - - (height | hsixteen)
  · exact absurd height hnot.2.1
  · exact absurd hsixteen hnot.2.2

theorem empty_of_totalBits (h : totalBits items = 0) : ∀ item ∈ items, item.sizeBits = 0 := by
  intro item hmem
  have hle : item.sizeBits.toNat ≤ totalBits items :=
    List.single_le_sum (fun _ _ => Nat.zero_le _) _ (List.mem_map_of_mem hmem)
  exact UInt32.toNat_inj.mp (by rw [UInt32.toNat_zero]; omega)

theorem loopDecodes_end (hout : 8 * bytes.length ≤ offset) (hoff : offset < 2 ^ 32)
    (h : totalBits (item :: items) = 0) : LoopDecodes table bytes offset (item :: items) k ∧
      ∀ pre x post, item :: items = pre ++ x :: post → x.Fine bytes (offset + totalBits pre) := by
  have hempty := empty_of_totalBits h
  have hmem : ∀ {pre x post}, item :: items = pre ++ x :: post → x.sizeBits = 0 := by
    intro pre x post hl
    refine hempty x ?_
    rw [hl]
    exact List.mem_append_right pre List.mem_cons_self
  refine ⟨⟨⟨item :: items,k,[]⟩,?_,?_⟩,?_⟩
  · simp only [eventLoop,InputItem.field_outside hout hoff]
  · intro pre x post hl _ hsized
    rw [InputItem.Sized,hmem hl] at hsized
    exact absurd hsized (by decide)
  · intro pre x post hl
    exact fine_of_empty (hmem hl) (le_trans hout (Nat.le_add_right _ _))

theorem loopDecodes_iff_fine (hpacket : bytes.length < 256) (hend : offset + totalBits items ≤ 8 * bytes.length)
    (hsupported : allSupported (.ofNat offset) items) : LoopDecodes table bytes offset items k ↔
      ∀ pre item post, items = pre ++ item :: post → item.Fine bytes (offset + totalBits pre) := by
  induction items generalizing offset k with
  | nil =>
    refine iff_of_true ⟨⟨[],k,[]⟩,rfl,?_⟩ ?_
    · intro pre x post hl
      exact absurd hl (by simp)
    · intro pre x post hl
      exact absurd hl (by simp)
  | cons item items ih =>
    rw [totalBits_cons] at hend
    by_cases hinside : offset < 8 * bytes.length
    · have hplaced : InputItem.Placed bytes offset := ⟨hinside,hpacket⟩
      have hitem : offset + item.sizeBits.toNat ≤ 8 * bytes.length := by omega
      rw [allSupported,Bool.and_eq_true,next_offset] at hsupported
      have hhead := InputItem.reads_iff_fine hplaced hitem hsupported.1
      have hrest := fun k' => ih (k := k') (by omega) hsupported.2
      rw [loopDecodes_cons hplaced hitem,forall_split_cons]
      simp only [totalBits_cons,← Nat.add_assoc]
      constructor
      · rintro ⟨n,hn,hread,htail⟩
        exact ⟨hhead.mp ⟨n,hn,hread⟩,(hrest _).mp htail⟩
      · rintro ⟨hfine,htail⟩
        obtain ⟨n,hn,hread⟩ := hhead.mpr hfine
        exact ⟨n,hn,hread,(hrest _).mpr htail⟩
    · have hempty : totalBits (item :: items) = 0 := by
        rw [totalBits_cons]
        omega
      have hout : LoopDecodes table bytes offset (item :: items) k ∧ _ :=
        loopDecodes_end (not_lt.mp hinside) (by omega) hempty
      exact iff_of_true hout.1 hout.2

end Loop

theorem Accepts.supported {table : KeycodeTable} {data : Nat → UInt8} {length : UInt16} {old items : List InputItem}
    (h : Accepts table data length old items) : allSupported 0 items := by
  obtain ⟨p,-,hstop⟩ := Ends.last h
  unfold parseStep at hstop
  split_ifs at hstop
  have hfinish : p.finish = (true,items) := Turn.stop.inj hstop
  unfold Parser.finish at hfinish
  split_ifs at hfinish with hok
  · cases hfinish
    exact (Bool.and_eq_true _ _ ▸ hok).2
  · cases hfinish

theorem decodes_iff (table : KeycodeTable) (data : Nat → UInt8) (length : UInt16) (old items : List InputItem)
    (h : Accepts table data length old items) (report : Report items) (k : Keys) :
    Decodes table items report.bytes k ↔
      ∀ pre item post, items = pre ++ item :: post → item.Fine report.bytes (totalBits pre) := by
  have hwhole : 0 + totalBits items ≤ 8 * report.bytes.length := by
    rw [Nat.zero_add]
    exact report.whole
  have hloop : LoopDecodes table report.bytes 0 items k ↔ _ := loopDecodes_iff_fine report.packet hwhole h.supported
  simp only [LoopDecodes,Nat.zero_add] at hloop
  rw [← hloop]
  constructor
  · rintro ⟨r,hr,-,hall⟩
    exact ⟨r,hr,hall⟩
  · rintro ⟨r,hr,hall⟩
    exact ⟨r,hr,eventLoop_linked hr,hall⟩

section Padded

def padded : List UInt8 :=
  [0x05,0x07,0x75,0x08,0x95,0x01,0x81,0x01,0x75,0x01,0x09,0xe0,0x81,0x02,0x75,0x07,0x81,0x01]

def controlTable : KeycodeTable := fun usage => if usage = 0xe0 then 29 else 240

def paddedItems : List InputItem :=
  [{ sizeBits := 8, isConstant := true },{ sizeBits := 1, type := evKey, code := 29 },
    { sizeBits := 7, isConstant := true }]

theorem padded_accepts : Accepts controlTable (fun i => padded.getD i 0) 18 [] paddedItems :=
  ⟨10,by decide +kernel⟩

def released : Report paddedItems := ⟨[0,0],by decide,by decide⟩

theorem padded_decodes_iff : Decodes controlTable paddedItems released.bytes {} ↔
    ∀ pre item post, paddedItems = pre ++ item :: post → item.Fine released.bytes (totalBits pre) :=
  decodes_iff controlTable (fun i => padded.getD i 0) 18 [] paddedItems padded_accepts released {}

def pressed : Report paddedItems := ⟨[0,1],by decide,by decide⟩

theorem pressed_unseen : Accepts controlTable (fun i => padded.getD i 0) 18 [] paddedItems ∧
    bits pressed.bytes 8 1 = 1 ∧
    (event controlTable pressed.bytes paddedItems {}).map (fun r => r.keys.pushed) = some [] ∧
    ¬Decodes controlTable paddedItems pressed.bytes {} := by
  refine ⟨padded_accepts,by decide,by decide +kernel,?_⟩
  rintro ⟨r,hr,-,hall⟩
  have hvalues : (event controlTable pressed.bytes paddedItems {}).map (fun r => r.visits.map fun v => v.value) =
      some [0,0,0] := by decide +kernel
  obtain ⟨v,hv,hgiven⟩ := hall [{ sizeBits := 8, isConstant := true }] _ _ rfl ⟨rfl,rfl⟩ (.inl rfl)
  rw [hr] at hvalues
  have hvisits : r.visits.map (fun v => v.value) = [0,0,0] := Option.some.inj hvalues
  have hvalue : v.value = 0 := by
    have hget : (r.visits.map fun v => v.value)[1]? = some v.value := by
      rw [List.getElem?_map]
      exact congrArg _ hv
    rw [hvisits] at hget
    exact (Option.some.inj hget).symm
  exact absurd (hvalue.symm.trans hgiven.value) (by decide)

end Padded

end SabaOS.Dev.Hid
