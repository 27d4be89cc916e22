import SabaOS.Lib.Framing
import SabaOS.Net.Ipv4

namespace SabaOS.Net

open SabaOS.Klib SabaOS.Lib

def Ipv4Header.fragOffsetField (h : Ipv4Header) : Nat := (h.flagsAndFragOffset &&& 0x1fff).toNat

def Ipv4Header.moreFragments (h : Ipv4Header) : Bool := h.getFlags &&& flagMoreFragments ≠ 0

@[simp] theorem stampChecksum_fragOffsetField (h : Ipv4Header) :
    h.stampChecksum.fragOffsetField = h.fragOffsetField := rfl

@[simp] theorem stampChecksum_moreFragments (h : Ipv4Header) :
    h.stampChecksum.moreFragments = h.moreFragments := rfl

def payloads (fragments : List Fragment) : List UInt8 := (fragments.map (·.payload)).flatten

structure Fragmented (mtu : Nat) (data : List UInt8) (fragments : List Fragment) : Prop where
  concat : payloads fragments = data
  offset : ∀ i f, fragments[i]? = some f →
    f.header.fragOffsetField * 8 = (payloads (fragments.take i)).length
  aligned : ∀ i f, fragments[i]? = some f → i + 1 < fragments.length → 8 ∣ f.payload.length
  nonempty : ∀ f ∈ fragments, f.payload ≠ []
  fits : ∀ f ∈ fragments, f.bytes.length ≤ mtu
  more : ∀ i f, fragments[i]? = some f → (f.header.moreFragments ↔ i + 1 < fragments.length)

theorem maxFragmentLength_spec {mtu : Nat} (hm : 28 ≤ mtu) (hlt : mtu < 2 ^ 64) :
    8 ∣ maxFragmentLength mtu ∧ 8 ≤ maxFragmentLength mtu ∧ maxFragmentLength mtu + 20 ≤ mtu := by
  have hsub : usub mtu Ipv4Header.size = mtu - 20 := usub_of_le hlt (by simp only [Ipv4Header.size]; omega)
  rw [maxFragmentLength,hsub,alignDown]
  split_ifs with h
  · refine ⟨Nat.dvd_mul_left _ _,?_,?_⟩ <;> omega
  · refine ⟨Nat.dvd_of_mod_eq_zero (by simpa using h),?_,?_⟩ <;> omega

section Flags

variable (h : Ipv4Header) {offset : UInt16}

theorem flags_toNat (last : Bool) (offset : UInt16) :
    (h.setFlagsAndFragOffset (if last then 0 else flagMoreFragments) offset).flagsAndFragOffset.toNat =
      2 ^ 13 * (if last then 0 else 1) + offset.toNat / 8 := by
  have hlt := offset.toNat_lt
  have hdiv : offset.toNat / 8 < 2 ^ 13 := by omega
  rw [Nat.two_pow_add_eq_or_of_lt hdiv]
  cases last <;> simp [Ipv4Header.setFlagsAndFragOffset,flagMoreFragments,Nat.shiftRight_eq_div_pow]

theorem fragOffsetField_set (last : Bool) (h8 : 8 ∣ offset.toNat) :
    (h.setFlagsAndFragOffset (if last then 0 else flagMoreFragments) offset).fragOffsetField * 8 =
      offset.toNat := by
  have hlt := offset.toNat_lt
  rw [Ipv4Header.fragOffsetField,UInt16.toNat_and,flags_toNat,
    show (0x1fff : UInt16).toNat = 2 ^ 13 - 1 from rfl,Nat.and_two_pow_sub_one_eq_mod]
  omega

theorem moreFragments_set (last : Bool) (offset : UInt16) :
    (h.setFlagsAndFragOffset (if last then 0 else flagMoreFragments) offset).moreFragments = !last := by
  have hlt := offset.toNat_lt
  have hbit : ∀ x : UInt16, (x &&& flagMoreFragments ≠ 0) ↔ x.toNat % 2 = 1 := by
    intro x
    rw [ne_eq,← UInt16.toNat_inj,UInt16.toNat_and,show flagMoreFragments.toNat = 2 ^ 1 - 1 from rfl,
      Nat.and_two_pow_sub_one_eq_mod]
    simp
  simp only [Ipv4Header.moreFragments,hbit]
  rw [Ipv4Header.getFlags,UInt16.toNat_and,UInt16.toNat_shiftRight,flags_toNat,
    show (0x7 : UInt16).toNat = 2 ^ 3 - 1 from rfl,Nat.and_two_pow_sub_one_eq_mod,
    Nat.shiftRight_eq_div_pow]
  cases last <;> simp <;> omega

end Flags

structure Cut (mtu : Nat) (data : List UInt8) (offset : Nat) (last : Bool) (f : Fragment) : Prop where
  payload : f.payload = (data.drop offset).take (maxFragmentLength mtu)
  offset : 8 ∣ offset → f.header.fragOffsetField * 8 = offset
  more : f.header.moreFragments = !last
  fits : f.bytes.length ≤ mtu

theorem fragment_cut {iface : Interface} {job : Job} {data : List UInt8} {offset : Nat} {last : Bool}
    {f : Fragment} (hlen : data.length ≤ 65515) (hoff : offset ≤ data.length)
    (h : iface.fragment job (data.drop offset)
      (min (maxFragmentLength iface.mtu) (data.length - offset)).toUInt16 offset.toUInt16 last = some f) :
    Cut iface.mtu data offset last f := by
  have hfrag : (min (maxFragmentLength iface.mtu) (data.length - offset)).toUInt16.toNat =
      min (maxFragmentLength iface.mtu) (data.length - offset) := by
    rw [Nat.toUInt16_eq,UInt16.toNat_ofNat_of_lt']
    simp only [UInt16.size]
    omega
  have hoffset : offset.toUInt16.toNat = offset := by
    rw [Nat.toUInt16_eq,UInt16.toNat_ofNat_of_lt']
    simp only [UInt16.size]
    omega
  simp only [Interface.fragment,hfrag,Option.ite_none_right_eq_some] at h
  obtain ⟨hfits,hf⟩ := h
  have hf := Option.some.inj hf
  subst hf
  refine ⟨?_,fun h8 => ?_,?_,?_⟩
  · rw [List.take_eq_take_iff,List.length_drop]
    omega
  · rw [stampChecksum_fragOffsetField,fragOffsetField_set _ last (hoffset.symm ▸ h8),hoffset]
  · rw [stampChecksum_moreFragments,moreFragments_set]
  · simp only [Fragment.bytes,List.length_append,Ipv4Header.bytes_length,List.length_take,
      List.length_drop]
    simp only [Ipv4Header.size] at *
    omega

theorem fragment_isSome {iface : Interface} (job : Job) (data : List UInt8) (offset : UInt16)
    (n : Nat) (last : Bool) (hm : 28 ≤ iface.mtu) (hlt : iface.mtu < 2 ^ 64) :
    (iface.fragment job data (min (maxFragmentLength iface.mtu) n).toUInt16 offset last).isSome := by
  have hmax := (maxFragmentLength_spec hm hlt).2.2
  have hle : (min (maxFragmentLength iface.mtu) n).toUInt16.toNat ≤ maxFragmentLength iface.mtu := by
    rw [Nat.toUInt16_eq,UInt16.toNat_ofNat']
    exact (Nat.mod_le _ _).trans (Nat.min_le_left _ _)
  rw [Interface.fragment,if_pos (by simp only [Ipv4Header.size]; omega)]
  rfl

section Loop

variable {iface : Interface} {job : Job} {data : List UInt8} {sendPacket : Nat → Int}
  {num left i : Nat} {fs : List Fragment}

theorem sendFrom_isSome (hm : 28 ≤ iface.mtu) (hlt : iface.mtu < 2 ^ 64) (offset : Nat) :
    (iface.sendFrom job data sendPacket num left i offset).isSome := by
  induction left generalizing i offset with
  | zero => rfl
  | succ left ih =>
    obtain ⟨f,hf⟩ := Option.isSome_iff_exists.mp (fragment_isSome job (data.drop offset)
      offset.toUInt16 (usub data.length offset) (decide (i = usub num 1)) hm hlt)
    obtain ⟨rest,hr⟩ := Option.isSome_iff_exists.mp
      (ih (i := i + 1) (uadd offset (maxFragmentLength iface.mtu)))
    simp only [Interface.sendFrom,hf,hr,Option.bind_eq_bind,Option.bind_some]
    split_ifs <;> rfl

theorem sendFrom_ret {sending : Sending} (hsent : ∀ i, ¬sendPacket i < 0) (offset : Nat)
    (h : iface.sendFrom job data sendPacket num left i offset = some sending) : sending.ret = 0 := by
  induction left generalizing i offset sending with
  | zero =>
    cases h
    rfl
  | succ left ih =>
    simp only [Interface.sendFrom,if_neg (hsent i),Option.bind_eq_bind,Option.bind_eq_some_iff] at h
    obtain ⟨f,-,rest,hrec,h⟩ := h
    rw [← Option.some.inj h]
    change rest.ret = 0
    exact ih (uadd offset (maxFragmentLength iface.mtu)) hrec

theorem sendFrom_cuts (hlen : data.length ≤ 65515) (hnum : i + left = num) (hlt : num < 2 ^ 64)
    (hcover : ∀ j, j < num → j * maxFragmentLength iface.mtu ≤ data.length)
    (h : iface.sendFrom job data sendPacket num left i (i * maxFragmentLength iface.mtu) =
      some ⟨fs,0⟩) :
    fs.length = left ∧ ∀ k f, fs[k]? = some f →
      Cut iface.mtu data ((i + k) * maxFragmentLength iface.mtu) (decide (i + k + 1 = num)) f := by
  induction left generalizing i fs with
  | zero =>
    cases h
    exact ⟨rfl,fun k f hk => by simp at hk⟩
  | succ left ih =>
    have hi := hcover i (by omega)
    have hlast : usub num 1 = num - 1 := usub_of_le hlt (by omega)
    have hrest : usub data.length (i * maxFragmentLength iface.mtu) =
      data.length - i * maxFragmentLength iface.mtu := usub_of_le (by omega) hi
    have hnext : i + 1 < num → uadd (i * maxFragmentLength iface.mtu) (maxFragmentLength iface.mtu) =
        (i + 1) * maxFragmentLength iface.mtu := by
      intro hlt'
      have hle := hcover (i + 1) hlt'
      rw [Nat.add_mul,Nat.one_mul] at hle ⊢
      exact uadd_of_lt (by omega)
    simp only [Interface.sendFrom,hlast,hrest,Option.bind_eq_bind,Option.bind_eq_some_iff] at h
    obtain ⟨f,hf,h⟩ := h
    have hcut := fragment_cut hlen hi hf
    split_ifs at h with herr
    · simp only [Option.pure_def,Option.some.injEq,Sending.mk.injEq] at h
      omega
    obtain ⟨⟨fs',ret⟩,hrec,h⟩ := Option.bind_eq_some_iff.mp h
    simp only [Option.pure_def,Option.some.injEq,Sending.mk.injEq] at h
    obtain ⟨rfl,rfl⟩ := h
    have htail : fs'.length = left ∧ ∀ k f, fs'[k]? = some f → Cut iface.mtu data
        ((i + 1 + k) * maxFragmentLength iface.mtu) (decide (i + 1 + k + 1 = num)) f := by
      cases left with
      | zero =>
        cases hrec
        exact ⟨rfl,fun k f hk => by simp at hk⟩
      | succ left =>
        rw [hnext (by omega)] at hrec
        exact ih (by omega) hrec
    refine ⟨by rw [List.length_cons,htail.1],?_⟩
    intro k g hk
    cases k with
    | zero =>
      cases hk
      have hdec : decide (i = num - 1) = decide (i + 0 + 1 = num) := by
        rw [decide_eq_decide]
        omega
      rwa [← hdec]
    | succ k =>
      have hcut' := htail.2 k g hk
      rwa [show i + 1 + k = i + (k + 1) by omega] at hcut'

end Loop

def Cuts (mtu : Nat) (data : List UInt8) (fs : List Fragment) : Prop :=
  fs.length = data.length / maxFragmentLength mtu + 1 ∧ ∀ k f, fs[k]? = some f →
    Cut mtu data (k * maxFragmentLength mtu) (decide (k + 1 = fs.length)) f

section Packet

variable {mtu : Nat} {data : List UInt8} {fs : List Fragment}

theorem cover_le {n j size : Nat} (hj : j < n / size + 1) : j * size ≤ n :=
  (Nat.mul_le_mul_right size (Nat.lt_succ_iff.mp hj)).trans (Nat.div_mul_le_self n size)

theorem send_cuts {iface : Interface} {targetIp : Ipv4} {targetMac : Mac} {protocol : UInt8}
    {sendPacket : Nat → Int} (hlen : data.length ≤ 65515)
    (h : iface.send data targetIp targetMac protocol sendPacket = some ⟨fs,0⟩) :
    Cuts iface.mtu data fs := by
  have hdiv := Nat.div_le_self data.length (maxFragmentLength iface.mtu)
  have hstart : iface.sendFrom ⟨targetIp,targetMac,iface.ipv4PacketId.toUInt16,protocol⟩ data
      sendPacket (data.length / maxFragmentLength iface.mtu + 1)
      (data.length / maxFragmentLength iface.mtu + 1) 0 (0 * maxFragmentLength iface.mtu) =
        some ⟨fs,0⟩ := by
    rw [Nat.zero_mul]
    exact h
  obtain ⟨hcount,hcuts⟩ := sendFrom_cuts hlen (Nat.zero_add _) (by omega) (fun j => cover_le) hstart
  refine ⟨hcount,fun k f hk => ?_⟩
  have hcut := hcuts k f hk
  rw [Nat.zero_add] at hcut
  rwa [hcount]

theorem Cuts.pieces (h : Cuts mtu data fs) :
    fs.map (·.payload) = pieces (maxFragmentLength mtu) fs.length data := by
  apply List.ext_getElem?
  intro k
  by_cases hk : k < fs.length
  · rw [pieces_getElem? _ hk,List.getElem?_map,List.getElem?_eq_getElem hk,Option.map_some]
    exact congrArg some (h.2 k fs[k] (List.getElem?_eq_getElem hk)).payload
  · rw [List.getElem?_eq_none (by simpa using hk),
      List.getElem?_eq_none (by rw [pieces_length]; omega)]

theorem Cuts.payload_length (h : Cuts mtu data fs) {k : Nat} {f : Fragment} (hk : fs[k]? = some f)
    (hlast : k + 1 < fs.length) : f.payload.length = maxFragmentLength mtu := by
  rw [(h.2 k f hk).payload]
  exact piece_length (cover_le (h.1 ▸ hlast))

theorem Cuts.last_length (h : Cuts mtu data fs) {f : Fragment}
    (hk : fs[data.length / maxFragmentLength mtu]? = some f) (hmax : 0 < maxFragmentLength mtu) :
    f.payload.length = data.length % maxFragmentLength mtu := by
  have hdiv := Nat.div_add_mod' data.length (maxFragmentLength mtu)
  have hlt := Nat.mod_lt data.length hmax
  rw [(h.2 _ f hk).payload,List.length_take,List.length_drop]
  omega

theorem Cuts.fragmented_iff (h : Cuts mtu data fs) (hm : 28 ≤ mtu) (hlt : mtu < 2 ^ 64) :
    Fragmented mtu data fs ↔ ¬maxFragmentLength mtu ∣ data.length := by
  obtain ⟨h8,hge,-⟩ := maxFragmentLength_spec hm hlt
  have hpos : 0 < maxFragmentLength mtu := by omega
  constructor
  · intro hf hdvd
    have hk := List.getElem?_eq_getElem (l := fs)
      (show data.length / maxFragmentLength mtu < fs.length by rw [h.1]; exact Nat.lt_succ_self _)
    refine hf.nonempty _ (List.mem_of_getElem? hk) (List.length_eq_zero_iff.mp ?_)
    rw [h.last_length hk hpos]
    exact Nat.mod_eq_zero_of_dvd hdvd
  · intro hdvd
    have hmod : 0 < data.length % maxFragmentLength mtu := Nat.pos_of_ne_zero fun h0 =>
      hdvd (Nat.dvd_of_mod_eq_zero h0)
    refine ⟨?_,?_,?_,?_,?_,?_⟩
    · rw [payloads,h.pieces,h.1]
      exact pieces_cover hpos
    · intro k f hk
      have hkl := (List.getElem?_eq_some_iff.mp hk).1
      rw [(h.2 k f hk).offset (Dvd.dvd.mul_left h8 k),payloads,List.map_take,h.pieces,
        take_pieces data (by omega),flatten_pieces,List.length_take,
        Nat.min_eq_left (cover_le (h.1 ▸ hkl))]
    · intro k f hk hlast
      rw [h.payload_length hk hlast]
      exact h8
    · intro f hf
      obtain ⟨k,hk⟩ := List.getElem?_of_mem hf
      have hkl := (List.getElem?_eq_some_iff.mp hk).1
      rw [← List.length_pos_iff]
      by_cases hlast : k + 1 < fs.length
      · rw [h.payload_length hk hlast]
        exact hpos
      · have hcount := h.1
        obtain rfl : k = data.length / maxFragmentLength mtu := by omega
        rw [h.last_length hk hpos]
        exact hmod
    · intro f hf
      obtain ⟨k,hk⟩ := List.getElem?_of_mem hf
      exact (h.2 k f hk).fits
    · intro k f hk
      have hkl := (List.getElem?_eq_some_iff.mp hk).1
      rw [(h.2 k f hk).more]
      simp only [Bool.not_eq_true',decide_eq_false_iff_not]
      omega

end Packet

@[simp] theorem stampChecksum_length (data : List UInt8) (srcAddr targetIp : Ipv4)
    (protocol : UInt8) : (stampChecksum data srcAddr targetIp protocol).length = data.length := by
  rw [stampChecksum]
  split_ifs <;> simp

def Stack.outgoing (net : Stack) (index : Nat) (data : List UInt8) (targetIp : Ipv4)
    (protocol : UInt8) (computeChecksum : Bool) : List UInt8 :=
  if computeChecksum then stampChecksum data (net.interfaces index).ipv4 targetIp protocol else data

theorem outgoing_length (net : Stack) (index : Nat) (data : List UInt8) (targetIp : Ipv4)
    (protocol : UInt8) (computeChecksum : Bool) :
    (net.outgoing index data targetIp protocol computeChecksum).length = data.length := by
  rw [Stack.outgoing]
  split_ifs
  · exact stampChecksum_length data _ _ _
  · rfl

section Send

variable {net net' : Stack} {answers : Answers} {data : List UInt8} {targetIp : Ipv4}
  {protocol : UInt8} {computeChecksum : Bool} {index : Nat} {fs : List Fragment}

theorem ipv4Send_cuts (hroute : (lookupRoute net.routingTable targetIp).interface = some index)
    (hlen : data.length ≤ 65515)
    (h : net.ipv4Send answers data targetIp protocol computeChecksum = some (net',⟨fs,0⟩)) :
    Cuts (net.interfaces index).mtu (net.outgoing index data targetIp protocol computeChecksum) fs := by
  rw [Stack.ipv4Send] at h
  by_cases hb : targetIp = broadcastIpv4
  · rw [if_pos hb] at h
    cases h
  rw [if_neg hb] at h
  simp only [hroute] at h
  by_cases herr : (answers.arpLookup index
      (if (lookupRoute net.routingTable targetIp).gateway ≠ 0
        then (lookupRoute net.routingTable targetIp).gateway else targetIp)).1 < 0
  · rw [if_pos herr] at h
    simp only [Option.some.injEq,Prod.mk.injEq,Sending.mk.injEq] at h
    exact absurd (h.2.2 ▸ herr) (Int.lt_irrefl 0)
  · rw [if_neg herr] at h
    obtain ⟨sending,hsend,h⟩ := Option.bind_eq_some_iff.mp h
    simp only [Option.pure_def,Option.some.injEq,Prod.mk.injEq] at h
    obtain ⟨-,rfl⟩ := h
    apply send_cuts _ hsend
    exact (outgoing_length net index data targetIp protocol computeChecksum).symm ▸ hlen

theorem ipv4Send_isSome (answers : Answers) (data : List UInt8) (protocol : UInt8)
    (computeChecksum : Bool) (hroute : (lookupRoute net.routingTable targetIp).interface = some index)
    (hm : 28 ≤ (net.interfaces index).mtu) (hlt : (net.interfaces index).mtu < 2 ^ 64) :
    (net.ipv4Send answers data targetIp protocol computeChecksum).isSome := by
  rw [Stack.ipv4Send]
  by_cases hb : targetIp = broadcastIpv4
  · rw [if_pos hb]
    rfl
  rw [if_neg hb]
  simp only [hroute]
  by_cases herr : (answers.arpLookup index
      (if (lookupRoute net.routingTable targetIp).gateway ≠ 0
        then (lookupRoute net.routingTable targetIp).gateway else targetIp)).1 < 0
  · rw [if_pos herr]
    rfl
  · rw [if_neg herr]
    obtain ⟨sending,hsend⟩ := Option.isSome_iff_exists.mp (sendFrom_isSome (i := 0) hm hlt 0)
    rw [Interface.send,hsend]
    rfl

theorem ipv4Send_ret {ret : Int} (hsent : ∀ i, ¬answers.sendPacket i < 0)
    (harp : ∀ i ip, ¬(answers.arpLookup i ip).1 < 0)
    (hroute : (lookupRoute net.routingTable targetIp).interface = some index)
    (hb : targetIp ≠ broadcastIpv4)
    (h : net.ipv4Send answers data targetIp protocol computeChecksum = some (net',⟨fs,ret⟩)) :
    ret = 0 := by
  rw [Stack.ipv4Send,if_neg hb] at h
  simp only [hroute,if_neg (harp _ _)] at h
  obtain ⟨sending,hsend,h⟩ := Option.bind_eq_some_iff.mp h
  simp only [Option.pure_def,Option.some.injEq,Prod.mk.injEq] at h
  obtain ⟨-,rfl⟩ := h
  exact sendFrom_ret hsent 0 hsend

end Send

theorem ipv4_send_fragments (net : Stack) (answers : Answers) (data : List UInt8) (targetIp : Ipv4)
    (protocol : UInt8) (computeChecksum : Bool) (index : Nat)
    (hroute : (lookupRoute net.routingTable targetIp).interface = some index)
    (hlen : data.length ≤ 65515) (hm : 28 ≤ (net.interfaces index).mtu)
    (hlt : (net.interfaces index).mtu < 2 ^ 64) :
    (net.ipv4Send answers data targetIp protocol computeChecksum).isSome ∧ ∀ net' fs,
      net.ipv4Send answers data targetIp protocol computeChecksum = some (net',⟨fs,0⟩) →
        (Fragmented (net.interfaces index).mtu
          (net.outgoing index data targetIp protocol computeChecksum) fs ↔
            ¬maxFragmentLength (net.interfaces index).mtu ∣ data.length) := by
  refine ⟨ipv4Send_isSome answers data protocol computeChecksum hroute hm hlt,?_⟩
  intro net' fs h
  rw [(ipv4Send_cuts hroute hlen h).fragmented_iff hm hlt,outgoing_length]

def virtioNet : Stack where
  routingTable := [{ interface := some 0, gateway := 0x0a000202, metric := 100 }]
  interfaces _ := { mtu := 1500, ipv4 := 0x0a000210, ipv4PacketId := 0 }

def reached : Answers where
  arpLookup _ _ := (0,Vector.replicate 6 1)
  sendPacket _ := 0

def remoteIp : Ipv4 := 0x08080808

def even : List UInt8 := List.replicate 1480 0

theorem even_length : even.length = 1480 := List.length_replicate

theorem ipv4_send_fragments_virtio :
    (virtioNet.ipv4Send reached even remoteIp protocolUdp true).isSome ∧ ∀ net' fs,
      virtioNet.ipv4Send reached even remoteIp protocolUdp true = some (net',⟨fs,0⟩) →
        (Fragmented (virtioNet.interfaces 0).mtu (virtioNet.outgoing 0 even remoteIp protocolUdp true) fs ↔
          ¬maxFragmentLength (virtioNet.interfaces 0).mtu ∣ even.length) :=
  ipv4_send_fragments virtioNet reached even remoteIp protocolUdp true 0 (by decide) (by rw [even_length]; decide)
    (by simp [virtioNet]) (by simp [virtioNet])

-- 1480 bytes are one full fragment, after which an empty one goes out.
theorem ipv4_send_empty_fragment : ∃ net' fs,
    virtioNet.ipv4Send reached even remoteIp protocolUdp true = some (net',⟨fs,0⟩) ∧
      ¬Fragmented (virtioNet.interfaces 0).mtu (virtioNet.outgoing 0 even remoteIp protocolUdp true) fs := by
  have hroute : (lookupRoute virtioNet.routingTable remoteIp).interface = some 0 := by decide
  obtain ⟨⟨net',fs,ret⟩,hsent⟩ := Option.isSome_iff_exists.mp (ipv4Send_isSome reached even
    protocolUdp true hroute (by simp [virtioNet]) (by simp [virtioNet]))
  obtain rfl : ret = 0 := ipv4Send_ret (by simp [reached]) (by simp [reached]) hroute (by decide) hsent
  refine ⟨net',fs,hsent,?_⟩
  rw [(ipv4Send_cuts hroute (by rw [even_length]; decide) hsent).fragmented_iff (by simp [virtioNet])
    (by simp [virtioNet]),outgoing_length,even_length]
  decide

end SabaOS.Net
