import SabaOS.Sched.Signal

namespace SabaOS.Sched

def redZone : UInt64 := 128

def stackTop (thread : Thread) (action : KernelSigaction) : UInt64 :=
  let alt := thread.signals.signalAltStack
  if onAltStack thread action then alt.ssSp + alt.ssSize
  else thread.context.gprState.rsp - redZone

def fpstateAddr (extendedStateSize : UInt64) (thread : Thread) (action : KernelSigaction) : UInt64 :=
  alignUp64 (frameAddr extendedStateSize thread action + signalFrameSize) 64

def inArea (base size a : UInt64) : Prop := a - base < size

section Align

variable (i alignment : UInt64)

theorem alignDown64_toNat :
    (alignDown64 i alignment).toNat = i.toNat / alignment.toNat * alignment.toNat := by
  have hle := Nat.div_mul_le_self i.toNat alignment.toNat
  have hlt := i.toNat_lt
  unfold alignDown64
  split_ifs with hm
  · rw [UInt64.toNat_mul,UInt64.toNat_div,Nat.mod_eq_of_lt (by omega)]
  · have hz : i.toNat % alignment.toNat = 0 := by
      rw [not_not] at hm
      rw [← UInt64.toNat_mod,hm]
      rfl
    exact (Nat.div_mul_cancel (Nat.dvd_of_mod_eq_zero hz)).symm

theorem alignUp64_toNat : (alignUp64 i 64).toNat = (i.toNat + 63) / 64 * 64 % 2 ^ 64 := by
  have hlt := i.toNat_lt
  have h64 : (64 : UInt64).toNat = 64 := rfl
  unfold alignUp64
  split_ifs with hm
  · have hz : i.toNat % 64 ≠ 0 := by
      intro hc
      apply hm
      apply UInt64.toNat_inj.mp
      rw [UInt64.toNat_mod,h64,hc]
      rfl
    rw [UInt64.toNat_mul,UInt64.toNat_add,UInt64.toNat_div,h64,
      show (1 : UInt64).toNat = 1 from rfl]
    omega
  · have hz : i.toNat % 64 = 0 := by
      rw [not_not] at hm
      rw [← h64,← UInt64.toNat_mod,hm]
      rfl
    omega

end Align

section Layout

variable (size : UInt64) (thread : Thread) (action : KernelSigaction)

def fpstateBase : UInt64 := alignDown64 (stackTop thread action - size) 64

theorem fpstateBase_toNat : (fpstateBase size thread action).toNat =
    (stackTop thread action - size).toNat / 64 * 64 :=
  alignDown64_toNat _ 64

theorem frameAddr_toNat : (frameAddr size thread action).toNat =
    (2 ^ 64 - 456 + (fpstateBase size thread action).toNat) % 2 ^ 64 := by
  have hb := fpstateBase_toNat size thread action
  have hlt := (fpstateBase size thread action).toNat_lt
  have ha : frameAddr size thread action =
      alignDown64 (fpstateBase size thread action - signalFrameSize) 16 - 8 := rfl
  rw [ha,UInt64.toNat_sub,alignDown64_toNat _ 16,UInt64.toNat_sub,
    show (signalFrameSize).toNat = 440 from rfl,show (16 : UInt64).toNat = 16 from rfl,
    show (8 : UInt64).toNat = 8 from rfl]
  omega

theorem frameAddr_aligned : (frameAddr size thread action).toNat % 16 = 8 := by
  have hb := fpstateBase_toNat size thread action
  have ha := frameAddr_toNat size thread action
  omega

theorem fpstateAddr_eq : fpstateAddr size thread action = fpstateBase size thread action := by
  apply UInt64.toNat_inj.mp
  have hb := fpstateBase_toNat size thread action
  have hlt := (fpstateBase size thread action).toNat_lt
  rw [fpstateAddr,alignUp64_toNat,UInt64.toNat_add,frameAddr_toNat,
    show (signalFrameSize).toNat = 440 from rfl]
  omega

theorem fpstateAddr_aligned : (fpstateAddr size thread action).toNat % 64 = 0 := by
  rw [fpstateAddr_eq,fpstateBase_toNat]
  omega

theorem areas_disjoint (hsize : size.toNat + 456 ≤ 2 ^ 64) (a : UInt64)
    (hf : inArea (frameAddr size thread action) signalFrameSize a) :
    ¬inArea (fpstateAddr size thread action) size a := by
  have ha := frameAddr_toNat size thread action
  have hb := (fpstateBase size thread action).toNat_lt
  have hlt := a.toNat_lt
  simp only [inArea,UInt64.lt_iff_toNat_lt,UInt64.toNat_sub,fpstateAddr_eq,
    show (signalFrameSize).toNat = 440 from rfl] at hf ⊢
  omega

def Roomy : Prop :=
  let alt := thread.signals.signalAltStack
  if onAltStack thread action then
    alt.ssSp.toNat + alt.ssSize.toNat < 2 ^ 64 ∧ size.toNat + 519 ≤ alt.ssSize.toNat
  else
    size.toNat + 647 ≤ thread.context.gprState.rsp.toNat

def Reserved (a : UInt64) : Prop :=
  let alt := thread.signals.signalAltStack
  if onAltStack thread action then inArea alt.ssSp alt.ssSize a
  else a.toNat + redZone.toNat < thread.context.gprState.rsp.toNat

variable {size thread action}

theorem Roomy.stackTop_eq (h : Roomy size thread action) :
    if onAltStack thread action then
      (stackTop thread action).toNat = thread.signals.signalAltStack.ssSp.toNat +
        thread.signals.signalAltStack.ssSize.toNat
    else (stackTop thread action).toNat + 128 = thread.context.gprState.rsp.toNat := by
  simp only [Roomy] at h
  simp only [stackTop]
  split_ifs at h ⊢
  · rw [UInt64.toNat_add]
    omega
  · have hlt := thread.context.gprState.rsp.toNat_lt
    rw [UInt64.toNat_sub,show redZone.toNat = 128 from rfl]
    omega

theorem Roomy.stackTop_toNat (h : Roomy size thread action) :
    size.toNat + 519 ≤ (stackTop thread action).toNat := by
  have heq := h.stackTop_eq
  simp only [Roomy] at h
  split_ifs at h heq
  · omega
  · omega

theorem Roomy.bounds (h : Roomy size thread action) :
    (fpstateAddr size thread action).toNat = (frameAddr size thread action).toNat + 456 ∧
    (fpstateAddr size thread action).toNat + size.toNat ≤ (stackTop thread action).toNat ∧
    (stackTop thread action).toNat ≤ (frameAddr size thread action).toNat + size.toNat + 519 := by
  have htop := h.stackTop_toNat
  have hframe := frameAddr_toNat size thread action
  have hbase := fpstateBase_toNat size thread action
  have htlt := (stackTop thread action).toNat_lt
  rw [UInt64.toNat_sub] at hbase
  rw [fpstateAddr_eq]
  omega

theorem Roomy.contained (h : Roomy size thread action) {a : UInt64}
    (ha : inArea (frameAddr size thread action) signalFrameSize a ∨
      inArea (fpstateAddr size thread action) size a) : Reserved thread action a := by
  have hroom := h.bounds
  have hlt := a.toNat_lt
  have htlt := (stackTop thread action).toNat_lt
  have hbounds : (stackTop thread action).toNat ≤ a.toNat + size.toNat + 519 ∧
      a.toNat < (stackTop thread action).toNat := by
    simp only [inArea,UInt64.lt_iff_toNat_lt,UInt64.toNat_sub,
      show (signalFrameSize).toNat = 440 from rfl] at ha
    omega
  simp only [Roomy] at h
  simp only [Reserved,inArea]
  simp only [stackTop] at hbounds
  split_ifs at h hbounds ⊢
  · rw [UInt64.toNat_add] at hbounds
    rw [UInt64.lt_iff_toNat_lt,UInt64.toNat_sub]
    omega
  · have hrsp := thread.context.gprState.rsp.toNat_lt
    rw [UInt64.toNat_sub,show redZone.toNat = 128 from rfl] at hbounds
    rw [show redZone.toNat = 128 from rfl]
    omega

end Layout

end SabaOS.Sched
