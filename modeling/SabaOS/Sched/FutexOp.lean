import SabaOS.Sched.SignalCalls

namespace SabaOS.Sched

inductive FutexOp where
  | set
  | add
  | or
  | andn
  | xor
deriving DecidableEq, Repr

inductive FutexCmp where
  | eq
  | ne
  | lt
  | le
  | gt
  | ge
deriving DecidableEq, Repr

def FutexOp.ofCode (code : UInt32) : Option FutexOp :=
  if code = 0 then some .set
  else if code = 1 then some .add
  else if code = 2 then some .or
  else if code = 3 then some .andn
  else if code = 4 then some .xor
  else none

def FutexCmp.ofCode (code : UInt32) : Option FutexCmp :=
  if code = 0 then some .eq
  else if code = 1 then some .ne
  else if code = 2 then some .lt
  else if code = 3 then some .le
  else if code = 4 then some .gt
  else if code = 5 then some .ge
  else none

-- `__atomic_fetch_nand` stands where the operation is `ANDN`.
def FutexOp.store : FutexOp → UInt32 → UInt32 → UInt32
  | .set, _, arg => arg
  | .add, old, arg => old + arg
  | .or, old, arg => old ||| arg
  | .andn, old, arg => ~~~(old &&& arg)
  | .xor, old, arg => old ^^^ arg

def FutexCmp.holds : FutexCmp → UInt32 → UInt32 → Bool
  | .eq, old, arg => old == arg
  | .ne, old, arg => old != arg
  | .lt, old, arg => old < arg
  | .le, old, arg => old ≤ arg
  | .gt, old, arg => old > arg
  | .ge, old, arg => old ≥ arg

namespace FutexWord

def op (w : UInt32) : UInt32 := (w >>> 28) &&& 0xf

def shifts (w : UInt32) : Prop := op w &&& 8 ≠ 0

instance (w : UInt32) : Decidable (shifts w) := inferInstanceAs (Decidable (_ ≠ _))

def opArg (w : UInt32) : UInt32 := (w >>> 24) &&& 0xf

def cmp (w : UInt32) : UInt32 := (w >>> 12) &&& 0xfff

def cmpArg (w : UInt32) : UInt32 := w &&& 0xfff

def shiftedOp (w : UInt32) : UInt32 := if shifts w then op w &&& ~~~8 else op w

def shiftedArg (w : UInt32) : UInt32 := if shifts w then 1 <<< opArg w else opArg w

end FutexWord

namespace State

def futexWakeSecond (s : State) (uaddr2 : UInt64) (maxToWake2 ret1 : Int) (old w : UInt32) :
    Option (State × Int) :=
  match FutexCmp.ofCode (FutexWord.cmp w) with
  | none => some (s,-einval)
  | some cmp =>
    if cmp.holds old (FutexWord.cmpArg w) then do
      let (s,ret2) ← s.futexWake uaddr2 maxToWake2
      return if ret2 < 0 then (s,ret2) else (s,ret1 + ret2)
    else some (s,ret1 + 0)

def futexWakeOp (s : State) (uaddr1 : UInt64) (maxToWake1 : Int) (uaddr2 : UInt64)
    (maxToWake2 : Int) (w : UInt32) : Option (State × Int) := do
  let t ← s.cpu.runningThread
  let thread ← s.threads t
  match FutexOp.ofCode (FutexWord.shiftedOp w) with
  | none => return (s,-einval)
  | some op =>
    let old := s.memory.word thread.process uaddr2
    let s := s.setWord thread.process uaddr2 (op.store old (FutexWord.shiftedArg w))
    let (s,ret1) ← s.futexWake uaddr1 maxToWake1
    if ret1 < 0 then
      return (s,ret1)
    s.futexWakeSecond uaddr2 maxToWake2 ret1 old w

end State

-- The encoding of `linux/futex.h`: what a word asks for.
namespace FutexEncoding

def signExtend (x : UInt32) : UInt32 := if x &&& 0x800 = 0 then x else x ||| 0xfffff000

def op (w : UInt32) : Option FutexOp := FutexOp.ofCode ((w >>> 28) &&& 7)

def shifts (w : UInt32) : Prop := w >>> 31 ≠ 0

instance (w : UInt32) : Decidable (shifts w) := inferInstanceAs (Decidable (_ ≠ _))

def cmp (w : UInt32) : Option FutexCmp := FutexCmp.ofCode ((w >>> 24) &&& 0xf)

def opArg (w : UInt32) : UInt32 := (w >>> 12) &&& 0xfff

def cmpArg (w : UInt32) : UInt32 := w &&& 0xfff

-- A 32-bit shift counts modulo 32.
def arg (w : UInt32) : UInt32 :=
  if shifts w then 1 <<< signExtend (opArg w) else signExtend (opArg w)

def store : FutexOp → UInt32 → UInt32 → UInt32
  | .set, _, arg => arg
  | .add, old, arg => old + arg
  | .or, old, arg => old ||| arg
  | .andn, old, arg => old &&& ~~~arg
  | .xor, old, arg => old ^^^ arg

def holds : FutexCmp → Int32 → Int32 → Bool
  | .eq, old, arg => old == arg
  | .ne, old, arg => old != arg
  | .lt, old, arg => old < arg
  | .le, old, arg => old ≤ arg
  | .gt, old, arg => old > arg
  | .ge, old, arg => old ≥ arg

def wakesSecond (w old : UInt32) (cmp : FutexCmp) : Bool :=
  holds cmp old.toInt32 (signExtend (cmpArg w)).toInt32

end FutexEncoding

namespace State

def wakeBoth (s : State) (p : Pid) (uaddr1 : UInt64) (maxToWake1 : Int) (uaddr2 : UInt64)
    (maxToWake2 : Int) (value : UInt32) (second : Bool) : Option State := do
  let (s,ret1) ← (s.setWord p uaddr2 value).futexWake uaddr1 maxToWake1
  if ret1 < 0 ∨ second = false then
    return s
  let (s,_) ← s.futexWake uaddr2 maxToWake2
  return s

end State

structure WakeOpDecoded (w old : UInt32) : Prop where
  refused : FutexEncoding.op w = none →
    ∀ (s : State) (t : Tid) (thread : Thread) (uaddr1 uaddr2 : UInt64) (max1 max2 : Int),
      s.cpu.runningThread = some t → s.threads t = some thread →
      s.futexWakeOp uaddr1 max1 uaddr2 max2 w = some (s,-einval)
  done : ∀ op cmp, FutexEncoding.op w = some op → FutexEncoding.cmp w = some cmp →
    ∀ (s : State) (t : Tid) (thread : Thread) (uaddr1 uaddr2 : UInt64) (max1 max2 : Int),
      s.cpu.runningThread = some t → s.threads t = some thread →
      s.memory.word thread.process uaddr2 = old →
      (s.futexWakeOp uaddr1 max1 uaddr2 max2 w).map Prod.fst =
        s.wakeBoth thread.process uaddr1 max1 uaddr2 max2
          (FutexEncoding.store op old (FutexEncoding.arg w)) (FutexEncoding.wakesSecond w old cmp)

namespace FutexWord

def wakesSecond (w old : UInt32) : Bool :=
  (FutexCmp.ofCode (cmp w)).any fun c => c.holds old (cmpArg w)

def SameArg (w : UInt32) : Prop :=
  if FutexEncoding.shifts w then opArg w = FutexEncoding.opArg w % 32
  else opArg w = FutexEncoding.opArg w

def StoresAlike (op : FutexOp) (w old : UInt32) : Prop :=
  match op with
  | .or => (shiftedArg w ^^^ FutexEncoding.arg w) &&& ~~~old = 0
  | .andn => old = 0xffffffff ∧ SameArg w
  | _ => SameArg w

end FutexWord

section Words

variable {a b old w : UInt32}

theorem toNat_field (k m : UInt32) : ((w >>> k) &&& m).toNat ≤ m.toNat := by
  rw [UInt32.toNat_and]
  exact Nat.and_le_right

theorem or_cancel : old ||| a = old ||| b ↔ (a ^^^ b) &&& ~~~old = 0 := by
  simp only [← UInt32.toBitVec_inj,UInt32.toBitVec_or,UInt32.toBitVec_and,UInt32.toBitVec_xor,
    UInt32.toBitVec_not]
  constructor
  · intro h
    ext i hi
    have hbit := congrArg (fun v : BitVec 32 => v[i]) h
    simp only [BitVec.getElem_or] at hbit
    simp only [BitVec.getElem_and,BitVec.getElem_xor,BitVec.getElem_not]
    revert hbit
    cases a.toBitVec[i] <;> cases b.toBitVec[i] <;> cases old.toBitVec[i] <;> simp
  · intro h
    ext i hi
    have hbit := congrArg (fun v : BitVec 32 => v[i]) h
    simp only [BitVec.getElem_and,BitVec.getElem_xor,BitVec.getElem_not] at hbit
    simp only [BitVec.getElem_or]
    revert hbit
    cases a.toBitVec[i] <;> cases b.toBitVec[i] <;> cases old.toBitVec[i] <;> simp

theorem nand_eq_andn : ~~~(old &&& a) = old &&& ~~~b ↔ old = 0xffffffff ∧ a = b := by
  constructor
  · intro h
    have hbits : ∀ i (hi : i < 32), old.toBitVec[i] = true ∧ a.toBitVec[i] = b.toBitVec[i] := by
      intro i hi
      have hbit := congrArg (fun v : UInt32 => v.toBitVec[i]) h
      simp only [UInt32.toBitVec_and,UInt32.toBitVec_not,BitVec.getElem_and,
        BitVec.getElem_not] at hbit
      revert hbit
      cases a.toBitVec[i] <;> cases b.toBitVec[i] <;> cases old.toBitVec[i] <;> simp
    refine ⟨UInt32.toBitVec_inj.mp ?_,UInt32.toBitVec_inj.mp ?_⟩
    · ext i hi
      rw [(hbits i hi).1]
      exact (BitVec.getElem_allOnes i hi).symm
    · ext i hi
      exact (hbits i hi).2
  · rintro ⟨rfl,rfl⟩
    apply UInt32.toBitVec_inj.mp
    ext i hi
    have hone : (0xffffffff : UInt32).toBitVec[i] = true := BitVec.getElem_allOnes i hi
    simp only [UInt32.toBitVec_and,UInt32.toBitVec_not,BitVec.getElem_and,BitVec.getElem_not,hone]
    simp

theorem op_eq : FutexWord.op w = w >>> 28 := by
  have hlt := w.toNat_lt
  rw [FutexWord.op,← UInt32.toNat_inj,UInt32.toNat_and,UInt32.toNat_shiftRight]
  show w.toNat >>> 28 &&& (2 ^ 4 - 1) = w.toNat >>> 28
  rw [Nat.and_two_pow_sub_one_eq_mod,Nat.shiftRight_eq_div_pow]
  omega

theorem top_bit : w >>> 31 = FutexWord.op w >>> 3 := by
  rw [op_eq,← UInt32.toNat_inj,UInt32.toNat_shiftRight,UInt32.toNat_shiftRight,
    UInt32.toNat_shiftRight]
  show w.toNat >>> 31 = w.toNat >>> 28 >>> 3
  rw [← Nat.shiftRight_add]

theorem forall_op {P : UInt32 → Prop} (hall : ∀ n : Fin 16, P (UInt32.ofNat n)) (w : UInt32) :
    P (FutexWord.op w) := by
  have h := hall ⟨(FutexWord.op w).toNat,Nat.lt_succ_of_le (toNat_field 28 0xf)⟩
  rwa [UInt32.ofNat_toNat] at h

theorem shiftedOp_eq : FutexWord.shiftedOp w = (w >>> 28) &&& 7 := by
  have h := forall_op (P := fun x => (if x &&& 8 ≠ 0 then x &&& ~~~8 else x) = x &&& 7) (by decide) w
  rw [← op_eq,← h]
  rfl

theorem shifts_iff : FutexWord.shifts w ↔ FutexEncoding.shifts w := by
  rw [FutexEncoding.shifts,top_bit]
  exact forall_op (P := fun x => x &&& 8 ≠ 0 ↔ x >>> 3 ≠ 0) (by decide) w

theorem toNat_one_shift (a : UInt32) : ((1 : UInt32) <<< a).toNat = 2 ^ (a.toNat % 32) := by
  have hlt : a.toNat % 32 < 32 := Nat.mod_lt _ (by decide)
  rw [UInt32.toNat_shiftLeft,UInt32.toNat_one,Nat.one_shiftLeft]
  exact Nat.mod_eq_of_lt (Nat.pow_lt_pow_right (by decide) hlt)

theorem signExtend_mod (a : UInt32) : (FutexEncoding.signExtend a).toNat % 32 = a.toNat % 32 := by
  unfold FutexEncoding.signExtend
  split_ifs
  · rfl
  · rw [UInt32.toNat_or]
    show (a.toNat ||| 0xfffff000) % 2 ^ 5 = a.toNat % 2 ^ 5
    rw [Nat.or_mod_two_pow]
    simp

theorem signExtend_eq_small (hb : b.toNat < 4096) (ha : a.toNat < 16) :
    a = FutexEncoding.signExtend b ↔ a = b := by
  unfold FutexEncoding.signExtend
  split_ifs with h
  · exact Iff.rfl
  · have hlarge : 0xfffff000 ≤ (b ||| 0xfffff000).toNat := by
      rw [UInt32.toNat_or]
      exact Nat.right_le_or
    have hbit : 16 ≤ b.toNat := by
      refine Nat.not_lt.mp fun hlt => h ?_
      have hall : ∀ n : Fin 16, UInt32.ofNat n &&& 0x800 = 0 := by decide
      have := hall ⟨b.toNat,hlt⟩
      rwa [UInt32.ofNat_toNat] at this
    constructor
    · rintro rfl
      omega
    · rintro rfl
      omega

theorem shiftedArg_iff : FutexWord.shiftedArg w = FutexEncoding.arg w ↔ FutexWord.SameArg w := by
  have ha : (FutexWord.opArg w).toNat < 16 := Nat.lt_succ_of_le (toNat_field 24 0xf)
  have hb : (FutexEncoding.opArg w).toNat < 4096 := Nat.lt_succ_of_le (toNat_field 12 0xfff)
  unfold FutexWord.shiftedArg FutexEncoding.arg FutexWord.SameArg
  simp only [shifts_iff]
  split_ifs
  · rw [← UInt32.toNat_inj,toNat_one_shift,toNat_one_shift,signExtend_mod,
      Nat.pow_right_inj (by decide),← UInt32.toNat_inj,UInt32.toNat_mod,Nat.mod_eq_of_lt (by omega)]
    rfl
  · exact signExtend_eq_small hb ha

theorem store_eq_iff (op : FutexOp) : op.store old (FutexWord.shiftedArg w) =
    FutexEncoding.store op old (FutexEncoding.arg w) ↔ FutexWord.StoresAlike op w old := by
  cases op with
  | set => exact shiftedArg_iff
  | add => exact (UInt32.add_right_inj old).trans shiftedArg_iff
  | or => exact or_cancel
  | andn => exact nand_eq_andn.trans (and_congr_right fun _ => shiftedArg_iff)
  | xor => exact (UInt32.xor_right_inj old).trans shiftedArg_iff

end Words

namespace State

section Calls

variable {s : State} {t : Tid} {thread : Thread} {uaddr1 uaddr2 : UInt64} {max1 max2 ret1 : Int}
  {w old : UInt32}

theorem futexWakeSecond_fst : (s.futexWakeSecond uaddr2 max2 ret1 old w).map Prod.fst =
    if FutexWord.wakesSecond w old then (s.futexWake uaddr2 max2).map Prod.fst else some s := by
  unfold futexWakeSecond FutexWord.wakesSecond
  cases FutexCmp.ofCode (FutexWord.cmp w) with
  | none => rfl
  | some cmp =>
    simp only [Option.any_some]
    split_ifs
    · cases s.futexWake uaddr2 max2 with
      | none => rfl
      | some r =>
        show some (if r.2 < 0 then (r.1,r.2) else (r.1,ret1 + r.2)).1 = some r.1
        split_ifs <;> rfl
    · rfl

theorem futexWakeOp_refused (ht : s.cpu.runningThread = some t) (hthread : s.threads t = some thread)
    (hop : FutexOp.ofCode (FutexWord.shiftedOp w) = none) :
    s.futexWakeOp uaddr1 max1 uaddr2 max2 w = some (s,-einval) := by
  simp [futexWakeOp,ht,hthread,hop]

theorem futexWakeOp_fst (ht : s.cpu.runningThread = some t) (hthread : s.threads t = some thread)
    (hold : s.memory.word thread.process uaddr2 = old) {op : FutexOp}
    (hop : FutexOp.ofCode (FutexWord.shiftedOp w) = some op) :
    (s.futexWakeOp uaddr1 max1 uaddr2 max2 w).map Prod.fst =
      s.wakeBoth thread.process uaddr1 max1 uaddr2 max2
        (op.store old (FutexWord.shiftedArg w)) (FutexWord.wakesSecond w old) := by
  simp only [futexWakeOp,wakeBoth,ht,hthread,hop,hold,Option.bind_eq_bind,Option.bind_some]
  cases (s.setWord thread.process uaddr2 (op.store old (FutexWord.shiftedArg w))).futexWake uaddr1
      max1 with
  | none => rfl
  | some r =>
    simp only [Option.bind_some]
    split_ifs with hneg hor hor
    · rfl
    · exact absurd (.inl hneg) hor
    · obtain hneg' | hno := hor
      · exact absurd hneg' hneg
      · rw [futexWakeSecond_fst,hno]
        rfl
    · have hyes : FutexWord.wakesSecond w old = true := by simpa [hneg] using hor
      rw [futexWakeSecond_fst,hyes,if_pos rfl]
      cases r.1.futexWake uaddr2 max2 <;> rfl

end Calls

end State

def oneWaiter (old : UInt32) : State where
  threads
    | 0 => some { process := 0, state := .running }
    | 1 => some { process := 0, state := .blocked }
    | _ => none
  processes _ := none
  schedLinks
    | none => ⟨some (some 0),some (some 0)⟩
    | some 0 => ⟨some none,some none⟩
    | _ => .null
  events e := if e = .futex 4096 then { numListeners := 1 } else {}
  nodes _ _ := { thread := 1, event := some (.futex 4096) }
  listenerLinks
    | .head (.futex 4096) => ⟨some (.node 0 0),some (.node 0 0)⟩
    | .node 0 0 => ⟨some (.head (.futex 4096)),some (.head (.futex 4096))⟩
    | _ => .null
  nextBuffer := 1
  cellCount := 1
  futexTable := [4096]
  memory := ⟨fun _ _ => old,fun _ _ => {},fun _ _ => [],fun _ a => some (a.toNat / 4096 * 4096)⟩
  cpu := { runningThread := some 0 }
  idleThread := 0
  kernelProcess := 0
  initProcess := 0
  extendedStateSize := 0

theorem oneWaiter_woken (old value : UInt32) (second : Bool) :
    ((oneWaiter old).wakeBoth 0 0 1 4096 1 value second).map (fun s =>
      (s.memory.word 0 4096,(s.threads 1).map Thread.state)) =
      some (value,some (if second then .ready else .blocked)) := by
  cases second with
  | false => rfl
  | true => rfl

section Decoded

variable {w old : UInt32} {op : FutexOp} {cmp : FutexCmp}

theorem WakeOpDecoded.same (h : WakeOpDecoded w old) (hop : FutexEncoding.op w = some op)
    (hcmp : FutexEncoding.cmp w = some cmp) :
    op.store old (FutexWord.shiftedArg w) = FutexEncoding.store op old (FutexEncoding.arg w) ∧
      FutexWord.wakesSecond w old = FutexEncoding.wakesSecond w old cmp := by
  have hcode : FutexOp.ofCode (FutexWord.shiftedOp w) = some op := by
    rw [shiftedOp_eq]
    exact hop
  have hthread : (oneWaiter old).threads 0 = some { process := 0, state := .running } := rfl
  have hold : (oneWaiter old).memory.word 0 4096 = old := rfl
  have hcall := @State.futexWakeOp_fst (oneWaiter old) 0 _ 0 4096 0 1 w old rfl hthread hold op hcode
  have hdone := hcall.symm.trans (h.done op cmp hop hcmp (oneWaiter old) 0 _ 0 4096 0 1 rfl hthread hold)
  have hseen := ((oneWaiter_woken old _ _).symm.trans (congrArg (Option.map fun s : State =>
    (s.memory.word 0 4096,(s.threads 1).map Thread.state)) hdone)).trans (oneWaiter_woken old _ _)
  simp only [Option.some.injEq,Prod.mk.injEq] at hseen
  obtain ⟨hvalue,hstate⟩ := hseen
  refine ⟨hvalue,?_⟩
  revert hstate
  cases FutexWord.wakesSecond w old <;> cases FutexEncoding.wakesSecond w old cmp <;> simp

theorem wakeOp_decoded_iff (w old : UInt32) : WakeOpDecoded w old ↔
    ∀ op cmp, FutexEncoding.op w = some op → FutexEncoding.cmp w = some cmp →
      FutexWord.StoresAlike op w old ∧
        FutexWord.wakesSecond w old = FutexEncoding.wakesSecond w old cmp := by
  constructor
  · intro h op cmp hop hcmp
    obtain ⟨hstore,hsecond⟩ := h.same hop hcmp
    exact ⟨(store_eq_iff op).mp hstore,hsecond⟩
  · intro h
    refine ⟨?_,?_⟩
    · intro hop s t thread uaddr1 uaddr2 max1 max2 ht hthread
      exact State.futexWakeOp_refused ht hthread (by rw [shiftedOp_eq]; exact hop)
    · intro op cmp hop hcmp s t thread uaddr1 uaddr2 max1 max2 ht hthread hold
      obtain ⟨hstore,hsecond⟩ := h op cmp hop hcmp
      rw [State.futexWakeOp_fst ht hthread hold (by rw [shiftedOp_eq]; exact hop),
        (store_eq_iff op).mpr hstore,hsecond]

end Decoded

-- The word that sets 0 and wakes if the old value is above 1: the code stores 4.
theorem clear_wake_misdecoded : FutexEncoding.op 0x04000001 = some .set ∧
    FutexEncoding.cmp 0x04000001 = some .gt ∧ FutexEncoding.arg 0x04000001 = 0 ∧
    FutexEncoding.wakesSecond 0x04000001 2 .gt = true ∧ ¬WakeOpDecoded 0x04000001 2 := by
  refine ⟨by decide,by decide,by decide,by decide,fun h => ?_⟩
  have hstore := (@WakeOpDecoded.same _ _ .set .gt h (by decide) (by decide)).1
  exact absurd hstore (by decide)

end SabaOS.Sched
