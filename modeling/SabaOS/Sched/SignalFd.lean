import Mathlib.Data.Finset.Sort
import Mathlib.Order.Interval.Finset.Nat
import SabaOS.Sched.SignalCalls

namespace SabaOS.Sched

section Model

structure SignalFd where
  mask : UInt64
deriving DecidableEq, Repr

-- the size of a `signalfd_siginfo`
def siginfoSize : Nat := 128

inductive SignalReply where
  | done
  | error (errno : Int)
  | block
  | siginfos (signals : List Nat)
  | handled (signal : Option Nat)
deriving DecidableEq, Repr

def lowestSignal (accepted : UInt64) : Option Nat :=
  ((List.range 64).find? fun i => (accepted >>> i.toUInt64) &&& 1 = 1).map (· + 1)

namespace SignalFd

def ewouldblock : Int := eagain

-- The loop of `read` with the room that is left. A failed assertion is `none`.
def take (fd : SignalFd) : Nat → Thread → Option (Thread × List Nat)
  | 0,thread => some (thread,[])
  | room + 1,thread =>
    if thread.pendingSignals &&& fd.mask = 0 then some (thread,[])
    else do
      let signal ← lowestSignal (thread.pendingSignals &&& fd.mask)
      let r ← fd.take room (thread.takeSignal signal)
      some (r.1,signal :: r.2)

def read (fd : SignalFd) (thread : Thread) (nonblock : Bool) (count : Nat) :
    Option (Thread × SignalReply) :=
  if count / siginfoSize < 1 then some (thread,.error einval)
  else if thread.pendingSignals &&& fd.mask = 0 then
    some (thread,if nonblock then .error ewouldblock else .block)
  else (fd.take (count / siginfoSize) thread).map fun r => (r.1,.siginfos r.2)

def poll (fd : SignalFd) (thread : Thread) : Bool := thread.pendingSignals &&& fd.mask ≠ 0

end SignalFd

inductive MailOp where
  | raise (signal : Nat)
  | read (nonblock : Bool) (count : Nat)
  | handle
  | setMask (mask : UInt64)
  | setWanted (mask : UInt64)
deriving DecidableEq, Repr

def mailStep (s : Thread × SignalFd) : MailOp → Option ((Thread × SignalFd) × SignalReply)
  | .raise signal =>
    some ((({ s.1 with pendingSignals := s.1.pendingSignals ||| getSignalBit signal } : Thread),s.2),.done)
  | .read nonblock count => (s.2.read s.1 nonblock count).map fun r => ((r.1,s.2),r.2)
  | .handle =>
    some (match s.1.nextSignal with
      | none => (s,.handled none)
      | some signal => ((s.1.takeSignal signal,s.2),.handled (some signal)))
  | .setMask mask => some ((s.1.setMask mask,s.2),.done)
  | .setWanted mask => some ((s.1,⟨mask⟩),.done)

def mailRun (s : Thread × SignalFd) : List MailOp → Option ((Thread × SignalFd) × List SignalReply)
  | [] => some (s,[])
  | op :: ops => do
    let r ← mailStep s op
    let rest ← mailRun r.1 ops
    some (rest.1,r.2 :: rest.2)

end Model

section Specification

structure Mailbox where
  pending : Finset Nat
  wanted : Finset Nat
  blocked : Finset Nat

def signalSet (mask : UInt64) : Finset Nat :=
  (Finset.Icc 1 64).filter fun signal => mask.toBitVec.getLsbD (signal - 1) = true

namespace Mailbox

def read (m : Mailbox) (nonblock : Bool) (room : Nat) : Mailbox × SignalReply :=
  if room < 1 then (m,.error einval)
  else if m.pending ∩ m.wanted = ∅ then
    (m,if nonblock then .error SignalFd.ewouldblock else .block)
  else
    let got := ((m.pending ∩ m.wanted).sort (· ≤ ·)).take room
    ({ m with pending := m.pending \ got.toFinset },.siginfos got)

def handle (m : Mailbox) : Mailbox × SignalReply :=
  match ((m.pending \ m.blocked).sort (· ≤ ·)).head? with
  | none => (m,.handled none)
  | some signal => ({ m with pending := m.pending.erase signal },.handled (some signal))

def step (m : Mailbox) : MailOp → Mailbox × SignalReply
  | .raise signal => ({ m with pending := insert signal m.pending },.done)
  | .read nonblock count => m.read nonblock (count / siginfoSize)
  | .handle => m.handle
  | .setMask mask => ({ m with blocked := signalSet mask },.done)
  | .setWanted mask => ({ m with wanted := signalSet mask },.done)

def run (m : Mailbox) : List MailOp → Mailbox × List SignalReply
  | [] => (m,[])
  | op :: ops =>
    let r := m.step op
    let rest := r.1.run ops
    (rest.1,r.2 :: rest.2)

def of (s : Thread × SignalFd) : Mailbox :=
  ⟨signalSet s.1.pendingSignals,signalSet s.2.mask,signalSet s.1.signals.signalMask⟩

end Mailbox

def MailOp.raised : MailOp → List Nat
  | .raise signal => [signal]
  | _ => []

def SignalReply.delivered : SignalReply → List Nat
  | .siginfos signals => signals
  | .handled (some signal) => [signal]
  | _ => []

end Specification

section Bits

variable {mask mask' : UInt64} {signal i : Nat}

theorem mem_signals : signal ∈ signalSet mask ↔
    1 ≤ signal ∧ signal ≤ 64 ∧ mask.toBitVec.getLsbD (signal - 1) = true := by
  simp [signalSet,and_assoc]

theorem getSignalBit_getLsbD (hlo : 1 ≤ signal) (hhi : signal ≤ 64) (hi : i < 64) :
    (getSignalBit signal).toBitVec.getLsbD i = decide (i = signal - 1) := by
  have hall : ∀ k < 64, ∀ i < 64, (getSignalBit (k + 1)).toBitVec.getLsbD i = decide (i = k) := by
    decide +kernel
  have h := hall (signal - 1) (by omega) i hi
  rwa [Nat.sub_add_cancel hlo] at h

theorem signals_and : signalSet (mask &&& mask') = signalSet mask ∩ signalSet mask' := by
  ext k
  simp only [mem_signals,Finset.mem_inter,UInt64.toBitVec_and,BitVec.getLsbD_and,Bool.and_eq_true]
  tauto

theorem signals_diff : signalSet (mask &&& ~~~mask') = signalSet mask \ signalSet mask' := by
  ext k
  simp only [mem_signals,Finset.mem_sdiff,UInt64.toBitVec_and,UInt64.toBitVec_not,
    BitVec.getLsbD_and,BitVec.getLsbD_not,Bool.and_eq_true,decide_eq_true_eq,Bool.not_eq_true']
  constructor
  · rintro ⟨hlo,hhi,hm,-,hn⟩
    exact ⟨⟨hlo,hhi,hm⟩,fun h => by simp [hn] at h⟩
  · rintro ⟨⟨hlo,hhi,hm⟩,hn⟩
    refine ⟨hlo,hhi,hm,by omega,?_⟩
    by_contra hb
    exact hn ⟨hlo,hhi,by simpa using hb⟩

theorem signals_bit (hlo : 1 ≤ signal) (hhi : signal ≤ 64) :
    signalSet (getSignalBit signal) = {signal} := by
  ext k
  rw [mem_signals,Finset.mem_singleton]
  constructor
  · rintro ⟨hk,hk',hbit⟩
    rw [getSignalBit_getLsbD hlo hhi (by omega),decide_eq_true_eq] at hbit
    omega
  · rintro rfl
    exact ⟨hlo,hhi,by rw [getSignalBit_getLsbD hlo hhi (by omega)]; simp⟩

theorem signals_raise (hlo : 1 ≤ signal) (hhi : signal ≤ 64) :
    signalSet (mask ||| getSignalBit signal) = insert signal (signalSet mask) := by
  have hor : signalSet (mask ||| getSignalBit signal) =
      signalSet (getSignalBit signal) ∪ signalSet mask := by
    ext k
    simp only [mem_signals,Finset.mem_union,UInt64.toBitVec_or,BitVec.getLsbD_or,Bool.or_eq_true]
    tauto
  rw [hor,signals_bit hlo hhi,Finset.insert_eq]

theorem signals_take (hlo : 1 ≤ signal) (hhi : signal ≤ 64) :
    signalSet (mask &&& ~~~getSignalBit signal) = (signalSet mask).erase signal := by
  rw [signals_diff,signals_bit hlo hhi,Finset.sdiff_singleton_eq_erase]

theorem signals_eq_empty : signalSet mask = ∅ ↔ mask = 0 := by
  constructor
  · intro h
    apply UInt64.toBitVec_inj.mp
    apply BitVec.eq_of_getLsbD_eq
    intro i hi
    have hno : i + 1 ∉ signalSet mask := by simp [h]
    rw [mem_signals] at hno
    simp only [Nat.le_add_left,Nat.add_sub_cancel,true_and,not_and,Bool.not_eq_true] at hno
    rw [hno (by omega)]
    simp
  · rintro rfl
    ext k
    simp [mem_signals]

theorem bit_iff (hi : i < 64) : (mask >>> i.toUInt64) &&& 1 = 1 ↔ mask.toBitVec.getLsbD i = true := by
  rw [← UInt64.toNat_inj,UInt64.toNat_and,UInt64.toNat_shiftRight]
  have hmod : i.toUInt64.toNat % 64 = i := by
    rw [show i.toUInt64.toNat = i % 2 ^ 64 from rfl]
    omega
  rw [hmod,BitVec.getLsbD,UInt64.toNat_toBitVec,Nat.testBit_eq_decide_div_mod_eq,decide_eq_true_eq,
    Nat.shiftRight_eq_div_pow]
  exact Eq.congr (Nat.and_one_is_mod _) rfl

theorem sort_least {S : Finset Nat} (hmem : signal ∈ S) (hleast : ∀ k ∈ S, signal ≤ k) :
    S.sort (· ≤ ·) = signal :: (S.erase signal).sort (· ≤ ·) := by
  have hrest : ∀ k ∈ S.erase signal, signal ≤ k := fun k hk => hleast k (Finset.mem_of_mem_erase hk)
  have hsort := Finset.sort_insert (· ≤ ·) hrest (Finset.notMem_erase signal S)
  rwa [Finset.insert_erase hmem] at hsort

theorem lowestSignal_some (h : lowestSignal mask = some signal) :
    signal ∈ signalSet mask ∧ ∀ k ∈ signalSet mask, signal ≤ k := by
  obtain ⟨i,hfind,rfl⟩ := Option.map_eq_some_iff.mp h
  obtain ⟨hbit,hmem,hless⟩ := List.find?_range_eq_some.mp hfind
  have hi : i < 64 := List.mem_range.mp hmem
  refine ⟨mem_signals.mpr ⟨by omega,by omega,?_⟩,fun k hk => ?_⟩
  · simpa using (bit_iff hi).mp (by simpa using hbit)
  · obtain ⟨hlo,hhi,hk⟩ := mem_signals.mp hk
    by_contra hlt
    have hno : k - 1 < i := by omega
    have hset : (mask >>> (k - 1).toUInt64) &&& 1 = 1 := (bit_iff (by omega)).mpr hk
    have hclear := hless (k - 1) hno
    simp [hset] at hclear

theorem lowestSignal_none : lowestSignal mask = none ↔ mask = 0 := by
  rw [← signals_eq_empty,lowestSignal,Option.map_eq_none_iff,List.find?_range_eq_none]
  constructor
  · intro h
    refine Finset.eq_empty_of_forall_notMem fun k hk => ?_
    obtain ⟨hlo,hhi,hbit⟩ := mem_signals.mp hk
    have hset : (mask >>> (k - 1).toUInt64) &&& 1 = 1 := (bit_iff (by omega)).mpr hbit
    have hclear := h (k - 1) (by omega)
    simp [hset] at hclear
  · intro h i hi
    rw [Bool.not_eq_true',decide_eq_false_iff_not,bit_iff hi]
    intro hbit
    have hmem : i + 1 ∈ signalSet mask := mem_signals.mpr ⟨by omega,by omega,by simpa using hbit⟩
    simp [h] at hmem

theorem lowestSignal_eq : lowestSignal mask = ((signalSet mask).sort (· ≤ ·)).head? := by
  cases h : lowestSignal mask with
  | none =>
    rw [signals_eq_empty.mpr (lowestSignal_none.mp h),Finset.sort_empty,List.head?_nil]
  | some signal =>
    obtain ⟨hmem,hleast⟩ := lowestSignal_some h
    rw [sort_least hmem hleast]
    rfl

end Bits

section Mailboxes

variable {m : Mailbox} {op : MailOp} {ops : List MailOp} {room signal : Nat}

namespace Mailbox

def waits (m : Mailbox) (signal : Nat) : Nat := if signal ∈ m.pending then 1 else 0

structure Gives (m m' : Mailbox) (given : List Nat) : Prop where
  nodup : given.Nodup
  subset : ∀ signal ∈ given, signal ∈ m.pending
  pending : m'.pending = m.pending \ given.toFinset

theorem Gives.balance {m' : Mailbox} {given : List Nat} (h : Gives m m' given) (signal : Nat) :
    given.count signal + m'.waits signal = m.waits signal ∧
      (signal ∈ m.pending → signal ∈ m'.pending ∨ signal ∈ given) := by
  have hmem : signal ∈ m'.pending ↔ signal ∈ m.pending ∧ signal ∉ given := by
    rw [h.pending,Finset.mem_sdiff,List.mem_toFinset]
  by_cases hgiven : signal ∈ given
  · have hcount : given.count signal = 1 := List.count_eq_one_of_mem h.nodup hgiven
    exact ⟨by simp [waits,hmem,hgiven,hcount,h.subset signal hgiven],fun _ => .inr hgiven⟩
  · exact ⟨by simp [waits,hmem,hgiven,List.count_eq_zero_of_not_mem hgiven],
      fun hp => .inl (hmem.mpr ⟨hp,hgiven⟩)⟩

theorem Gives.nothing {m' : Mailbox} (h : m'.pending = m.pending) : Gives m m' [] :=
  ⟨List.nodup_nil,fun _ hmem => absurd hmem List.not_mem_nil,by simp [h]⟩

theorem read_gives (nonblock : Bool) :
    Gives m (m.read nonblock room).1 (m.read nonblock room).2.delivered := by
  rw [read]
  split_ifs
  · exact .nothing rfl
  · exact .nothing rfl
  · exact .nothing rfl
  · have hsub : ∀ k ∈ ((m.pending ∩ m.wanted).sort (· ≤ ·)).take room, k ∈ m.pending := by
      intro k hk
      have hmem : k ∈ m.pending ∩ m.wanted := (Finset.mem_sort _).mp (List.mem_of_mem_take hk)
      exact (Finset.mem_inter.mp hmem).1
    exact ⟨(Finset.sort_nodup _ _).sublist (List.take_sublist _ _),hsub,rfl⟩

theorem handle_gives : Gives m m.handle.1 m.handle.2.delivered := by
  rw [handle]
  cases hhead : ((m.pending \ m.blocked).sort (· ≤ ·)).head? with
  | none => exact .nothing rfl
  | some k =>
    have hmem : k ∈ m.pending \ m.blocked := (Finset.mem_sort _).mp (List.mem_of_mem_head? hhead)
    refine ⟨List.nodup_singleton k,fun j hj => ?_,?_⟩
    · exact List.mem_singleton.mp hj ▸ (Finset.mem_sdiff.mp hmem).1
    · ext j
      simp [SignalReply.delivered,and_comm]

theorem step_balance (m : Mailbox) (op : MailOp) (signal : Nat) :
    (m.step op).2.delivered.count signal + (m.step op).1.waits signal ≤
        op.raised.count signal + m.waits signal ∧
      (signal ∈ m.pending → signal ∈ (m.step op).1.pending ∨ signal ∈ (m.step op).2.delivered) := by
  have hgives : ∀ {m' : Mailbox} {given : List Nat}, Gives m m' given →
      given.count signal + m'.waits signal ≤ List.count signal [] + m.waits signal ∧
        (signal ∈ m.pending → signal ∈ m'.pending ∨ signal ∈ given) := by
    intro m' given h
    obtain ⟨hbalance,hkept⟩ := h.balance signal
    rw [List.count_nil,Nat.zero_add]
    exact ⟨Nat.le_of_eq hbalance,hkept⟩
  cases op with
  | raise k =>
    refine ⟨?_,fun hp => .inl (Finset.mem_insert_of_mem hp)⟩
    rcases eq_or_ne signal k with rfl | hne
    · simp [step,waits,SignalReply.delivered,MailOp.raised]
    · simp [step,waits,SignalReply.delivered,MailOp.raised,hne,hne.symm]
  | read nonblock count => exact hgives (read_gives nonblock)
  | handle => exact hgives handle_gives
  | setMask mask => exact hgives (.nothing rfl)
  | setWanted mask => exact hgives (.nothing rfl)

theorem run_balance (m : Mailbox) (ops : List MailOp) (signal : Nat) :
    ((m.run ops).2.flatMap SignalReply.delivered).count signal + (m.run ops).1.waits signal ≤
        (ops.flatMap MailOp.raised).count signal + m.waits signal ∧
      (signal ∈ m.pending → signal ∈ (m.run ops).1.pending ∨
        signal ∈ (m.run ops).2.flatMap SignalReply.delivered) := by
  induction ops generalizing m with
  | nil => exact ⟨Nat.le_refl _,.inl⟩
  | cons op ops ih =>
    obtain ⟨hstep,hkept⟩ := m.step_balance op signal
    obtain ⟨hrun,hrest⟩ := ih (m.step op).1
    simp only [run,List.flatMap_cons,List.count_append,List.mem_append]
    refine ⟨by omega,fun hp => ?_⟩
    rcases hkept hp with hp' | hgiven
    · exact (hrest hp').imp_right .inr
    · exact .inr (.inl hgiven)

end Mailbox

end Mailboxes

section Refinement

variable {fd : SignalFd} {thread thread' : Thread} {s s' : Thread × SignalFd} {m : Mailbox}
variable {op : MailOp} {ops : List MailOp} {room : Nat} {out : List SignalReply}

theorem SignalFd.take_eq (fd : SignalFd) (room : Nat) (thread : Thread) : ∃ pending,
    fd.take room thread = some ({ thread with pendingSignals := pending },
      ((signalSet thread.pendingSignals ∩ signalSet fd.mask).sort (· ≤ ·)).take room) ∧
    signalSet pending = signalSet thread.pendingSignals \
      (((signalSet thread.pendingSignals ∩ signalSet fd.mask).sort (· ≤ ·)).take room).toFinset := by
  induction room generalizing thread with
  | zero => exact ⟨thread.pendingSignals,by simp [SignalFd.take],by simp⟩
  | succ room ih =>
    by_cases hnone : thread.pendingSignals &&& fd.mask = 0
    · have hempty : signalSet thread.pendingSignals ∩ signalSet fd.mask = ∅ := by
        rw [← signals_and,signals_eq_empty.mpr hnone]
      exact ⟨thread.pendingSignals,by simp [SignalFd.take,hnone,hempty],by simp [hempty]⟩
    · cases hlow : lowestSignal (thread.pendingSignals &&& fd.mask) with
      | none => exact absurd (lowestSignal_none.mp hlow) hnone
      | some signal =>
        obtain ⟨hmem,hleast⟩ := lowestSignal_some hlow
        obtain ⟨hlo,hhi,-⟩ := mem_signals.mp hmem
        obtain ⟨pending,htake,hpending⟩ := ih (thread.takeSignal signal)
        have hrest : signalSet (thread.takeSignal signal).pendingSignals =
            (signalSet thread.pendingSignals).erase signal := signals_take hlo hhi
        rw [signals_and] at hmem hleast
        rw [hrest,Finset.erase_inter] at htake hpending
        refine ⟨pending,?_,?_⟩
        · rw [SignalFd.take,if_neg hnone,hlow,sort_least hmem hleast]
          simp only [Option.bind_eq_bind,Option.bind_some,htake,List.take_succ_cons]
          rfl
        · rw [hpending,sort_least hmem hleast,List.take_succ_cons,List.toFinset_cons]
          ext k
          simp only [Finset.mem_sdiff,Finset.mem_erase,Finset.mem_insert]
          tauto

theorem SignalFd.poll_iff : fd.poll thread = true ↔
    signalSet thread.pendingSignals ∩ signalSet fd.mask ≠ ∅ := by
  rw [← signals_and,ne_eq,signals_eq_empty,SignalFd.poll]
  simp

theorem SignalFd.read_eq (fd : SignalFd) (thread : Thread) (nonblock : Bool) (count : Nat) :
    ∃ thread' reply, fd.read thread nonblock count = some (thread',reply) ∧
      ((Mailbox.of (thread,fd)).read nonblock (count / siginfoSize)) =
        (Mailbox.of (thread',fd),reply) := by
  rw [SignalFd.read,Mailbox.read]
  have hnone : (Mailbox.of (thread,fd)).pending ∩ (Mailbox.of (thread,fd)).wanted = ∅ ↔
      thread.pendingSignals &&& fd.mask = 0 := by
    rw [← signals_eq_empty,signals_and]
    rfl
  simp only [hnone]
  split_ifs with hroom hempty
  · exact ⟨thread,_,rfl,rfl⟩
  · exact ⟨thread,_,rfl,rfl⟩
  · exact ⟨thread,_,rfl,rfl⟩
  · obtain ⟨pending,htake,hpending⟩ := fd.take_eq (count / siginfoSize) thread
    rw [htake]
    refine ⟨_,_,rfl,?_⟩
    simp only [Mailbox.of,hpending]

theorem handle_eq (s : Thread × SignalFd) : ∃ s' reply, mailStep s .handle = some (s',reply) ∧
    (Mailbox.of s).handle = (Mailbox.of s',reply) := by
  have hnext : s.1.nextSignal =
      (((Mailbox.of s).pending \ (Mailbox.of s).blocked).sort (· ≤ ·)).head? := by
    rw [show s.1.nextSignal = lowestSignal (s.1.pendingSignals &&& ~~~s.1.signals.signalMask) from rfl,
      lowestSignal_eq,signals_diff]
    rfl
  rw [mailStep,Mailbox.handle,← hnext]
  cases hlow : s.1.nextSignal with
  | none => exact ⟨s,_,rfl,rfl⟩
  | some signal =>
    have hsome : lowestSignal (s.1.pendingSignals &&& ~~~s.1.signals.signalMask) = some signal := hlow
    obtain ⟨hmem,-⟩ := lowestSignal_some hsome
    obtain ⟨hlo,hhi,-⟩ := mem_signals.mp hmem
    refine ⟨_,_,rfl,?_⟩
    simp only [Mailbox.of,Thread.takeSignal,signals_take hlo hhi]

def MailOp.Valid : MailOp → Prop
  | .raise signal => 1 ≤ signal ∧ signal ≤ 64
  | _ => True

theorem mailStep_refines (hop : op.Valid) : ∃ s' reply, mailStep s op = some (s',reply) ∧
    (Mailbox.of s).step op = (Mailbox.of s',reply) := by
  cases op with
  | raise signal =>
    refine ⟨_,_,rfl,?_⟩
    simp only [Mailbox.step,Mailbox.of,signals_raise hop.1 hop.2]
  | read nonblock count =>
    obtain ⟨thread',reply,hread,hspec⟩ := s.2.read_eq s.1 nonblock count
    exact ⟨(thread',s.2),reply,by rw [mailStep,hread]; rfl,hspec⟩
  | handle => exact handle_eq s
  | setMask mask => exact ⟨_,_,rfl,rfl⟩
  | setWanted mask => exact ⟨_,_,rfl,rfl⟩

theorem mailRun_refines (hops : ∀ op ∈ ops, op.Valid) : ∃ s' out, mailRun s ops = some (s',out) ∧
    (Mailbox.of s).run ops = (Mailbox.of s',out) := by
  induction ops generalizing s with
  | nil => exact ⟨s,[],rfl,rfl⟩
  | cons op ops ih =>
    obtain ⟨t,reply,hstep,hspec⟩ := mailStep_refines (s := s) (hops op (by simp))
    obtain ⟨s',out,hrun,hrest⟩ := ih (s := t) fun x hx => hops x (List.mem_cons_of_mem op hx)
    refine ⟨s',reply :: out,?_,?_⟩
    · simp [mailRun,hstep,hrun]
    · simp [Mailbox.run,hspec,hrest]

theorem signalFd_run (s : Thread × SignalFd) (hops : ∀ op ∈ ops, op.Valid) : ∃ s' out,
    mailRun s ops = some (s',out) ∧ (Mailbox.of s).run ops = (Mailbox.of s',out) ∧
      ∀ signal, (out.flatMap SignalReply.delivered).count signal + (Mailbox.of s').waits signal ≤
          (ops.flatMap MailOp.raised).count signal + (Mailbox.of s).waits signal ∧
        (signal ∈ signalSet s.1.pendingSignals → signal ∈ signalSet s'.1.pendingSignals ∨
          signal ∈ out.flatMap SignalReply.delivered) := by
  obtain ⟨s',out,hrun,hspec⟩ := mailRun_refines (s := s) hops
  refine ⟨s',out,hrun,hspec,fun signal => ?_⟩
  have hbalance := (Mailbox.of s).run_balance ops signal
  rw [hspec] at hbalance
  exact hbalance

def idleThread : Thread := { process := 1, state := .running }

theorem signalFd_run_kill : ∃ s' out,
    mailRun (idleThread,⟨getSignalBit sigKill⟩) [.raise sigKill,.read true siginfoSize] =
        some (s',out) ∧
      (Mailbox.of (idleThread,⟨getSignalBit sigKill⟩)).run [.raise sigKill,.read true siginfoSize] =
        (Mailbox.of s',out) ∧
      ∀ signal, (out.flatMap SignalReply.delivered).count signal + (Mailbox.of s').waits signal ≤
          ([MailOp.raise sigKill,.read true siginfoSize].flatMap MailOp.raised).count signal +
            (Mailbox.of (idleThread,⟨getSignalBit sigKill⟩)).waits signal ∧
        (signal ∈ signalSet idleThread.pendingSignals → signal ∈ signalSet s'.1.pendingSignals ∨
          signal ∈ out.flatMap SignalReply.delivered) :=
  signalFd_run (idleThread,⟨getSignalBit sigKill⟩) (by simp [MailOp.Valid,sigKill])

end Refinement

end SabaOS.Sched
