import SabaOS.Userland.Pipe

namespace SabaOS.Userland

section Counter

open SabaOS.Lib

structure EventFd where
  counter : UInt64
  isSemaphore : Bool := false
deriving DecidableEq, Repr

def counterMax : UInt64 := 0xfffffffffffffffe

inductive EventFdCall where
  | read (nonblock : Bool) (count : Nat)
  | write (nonblock : Bool) (count : Nat) (toAdd : UInt64)
deriving DecidableEq, Repr

namespace EventFd

def read (e : EventFd) (nonblock : Bool) (count : Nat) : Attempt EventFd (Int × UInt64) :=
  if count < 8 then .refuse (-einval,0)
  else if e.counter = 0 then
    if nonblock then .refuse (-ewouldblock,0) else .wait
  else if e.isSemaphore then .done { e with counter := e.counter - 1 } true (8,1)
  else .done { e with counter := 0 } true (8,e.counter)

def write (e : EventFd) (nonblock : Bool) (count : Nat) (toAdd : UInt64) :
    Attempt EventFd (Int × UInt64) :=
  if count < 8 then .refuse (-einval,0)
  else if toAdd = 0xffffffffffffffff then .refuse (-einval,0)
  else if e.counter > counterMax - toAdd then
    if nonblock then .refuse (-ewouldblock,0) else .wait
  else .done { e with counter := e.counter + toAdd } true (8,0)

def attempt : EventFdCall → EventFd → Attempt EventFd (Int × UInt64)
  | .read nonblock count, e => e.read nonblock count
  | .write nonblock count toAdd, e => e.write nonblock count toAdd

-- closing an eventfd changes nothing and wakes nobody
abbrev Step {T : Type} [DecidableEq T] := Monitor.Step (T := T) attempt (fun _ _ => False) true

theorem read_wait {e : EventFd} {nonblock : Bool} {count : Nat}
    (h : e.read nonblock count = .wait) : e.counter = 0 := by
  unfold read at h
  split_ifs at h with hc hz hn hs
  exact hz

theorem write_wait {e : EventFd} {nonblock : Bool} {count : Nat} {toAdd : UInt64}
    (h : e.write nonblock count toAdd = .wait) :
    counterMax.toNat < e.counter.toNat + toAdd.toNat := by
  unfold write at h
  split_ifs at h with hc hm hf hn
  rw [gt_iff_lt,UInt64.lt_iff_toNat_lt,UInt64.toNat_sub] at hf
  have hne : toAdd.toNat ≠ 0xffffffffffffffff := fun hc => hm (UInt64.toNat_inj.mp hc)
  have hlt := toAdd.toNat_lt
  have hmax : counterMax.toNat = 0xfffffffffffffffe := rfl
  omega

end EventFd

section Balance

open SabaOS.Lib

def efdSemaphore : UInt32 := 1

def efdNonblock : UInt32 := 0x800

def efdCloexec : UInt32 := 0x80000

namespace EventFd

-- The new node and the flags of its description: `?:` binds weaker than `|`, and `O_RDWR` is not zero.
def eventfdImpl (initval flags : UInt32) : Except Int (EventFd × UInt32) :=
  if flags &&& ~~~(efdNonblock ||| efdCloexec ||| efdSemaphore) ≠ 0 then .error (-einval)
  else .ok (⟨initval.toUInt64,flags &&& efdSemaphore ≠ 0⟩,
    if 2 ||| (flags &&& efdNonblock) ≠ 0 then efdNonblock else 0)

def writtenBy : EventFdCall × (Int × UInt64) → Nat
  | (.write _ _ toAdd,(ret,_)) => if ret = 8 then toAdd.toNat else 0
  | (.read _ _,_) => 0

def returnedBy : EventFdCall × (Int × UInt64) → Nat
  | (.read _ _,(ret,value)) => if ret = 8 then value.toNat else 0
  | (.write _ _ _,_) => 0

structure Balanced (initial : Nat) (e : EventFd) (log : List (EventFdCall × (Int × UInt64))) :
    Prop where
  bounded : e.counter ≤ counterMax
  balance : initial + (log.map writtenBy).sum = (log.map returnedBy).sum + e.counter.toNat

section Steps

variable {e e' : EventFd} {nonblock drop : Bool} {count : Nat} {toAdd : UInt64}
  {a : Int × UInt64} {initial : Nat} {log : List (EventFdCall × (Int × UInt64))}

theorem read_done (h : e.read nonblock count = .done e' drop a) :
    a.1 = 8 ∧ e.counter.toNat = a.2.toNat + e'.counter.toNat := by
  unfold read at h
  split_ifs at h with hc hz hn hs
  · cases h
    have hne : e.counter.toNat ≠ 0 := fun h0 => hz (UInt64.toNat_inj.mp h0)
    have hone : (1 : UInt64).toNat = 1 := rfl
    refine ⟨rfl,?_⟩
    simp only [UInt64.toNat_sub]
    have := e.counter.toNat_lt
    omega
  · cases h
    exact ⟨rfl,rfl⟩

theorem read_refuse (h : e.read nonblock count = .refuse a) : a.1 < 0 := by
  unfold read at h
  split_ifs at h
  · cases h
    decide
  · cases h
    decide

theorem write_done (h : e.write nonblock count toAdd = .done e' drop a) :
    a.1 = 8 ∧ e'.counter.toNat = e.counter.toNat + toAdd.toNat ∧ e'.counter ≤ counterMax := by
  unfold write at h
  split_ifs at h with hc hm hf
  cases h
  have hmax : counterMax.toNat = 0xfffffffffffffffe := rfl
  have hne : toAdd.toNat ≠ 0xffffffffffffffff := fun hc => hm (UInt64.toNat_inj.mp hc)
  have hlt := toAdd.toNat_lt
  have hfits : e.counter.toNat + toAdd.toNat ≤ 0xfffffffffffffffe := by
    rw [gt_iff_lt,UInt64.lt_iff_toNat_lt,UInt64.toNat_sub] at hf
    omega
  have hsum : (e.counter + toAdd).toNat = e.counter.toNat + toAdd.toNat := by
    rw [UInt64.toNat_add]
    omega
  refine ⟨rfl,hsum,UInt64.le_iff_toNat_le.mpr ?_⟩
  dsimp only
  omega

theorem write_refuse (h : e.write nonblock count toAdd = .refuse a) : a.1 < 0 := by
  unfold write at h
  split_ifs at h
  · cases h
    decide
  · cases h
    decide
  · cases h
    decide

theorem Balanced.booked {q : EventFdCall} (hbal : Balanced initial e log)
    (h : Monitor.Booked attempt q e e' (some a)) : Balanced initial e' (log ++ [(q,a)]) := by
  obtain ⟨hb,hsum⟩ := hbal
  obtain ⟨ret,value⟩ := a
  cases q with
  | read nonblock count =>
    cases h with
    | done drop _ h =>
      obtain ⟨rfl,hval⟩ := read_done h
      dsimp only at hval
      refine ⟨UInt64.le_iff_toNat_le.mpr ?_,?_⟩
      · have := UInt64.le_iff_toNat_le.mp hb
        omega
      · simp [writtenBy,returnedBy]
        omega
    | refuse _ h hr =>
      subst hr
      have hneg : ret < 0 := read_refuse h
      refine ⟨hb,?_⟩
      simp [writtenBy,returnedBy,show ret ≠ 8 by omega]
      omega
  | write nonblock count toAdd =>
    cases h with
    | done drop _ h =>
      obtain ⟨rfl,hval,hle⟩ := write_done h
      refine ⟨hle,?_⟩
      simp [writtenBy,returnedBy]
      omega
    | refuse _ h hr =>
      subst hr
      have hneg : ret < 0 := write_refuse h
      refine ⟨hb,?_⟩
      simp [writtenBy,returnedBy,show ret ≠ 8 by omega]
      omega

theorem Balanced.created {initval flags f : UInt32} (h : eventfdImpl initval flags = .ok (e,f)) :
    Balanced initval.toNat e [] := by
  unfold eventfdImpl at h
  split_ifs at h <;> cases h
  all_goals
    have hlt := initval.toNat_lt
    have hmax : counterMax.toNat = 0xfffffffffffffffe := rfl
    refine ⟨UInt64.le_iff_toNat_le.mpr ?_,?_⟩
    · simp only [UInt32.toNat_toUInt64]
      omega
    · simp

end Steps

section

variable {T : Type} [DecidableEq T] {m m' : Monitor T EventFd EventFdCall}

theorem balanced_run {initval flags f : UInt32} {log : List (EventFdCall × (Int × UInt64))}
    (hnew : eventfdImpl initval flags = .ok (m.resource,f)) (hrun : Monitor.Ledger attempt m log m') :
    Balanced initval.toNat m'.resource log :=
  hrun.keeps (fun _ _ _ _ _ hb hbal => hbal.booked hb) (.created hnew)

end

def semaphoreFd : Monitor Nat EventFd EventFdCall where
  resource := ⟨1,true⟩
  pending := 0
  listeners := []
  calls _ := .idle

theorem balanced_run_semaphore : ∃ m', Monitor.Ledger attempt semaphoreFd
    [(.read true 8,(8,1)),(.read true 8,(-ewouldblock,0))] m' ∧
      Balanced 1 m'.resource [(.read true 8,(8,1)),(.read true 8,(-ewouldblock,0))] := by
  have hrun := ((@Monitor.Ledger.refl _ _ _ _ _ attempt semaphoreFd).tail
    (.enter 0 (.read true 8) rfl)).tail (.enter 1 (.read true 8) rfl)
  exact ⟨_,hrun,@balanced_run _ _ semaphoreFd _ 1 1 efdNonblock _ rfl hrun⟩

end EventFd

end Balance

end Counter

section WakeUps

open SabaOS.Klib SabaOS.Lib

section

variable {T : Type} [DecidableEq T]

structure PipeSettled (m : Monitor T Pipe PipeCall) : Prop where
  read : ∀ t nonblock count, m.calls t = .asleep (.read nonblock count) →
    m.resource.ringBuffer.dataCount = 0 ∧ m.resource.writers ≠ 0
  write : ∀ t nonblock buf, m.calls t = .asleep (.write nonblock buf) →
    m.resource.ringBuffer.dataCount = pipeCapacity ∧ m.resource.readers ≠ 0
  goesOn : ∀ t q, m.calls t = .woken q → (m.resume Pipe.attempt t).isSome

structure EventFdSettled (m : Monitor T EventFd EventFdCall) : Prop where
  read : ∀ t nonblock count, m.calls t = .asleep (.read nonblock count) → m.resource.counter = 0
  write : ∀ t nonblock count toAdd, m.calls t = .asleep (.write nonblock count toAdd) →
    counterMax.toNat < m.resource.counter.toNat + toAdd.toNat
  goesOn : ∀ t q, m.calls t = .woken q → (m.resume EventFd.attempt t).isSome

theorem pipe_settled {m₀ m : Monitor T Pipe PipeCall} (h₀ : ∀ t, m₀.calls t = .idle)
    (hrun : Relation.ReflTransGen Pipe.Step m₀ m) : PipeSettled m := by
  have hq : Monitor.Quiet Pipe.attempt m := (Monitor.Quiet.idle h₀).run hrun
  refine ⟨?_,?_,fun t q hc => Monitor.resume_isSome hc⟩
  · intro t nonblock count hc
    exact Pipe.read_wait (hq.stuck t _ hc)
  · intro t nonblock buf hc
    exact Pipe.write_wait (hq.stuck t _ hc)

theorem eventfd_settled {m₀ m : Monitor T EventFd EventFdCall} (h₀ : ∀ t, m₀.calls t = .idle)
    (hrun : Relation.ReflTransGen EventFd.Step m₀ m) : EventFdSettled m := by
  have hq : Monitor.Quiet EventFd.attempt m := (Monitor.Quiet.idle h₀).run hrun
  refine ⟨?_,?_,fun t q hc => Monitor.resume_isSome hc⟩
  · intro t nonblock count hc
    exact EventFd.read_wait (hq.stuck t _ hc)
  · intro t nonblock count toAdd hc
    exact EventFd.write_wait (hq.stuck t _ hc)

theorem no_lost_wakeups :
    (∀ m₀ m : Monitor T Pipe PipeCall, (∀ t, m₀.calls t = .idle) →
      Relation.ReflTransGen Pipe.Step m₀ m → PipeSettled m) ∧
    (∀ m₀ m : Monitor T EventFd EventFdCall, (∀ t, m₀.calls t = .idle) →
      Relation.ReflTransGen EventFd.Step m₀ m → EventFdSettled m) :=
  ⟨fun _ _ => pipe_settled,fun _ _ => eventfd_settled⟩

end

def newPipe : Monitor Nat Pipe PipeCall where
  resource := { readers := 1, writers := 1 }
  pending := 0
  listeners := []
  calls _ := .idle

def emptyEventFd : Monitor Nat EventFd EventFdCall where
  resource := { counter := 0 }
  pending := 0
  listeners := []
  calls _ := .idle

theorem newPipe_waits :
    (newPipe.enter Pipe.attempt 1 (.read false 8)).isSome := by decide +kernel

theorem emptyEventFd_waits :
    (emptyEventFd.enter EventFd.attempt 1 (.read false 8)).isSome := by decide +kernel

def readerAsleep : Monitor Nat Pipe PipeCall :=
  ((newPipe.enter Pipe.attempt 1 (.read false 8)).get newPipe_waits).1

def eventReaderAsleep : Monitor Nat EventFd EventFdCall :=
  ((emptyEventFd.enter EventFd.attempt 1 (.read false 8)).get emptyEventFd_waits).1

theorem no_lost_wakeups_reader :
    PipeSettled readerAsleep ∧ EventFdSettled eventReaderAsleep := by
  obtain ⟨hpipe,hevent⟩ := no_lost_wakeups (T := Nat)
  refine ⟨hpipe newPipe _ (fun _ => rfl) (.single ?_),
    hevent emptyEventFd _ (fun _ => rfl) (.single ?_)⟩
  · exact .enter 1 (.read false 8) (Option.some_get newPipe_waits).symm
  · exact .enter 1 (.read false 8) (Option.some_get emptyEventFd_waits).symm

end WakeUps

end SabaOS.Userland
