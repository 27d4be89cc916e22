import SabaOS.Sched.PollRun

namespace SabaOS.Klib

open SabaOS.Sched

-- The requests a coroutine chain awaits one after another. `ready` is the result of a
-- `RootAwaitable` built from one, and `none` for one built from a request's callback.
inductive Task (A R : Type) where
  | finish (result : R)
  | await (ready : Option A) (k : A → Task A R)

structure RootAwaitable (A : Type) where
  result : Option A := none
  -- the coroutine to resume is set
  handle : Bool := false
  -- a device request holds the callback
  callback : Bool := false
deriving DecidableEq, Repr

inductive Frame (A R : Type) where
  | running (task : Task A R)
  -- before and after `await_ready`
  | awaiting (k : A → Task A R)
  | suspending (k : A → Task A R)
  | suspended (k : A → Task A R)
  | done (result : R)

def Frame.executing {A R : Type} : Frame A R → Bool
  | .running _ => true
  | .awaiting _ => true
  | .suspending _ => true
  | .suspended _ => false
  | .done _ => false

inductive SyncPhase (R : Type) where
  | starting
  | waiting
  | returned (value : Option R)
  -- the thread is deleted, and its kernel stack unmapped
  | deleted
deriving DecidableEq, Repr

structure SyncCall (A R : Type) where
  thread : Thread
  event : Event
  awaitable : RootAwaitable A
  frame : Frame A R
  phase : SyncPhase R

inductive SyncOp (A : Type) where
  | run
  | complete (result : A)
  | wait
  | send (signal : Nat)
  | resume
  | terminate
  | delete

namespace SyncCall

variable {A R : Type}

def sync (thread : Thread) (awaitable : Task A R) : SyncCall A R where
  thread := thread
  event := {}
  awaitable := {}
  frame := .running awaitable
  phase := .starting

def live (c : SyncCall A R) : Bool :=
  match c.phase with
  | .starting => true
  | .waiting => true
  | .returned _ => false
  | .deleted => false

def trigger (c : SyncCall A R) : SyncCall A R :=
  if c.event.numListeners = 0 then
    { c with event := { c.event with pending := c.event.pending + 1 } }
  else { c with thread := Thread.enqueue { c.thread with whichEvent := 0 } (-1) }

def finish (c : SyncCall A R) (result : R) : SyncCall A R :=
  { c with frame := .done result }.trigger

def run (c : SyncCall A R) : Option (SyncCall A R) :=
  match c.frame with
  | .running (.finish result) => some (c.finish result)
  | .running (.await (some a) k) =>
    some { c with awaitable := { result := some a }, frame := .awaiting k }
  | .running (.await none k) =>
    some { c with awaitable := { callback := true }, frame := .awaiting k }
  | .awaiting k =>
    match c.awaitable.result with
    | some a => some { c with frame := .running (k a) }
    | none => some { c with frame := .suspending k }
  | .suspending k =>
    some { c with awaitable := { c.awaitable with handle := true }, frame := .suspended k }
  | .suspended _ => none
  | .done _ => none

def callbackHandler (c : SyncCall A R) (result : A) : SyncCall A R :=
  let c := { c with awaitable := { c.awaitable with result := some result, callback := false } }
  match c.frame with
  | .suspended k => if c.awaitable.handle then { c with frame := .running (k result) } else c
  | _ => c

def result (c : SyncCall A R) : Option R :=
  match c.frame with
  | .done result => some result
  | _ => none

def ret (c : SyncCall A R) : SyncCall A R := { c with phase := .returned c.result }

def wait (c : SyncCall A R) : SyncCall A R :=
  if c.thread.hasPendingSignals then c.ret
  else if c.event.pending > 0 then
    { c with event := { c.event with pending := c.event.pending - 1 } }.ret
  else
    { c with
      thread := { c.thread with state := .blocked }
      event := { c.event with numListeners := c.event.numListeners + 1 }
      phase := .waiting }

-- the tail of `Event::wait`, whose answer `sync` ignores
def wake (c : SyncCall A R) : SyncCall A R :=
  { c with
    thread := { c.thread with state := .running }
    event := { c.event with numListeners := c.event.numListeners - 1 } }.ret

-- After the call the callback points into freed memory: no step of the model follows it there.
def step (c : SyncCall A R) : SyncOp A → Option (SyncCall A R)
  | .run => if c.live then c.run else none
  | .complete a => if c.live ∧ c.awaitable.callback then some (c.callbackHandler a) else none
  | .wait =>
    match c.phase with
    | .starting =>
      if c.frame.executing = false ∧ c.thread.state = .running then some c.wait else none
    | _ => none
  | .send signal => some { c with thread := c.thread.raise signal }
  | .resume =>
    match c.phase with
    | .waiting =>
      if c.frame.executing = false ∧ c.thread.state = .ready then some c.wake else none
    | _ => none
  | .terminate => some { c with thread := { c.thread with state := .zombie } }
  | .delete =>
    if c.thread.state = .zombie ∧ c.frame.executing = false then some { c with phase := .deleted }
    else none

def Undisturbed (c : SyncCall A R) : SyncOp A → Prop
  | .wait => c.thread.hasPendingSignals = true → c.event.pending > 0
  | .resume => c.thread.enqueuedBySignal ≠ -1 → c.result.isSome
  | .delete => c.awaitable.callback = false
  | _ => True

def SyncStep (c c' : SyncCall A R) : Prop := ∃ op, c.step op = some c'

def UndisturbedStep (c c' : SyncCall A R) : Prop := ∃ op, c.Undisturbed op ∧ c.step op = some c'

structure Completed (c : SyncCall A R) : Prop where
  produced : ∀ value, c.phase = .returned value → ∃ r, c.frame = .done r ∧ value = some r
  released : c.live = false → c.awaitable.callback = false

structure Sound (c : SyncCall A R) : Prop where
  unanswered : c.awaitable.callback = true → c.awaitable.result = none
  running : ∀ task, c.frame = .running task → c.awaitable.callback = false
  done : ∀ r, c.frame = .done r → c.awaitable.callback = false
  triggered : c.event.pending > 0 → c.result.isSome
  woken : c.phase = .waiting → c.thread.state = .ready → c.thread.enqueuedBySignal = -1 →
    c.result.isSome
  completed : Completed c

theorem result_isSome {c : SyncCall A R} (h : c.result.isSome) : ∃ r, c.frame = .done r := by
  unfold result at h
  split at h
  · rename_i r hf
    exact ⟨r,hf⟩
  · cases h

theorem enqueue_ready {thread : Thread} {signal : Int} (hs : signal ≠ -1)
    (hr : (thread.enqueue signal).state = .ready) (he : (thread.enqueue signal).enqueuedBySignal = -1) :
    thread.state = .ready ∧ thread.enqueuedBySignal = -1 := by
  unfold Thread.enqueue at hr he
  split_ifs at hr he with hb
  · exact absurd he hs
  · exact ⟨hr,he⟩

namespace Sound

variable {c c' : SyncCall A R}

theorem start (thread : Thread) (awaitable : Task A R) : Sound (sync thread awaitable) where
  unanswered := nofun
  running _ _ := rfl
  done _ _ := rfl
  triggered := nofun
  woken := nofun
  completed := ⟨nofun,fun _ => rfl⟩

theorem finish (hc : Sound c) {r : R} (hl : c.live = true)
    (hf : c.frame = .running (.finish r)) : Sound (c.finish r) := by
  have hcb := hc.running _ hf
  have hphase : (c.finish r).phase = c.phase := by
    unfold SyncCall.finish trigger
    split_ifs
    · rfl
    · rfl
  have hframe : (c.finish r).frame = .done r := by
    unfold SyncCall.finish trigger
    split_ifs
    · rfl
    · rfl
  have haw : (c.finish r).awaitable = c.awaitable := by
    unfold SyncCall.finish trigger
    split_ifs
    · rfl
    · rfl
  have hres : (c.finish r).result.isSome := by
    simp [result,hframe]
  refine ⟨?_,?_,?_,fun _ => hres,fun _ _ _ => hres,?_,?_⟩
  · rw [haw]
    exact hc.unanswered
  · rw [haw]
    exact fun _ _ => hcb
  · rw [haw]
    exact fun _ _ => hcb
  · intro value hp
    rw [hphase] at hp
    simp [live,hp] at hl
  · rw [haw]
    exact fun _ => hcb

theorem move (hc : Sound c) (hl : c.live = true) {awaitable : RootAwaitable A} {frame : Frame A R}
    (hn : c.result = none) (ha : awaitable.callback = true → awaitable.result = none)
    (hr : ∀ task, frame = .running task → awaitable.callback = false)
    (hd : ∀ r, frame ≠ .done r) :
    Sound { c with awaitable := awaitable, frame := frame } := by
  have hnone : ¬c.result.isSome := by simp [hn]
  refine ⟨ha,hr,fun r h => absurd h (hd r),fun h => absurd (hc.triggered h) hnone,
    fun hp hs he => absurd (hc.woken hp hs he) hnone,?_,?_⟩
  · intro value hp
    dsimp only at hp
    simp [live,hp] at hl
  · intro hdead
    simp only [live] at hl hdead
    exact absurd (hl.symm.trans hdead) nofun

theorem run (hc : Sound c) (hl : c.live = true) (h : c.run = some c') : Sound c' := by
  unfold SyncCall.run at h
  split at h
  · rename_i r hf
    cases h
    exact hc.finish hl hf
  · rename_i a k hf
    cases h
    exact hc.move hl (by simp [result,hf]) nofun nofun nofun
  · rename_i k hf
    cases h
    exact hc.move hl (by simp [result,hf]) (fun _ => rfl) nofun nofun
  · rename_i k hf
    split at h
    · rename_i a ha
      cases h
      have hcb : c.awaitable.callback = false := by
        cases hcb : c.awaitable.callback with
        | false => rfl
        | true => exact absurd (ha.symm.trans (hc.unanswered hcb)) nofun
      exact hc.move hl (by simp [result,hf]) hc.unanswered (fun _ _ => hcb) nofun
    · cases h
      exact hc.move hl (by simp [result,hf]) hc.unanswered nofun nofun
  · rename_i k hf
    cases h
    exact hc.move hl (by simp [result,hf]) hc.unanswered nofun nofun
  · cases h
  · cases h

theorem callbackHandler (hc : Sound c) (hl : c.live = true) (hcb : c.awaitable.callback = true)
    (a : A) : Sound (c.callbackHandler a) := by
  have hn : c.result = none := by
    cases hf : c.frame with
    | done r => exact absurd (hcb.symm.trans (hc.done r hf)) nofun
    | _ => simp [result,hf]
  have hd : ∀ r, c.frame ≠ .done r := fun r hf => absurd (hcb.symm.trans (hc.done r hf)) nofun
  have hsame : Sound { c with awaitable := { c.awaitable with result := some a, callback := false } } :=
    hc.move hl hn nofun (fun _ _ => rfl) hd
  unfold SyncCall.callbackHandler
  dsimp only
  split
  · split_ifs
    · exact hc.move hl hn nofun (fun _ _ => rfl) nofun
    · exact hsame
  · exact hsame

theorem ret (hc : Sound c) (h : c.result.isSome) (thread : Thread) (event : Event) :
    Sound { c with thread := thread, event := event }.ret := by
  obtain ⟨r,hf⟩ := result_isSome h
  refine ⟨hc.unanswered,hc.running,hc.done,fun _ => h,nofun,?_,fun _ => hc.done r hf⟩
  intro value hp
  cases hp
  exact ⟨r,hf,by simp [result,hf]⟩

theorem block (hc : Sound c) (hp : ¬c.event.pending > 0) :
    Sound { c with
      thread := { c.thread with state := .blocked }
      event := { c.event with numListeners := c.event.numListeners + 1 }
      phase := .waiting } where
  unanswered := hc.unanswered
  running := hc.running
  done := hc.done
  triggered h := absurd h hp
  woken := nofun
  completed := ⟨nofun,nofun⟩

theorem wait (hc : Sound c) (hu : c.Undisturbed .wait) : Sound c.wait := by
  unfold SyncCall.wait
  split_ifs with hsignal hp
  · exact hc.ret (hc.triggered (hu hsignal)) c.thread c.event
  · exact hc.ret (hc.triggered hp) c.thread _
  · exact hc.block hp

theorem wake (hc : Sound c) (hu : c.Undisturbed .resume) (hp : c.phase = .waiting)
    (hs : c.thread.state = .ready) : Sound c.wake := by
  have hres : c.result.isSome := by
    by_cases he : c.thread.enqueuedBySignal = -1
    · exact hc.woken hp hs he
    · exact hu he
  exact hc.ret hres _ _

theorem raise (hc : Sound c) (signal : Nat) :
    Sound { c with thread := c.thread.raise signal } := by
  refine ⟨hc.unanswered,hc.running,hc.done,hc.triggered,?_,hc.completed.produced,
    hc.completed.released⟩
  intro hp hs he
  have hready := enqueue_ready (by omega) hs he
  exact hc.woken hp hready.1 hready.2

theorem terminate (hc : Sound c) :
    Sound { c with thread := { c.thread with state := .zombie } } :=
  ⟨hc.unanswered,hc.running,hc.done,hc.triggered,nofun,hc.completed.produced,
    hc.completed.released⟩

theorem delete (hc : Sound c) (hcb : c.awaitable.callback = false) :
    Sound { c with phase := .deleted } :=
  ⟨hc.unanswered,hc.running,hc.done,hc.triggered,nofun,nofun,fun _ => hcb⟩

theorem step (hc : Sound c) {op : SyncOp A} (hu : c.Undisturbed op)
    (h : c.step op = some c') : Sound c' := by
  cases op with
  | run =>
    simp only [SyncCall.step] at h
    split_ifs at h with hl
    exact hc.run hl h
  | complete a =>
    simp only [SyncCall.step] at h
    split_ifs at h with hl
    cases h
    exact hc.callbackHandler hl.1 hl.2 a
  | wait =>
    simp only [SyncCall.step] at h
    split at h
    · split_ifs at h
      cases h
      exact hc.wait hu
    · cases h
  | send signal =>
    cases h
    exact hc.raise signal
  | resume =>
    simp only [SyncCall.step] at h
    split at h
    · rename_i hp
      split_ifs at h with hs
      cases h
      exact hc.wake hu hp hs.2
    · cases h
  | terminate =>
    cases h
    exact hc.terminate
  | delete =>
    simp only [SyncCall.step] at h
    split_ifs at h
    cases h
    exact hc.delete hu

theorem run_kept (hc : Sound c) (hrun : Relation.ReflTransGen UndisturbedStep c c') :
    Sound c' := by
  induction hrun with
  | refl => exact hc
  | tail _ hstep ih =>
    obtain ⟨op,hu,hop⟩ := hstep
    exact ih.step hu hop

end Sound

theorem sync_completed {thread : Thread} {awaitable : Task A R} {c : SyncCall A R}
    (hrun : Relation.ReflTransGen UndisturbedStep (sync thread awaitable) c) : Completed c :=
  ((Sound.start thread awaitable).run_kept hrun).completed

end SyncCall

-- `read_write_block` of the virtio device, whose answer is `sync`'s
def readWriteBlock : Task Int Int := .await none .finish

def syncCaller (pendingSignals : UInt64) : Thread where
  process := 1
  state := .running
  pendingSignals := pendingSignals

def submitted (pendingSignals : UInt64) : SyncCall Int Int where
  thread := syncCaller pendingSignals
  event := {}
  awaitable := { handle := true, callback := true }
  frame := .suspended .finish
  phase := .starting

namespace SyncCall

theorem submitted_reached (pendingSignals : UInt64) :
    Relation.ReflTransGen UndisturbedStep (sync (syncCaller pendingSignals) readWriteBlock)
      (submitted pendingSignals) :=
  .head ⟨.run,trivial,rfl⟩ (.head ⟨.run,trivial,rfl⟩ (.single ⟨.run,trivial,rfl⟩))

def blockRead : SyncCall Int Int where
  thread := syncCaller 0
  event := {}
  awaitable := { result := some 0, handle := true }
  frame := .done 0
  phase := .returned (some 0)

theorem sync_completed_read :
    Relation.ReflTransGen UndisturbedStep (sync (syncCaller 0) readWriteBlock) blockRead ∧
      Completed blockRead := by
  have hrun : Relation.ReflTransGen UndisturbedStep (sync (syncCaller 0) readWriteBlock)
      blockRead := by
    refine (submitted_reached 0).trans ?_
    refine .head ⟨.wait,by simp only [Undisturbed]; decide,rfl⟩ ?_
    refine .head ⟨.complete 0,trivial,rfl⟩ (.head ⟨.run,trivial,rfl⟩ (.single ?_))
    exact ⟨.resume,fun _ => rfl,rfl⟩
  exact ⟨hrun,sync_completed hrun⟩

-- signal 10 is pending when the thread waits for the device
theorem sync_interrupted :
    ¬∀ (thread : Thread) (awaitable : Task Int Int) (c : SyncCall Int Int),
      Relation.ReflTransGen SyncStep (sync thread awaitable) c → Completed c := by
  intro hall
  have hstep : SyncStep (submitted 0x200) ((submitted 0x200).wait) :=
    ⟨.wait,rfl⟩
  have hrun : Relation.ReflTransGen SyncStep (sync (syncCaller 0x200) readWriteBlock)
      (submitted 0x200) := by
    refine Relation.ReflTransGen.mono ?_ _ _ (submitted_reached 0x200)
    rintro c c' ⟨op,-,hop⟩
    exact ⟨op,hop⟩
  have hc := hall _ _ _ (hrun.tail hstep)
  obtain ⟨r,hf,-⟩ := hc.produced none rfl
  cases hf

end SyncCall

end SabaOS.Klib
