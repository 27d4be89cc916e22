import SabaOS.Sched.Killable

namespace SabaOS.Sched

def Thread.enqueue (thread : Thread) (signal : Int) : Thread :=
  if thread.state = .blocked then { thread with enqueuedBySignal := signal, state := .ready }
  else thread

def Thread.raise (thread : Thread) (signal : Nat) : Thread :=
  Thread.enqueue { thread with pendingSignals := thread.pendingSignals ||| getSignalBit signal } signal

inductive Place where
  | user
  -- in the loop of `ppoll_impl` or `epoll_pwait2_impl`
  | polling
  -- in the loop's `Event::wait`, between its yield and its return
  | waiting
  | leaving (ret : Int)
  -- back in user mode with the self interrupt pending
  | irq
  | dead
deriving DecidableEq, Repr

structure Level where
  frame : SignalFrame
  extended : ExtendedState
  -- the mask in force when the handler was entered
  mask : UInt64
deriving DecidableEq, Repr

structure Caller where
  thread : Thread
  place : Place
  levels : List Level
  -- the mask the code at this level has set for itself
  mask : UInt64
  -- the signals that have interrupted a call, unblocked only by its sigmask
  owed : UInt64

inductive PollOp where
  | send (signal : Nat)
  | fault (signal : Nat) (action : KernelSigaction)
  | sigprocmask (how : Int) (set : Option UInt64)
  | syscall (ret : Int)
  | poll (sigmask : Option UInt64)
  | wait
  | trigger
  | resume
  | finish (ret : Int)
  | exit
  | sigreturn
  | irq (action : KernelSigaction)

namespace Caller

def interruptedBy (c : Caller) : UInt64 :=
  if c.thread.signals.hasPollSavedSignalMask then
    c.thread.accepted &&& c.thread.signals.pollSavedSignalMask
  else 0

def interrupt (c : Caller) : Caller :=
  { c with place := .leaving (-eintr), owed := c.owed ||| c.interruptedBy }

def enterHandler (c : Caller) (size : UInt64) (signal : Nat) (action : KernelSigaction) : Caller :=
  let addr := frameAddr size c.thread action
  let handler := if action.flags &&& saResetHand ≠ 0 then sigDfl else action.handler
  let frame := signalFrameFor c.thread c.thread.process signal action
    (fpstateAddr size c.thread action) 0
  { c with
    thread := c.thread.enterHandler signal action handler addr
    levels := ⟨frame,c.thread.context.extendedState.getD [],c.mask⟩ :: c.levels
    mask := ((c.thread.setMask c.mask).enterHandler signal action handler addr).signals.signalMask }

def dispatch (c : Caller) (size : UInt64) (action : KernelSigaction) : Caller :=
  let thread := c.thread.beginDispatch
  match thread.nextSignal with
  | none => { c with thread := thread, place := .user }
  | some signal =>
    let taken := (thread.takeSignal signal).restartSyscall action
    let c := { c with
      thread := taken, place := .user, owed := c.owed &&& ~~~getSignalBit signal }
    match disposition signal action with
    | .keep => c
    | .stop => c
    | .terminate => { c with place := .dead }
    | .handle => c.enterHandler size signal action

def leaveHandler (c : Caller) : Option Caller :=
  match c.levels with
  | [] => none
  | level :: rest =>
    some { c with
      thread := c.thread.leaveHandler level.frame level.extended
      place := .user
      levels := rest
      mask := level.mask }

def exit (c : Caller) (ret : Int) : Caller :=
  let thread := c.thread.syscallExit ret
  { c with
    thread := thread
    place := if thread.signals.enteringSignal || thread.signals.exitingSignal then .irq else .user }

def step (size : UInt64) (c : Caller) : PollOp → Option Caller
  | .send signal => some { c with thread := c.thread.raise signal }
  | .fault signal action =>
    if c.place = .user then
      some (dispatch { c with thread := c.thread.raise signal } size action)
    else none
  | .sigprocmask how set =>
    if c.place = .user then
      some { c with
        thread := (c.thread.sigprocmask how set).1
        place := .leaving (c.thread.sigprocmask how set).2.2
        mask := ((c.thread.setMask c.mask).sigprocmask how set).1.signals.signalMask }
    else none
  | .syscall ret => if c.place = .user then some { c with place := .leaving ret } else none
  | .poll sigmask =>
    if c.place = .user then do
      let (thread,early) ← c.thread.enterPoll sigmask
      let c := { c with thread := thread }
      return if early then c.interrupt else { c with place := .polling }
    else none
  | .wait =>
    if c.place = .polling then
      if c.thread.hasPendingSignals then some c.interrupt
      else some { c with thread := { c.thread with state := .blocked }, place := .waiting }
    else none
  | .trigger => some { c with thread := c.thread.enqueue (-1) }
  | .resume =>
    if c.place = .waiting ∧ c.thread.state ≠ .blocked then
      if c.thread.enqueuedBySignal ≠ -1 then some c.interrupt else some { c with place := .polling }
    else none
  | .finish ret =>
    if c.place = .polling ∧ ret ≠ -eintr then some { c with place := .leaving ret } else none
  | .exit =>
    match c.place with
    | .leaving ret => some (c.exit ret)
    | _ => none
  | .sigreturn =>
    if c.place = .user ∧ c.levels ≠ [] then
      (c.thread.rtSigreturn (c.thread.context.gprState.rsp)).map fun thread =>
        { c with thread := thread, place := .leaving 0 }
    else none
  | .irq action =>
    if c.place = .irq then
      if c.thread.signals.enteringSignal then some (c.dispatch size action)
      else c.leaveHandler
    else none

end Caller

def PollStep (size : UInt64) (c c' : Caller) : Prop := ∃ op, Caller.step size c op = some c'

def Caller.Unveiled (c : Caller) : PollOp → Prop
  | .poll (some sigmask) =>
    c.thread.pendingSignals &&& ~~~sigmask &&& c.thread.signals.signalMask = 0
  | .wait => c.interruptedBy = 0
  | .resume => c.thread.enqueuedBySignal ≠ -1 → c.interruptedBy = 0
  | _ => True

def UnveiledStep (size : UInt64) (c c' : Caller) : Prop :=
  ∃ op, c.Unveiled op ∧ Caller.step size c op = some c'

def Thread.ownMask (thread : Thread) : UInt64 :=
  if thread.signals.hasPollSavedSignalMask then thread.signals.pollSavedSignalMask
  else thread.signals.signalMask

structure Steady (c : Caller) : Prop where
  levels : ∀ level ∈ c.levels, level.frame.ucSigmask = level.mask
  own : c.thread.ownMask = c.mask
  settled : c.place = .user ∨ c.place = .irq → c.thread.signals.hasPollSavedSignalMask = false

section Masks

variable {thread thread' : Thread} {mask : UInt64}

theorem ownMask_eq (h : thread.signals.hasPollSavedSignalMask = false) :
    thread.ownMask = thread.signals.signalMask := by
  rw [Thread.ownMask,if_neg (by simp [h])]

theorem setMask_self (h : thread.signals.signalMask = mask) : thread.setMask mask = thread := by
  subst h
  rfl

theorem raise_signals (thread : Thread) (signal : Nat) :
    (thread.raise signal).signals = thread.signals := by
  unfold Thread.raise Thread.enqueue
  split_ifs
  · rfl
  · rfl

theorem enqueue_signals (thread : Thread) (signal : Int) :
    (thread.enqueue signal).signals = thread.signals := by
  unfold Thread.enqueue
  split_ifs
  · rfl
  · rfl

theorem sigprocmask_saved (thread : Thread) (how : Int) (set : Option UInt64) :
    (thread.sigprocmask how set).1.signals.hasPollSavedSignalMask =
      thread.signals.hasPollSavedSignalMask := by
  unfold Thread.sigprocmask
  cases set with
  | none => rfl
  | some set =>
    dsimp only
    split_ifs
    · rfl
    · rfl
    · rfl
    · rfl

theorem enterPoll_own {sigmask : Option UInt64} {early : Bool}
    (h : thread.enterPoll sigmask = some (thread',early))
    (hs : thread.signals.hasPollSavedSignalMask = false) : thread'.ownMask = thread.ownMask := by
  unfold Thread.enterPoll at h
  cases sigmask with
  | none =>
    cases h
    rfl
  | some sigmask =>
    dsimp only at h
    split_ifs at h
    cases h
    rw [ownMask_eq hs]
    rfl

theorem syscallExit_own (thread : Thread) (ret : Int) :
    (thread.syscallExit ret).signals.hasPollSavedSignalMask = false ∧
      (thread.syscallExit ret).ownMask = thread.ownMask := by
  have hr : thread.restorePollMask.signals.hasPollSavedSignalMask = false ∧
      thread.restorePollMask.signals.signalMask = thread.ownMask := by
    unfold Thread.restorePollMask Thread.ownMask
    by_cases h : thread.signals.hasPollSavedSignalMask
    · simp [h]
    · simp [h]
  obtain ⟨hhas,hmask⟩ := hr
  unfold Thread.syscallExit
  dsimp only
  split_ifs
  · exact ⟨hhas,(ownMask_eq (by exact hhas)).trans hmask⟩
  · exact ⟨hhas,(ownMask_eq (by exact hhas)).trans hmask⟩

theorem rtSigreturn_own {userStack : UInt64} (h : thread.rtSigreturn userStack = some thread') :
    thread'.ownMask = thread.ownMask := by
  unfold Thread.rtSigreturn at h
  split_ifs at h
  cases h
  rfl

end Masks

theorem ownMask_congr {thread thread' : Thread} (h : thread'.signals = thread.signals) :
    thread'.ownMask = thread.ownMask := by
  rw [Thread.ownMask,Thread.ownMask,h]

namespace Steady

variable {c : Caller}

theorem enterHandler (hc : Steady c) (hp : c.place = .user) (size : UInt64) (signal : Nat)
    (action : KernelSigaction) : Steady (c.enterHandler size signal action) := by
  have hs := hc.settled (.inl hp)
  have hm : c.thread.signals.signalMask = c.mask := by rw [← ownMask_eq hs,hc.own]
  refine ⟨?_,?_,fun _ => hs⟩
  · intro level hl
    rcases List.mem_cons.mp hl with rfl | hl
    · exact hm
    · exact hc.levels level hl
  · refine (ownMask_eq (by exact hs)).trans ?_
    simp only [Caller.enterHandler,setMask_self hm]

theorem dispatch (hc : Steady c) (hp : c.place = .user ∨ c.place = .irq) (size : UInt64)
    (action : KernelSigaction) : Steady (c.dispatch size action) := by
  have hs := hc.settled hp
  have hm : c.thread.signals.signalMask = c.mask := by rw [← ownMask_eq hs,hc.own]
  unfold Caller.dispatch
  dsimp only
  split
  · exact ⟨hc.levels,hc.own,fun _ => hs⟩
  · rename_i signal hn
    have htaken := taken_signals c.thread signal action
    have hsteady : ∀ owed, Steady
        { c with
          thread := (c.thread.beginDispatch.takeSignal signal).restartSyscall action
          place := .user
          owed := owed } := by
      intro owed
      refine ⟨hc.levels,?_,fun _ => ?_⟩
      · rw [Thread.ownMask,htaken,if_neg (by simp [hs])]
        exact hm
      · rw [htaken]
        exact hs
    split
    · exact hsteady _
    · exact hsteady _
    · exact ⟨(hsteady 0).levels,(hsteady 0).own,nofun⟩
    · exact (hsteady _).enterHandler rfl size signal action

theorem interrupt (hc : Steady c) : Steady c.interrupt :=
  ⟨hc.levels,hc.own,by simp [Caller.interrupt]⟩

theorem raise (hc : Steady c) (signal : Nat) :
    Steady { c with thread := c.thread.raise signal } := by
  have hs := raise_signals c.thread signal
  refine ⟨hc.levels,(ownMask_congr hs).trans hc.own,?_⟩
  intro hp
  rw [hs]
  exact hc.settled hp

theorem step (hc : Steady c) {size : UInt64} {op : PollOp} {c' : Caller}
    (h : c.step size op = some c') : Steady c' := by
  cases op with
  | send signal =>
    cases h
    exact hc.raise signal
  | fault signal action =>
    simp only [Caller.step] at h
    split_ifs at h with hp
    cases h
    exact (hc.raise signal).dispatch (.inl hp) size action
  | sigprocmask how set =>
    simp only [Caller.step] at h
    split_ifs at h with hp
    cases h
    have hs := hc.settled (.inl hp)
    have hm : c.thread.signals.signalMask = c.mask := by rw [← ownMask_eq hs,hc.own]
    refine ⟨hc.levels,?_,by simp⟩
    have hsaved := sigprocmask_saved c.thread how set
    rw [hs] at hsaved
    rw [ownMask_eq hsaved]
    simp only [setMask_self hm]
  | syscall ret =>
    simp only [Caller.step] at h
    split_ifs at h
    cases h
    exact ⟨hc.levels,hc.own,by simp⟩
  | poll sigmask =>
    simp only [Caller.step] at h
    split_ifs at h with hp
    simp only [Option.bind_eq_bind,Option.bind_eq_some_iff,Option.pure_def] at h
    obtain ⟨⟨thread,early⟩,he,h⟩ := h
    cases h
    have hown := (enterPoll_own he (hc.settled (.inl hp))).trans hc.own
    split_ifs
    · exact ⟨hc.levels,hown,by simp [Caller.interrupt]⟩
    · exact ⟨hc.levels,hown,by simp⟩
  | wait =>
    simp only [Caller.step] at h
    split_ifs at h
    · cases h
      exact hc.interrupt
    · cases h
      exact ⟨hc.levels,hc.own,by simp⟩
  | trigger =>
    cases h
    have hs := enqueue_signals c.thread (-1)
    refine ⟨hc.levels,(ownMask_congr hs).trans hc.own,?_⟩
    intro hp
    rw [hs]
    exact hc.settled hp
  | resume =>
    simp only [Caller.step] at h
    split_ifs at h
    · cases h
      exact hc.interrupt
    · cases h
      exact ⟨hc.levels,hc.own,by simp⟩
  | finish ret =>
    simp only [Caller.step] at h
    split_ifs at h
    cases h
    exact ⟨hc.levels,hc.own,by simp⟩
  | exit =>
    simp only [Caller.step] at h
    split at h
    · rename_i ret hp
      cases h
      obtain ⟨hhas,hown⟩ := syscallExit_own c.thread ret
      exact ⟨hc.levels,hown.trans hc.own,fun _ => hhas⟩
    · cases h
  | sigreturn =>
    simp only [Caller.step] at h
    split_ifs at h
    simp only [Option.map_eq_some_iff] at h
    obtain ⟨thread,hr,rfl⟩ := h
    exact ⟨hc.levels,(rtSigreturn_own hr).trans hc.own,by simp⟩
  | irq action =>
    simp only [Caller.step] at h
    split_ifs at h with hp hentering
    · cases h
      exact hc.dispatch (.inr hp) size action
    · unfold Caller.leaveHandler at h
      split at h
      · cases h
      · rename_i level rest hl
        cases h
        have hlevels := hc.levels
        rw [hl] at hlevels
        have hs := hc.settled (.inr hp)
        refine ⟨fun l hl => hlevels l (List.mem_cons_of_mem _ hl),?_,fun _ => rfl⟩
        rw [ownMask_eq rfl]
        simp only [Thread.leaveHandler,hs,Bool.false_eq_true,if_false]
        exact hlevels level List.mem_cons_self

theorem run {size : UInt64} {c' : Caller} (hc : Steady c)
    (hrun : Relation.ReflTransGen (PollStep size) c c') : Steady c' := by
  induction hrun with
  | refl => exact hc
  | tail _ hstep ih =>
    obtain ⟨op,hop⟩ := hstep
    exact ih.step hop

end Steady

theorem dispatch_owed {c : Caller} (size : UInt64) (action : KernelSigaction) (h : c.owed = 0) :
    (c.dispatch size action).owed = 0 := by
  unfold Caller.dispatch
  dsimp only
  split
  · exact h
  · split
    · simp [h]
    · simp [h]
    · simp [h]
    · simp [h,Caller.enterHandler]

theorem interrupt_owed {c : Caller} (h : c.owed = 0) (hi : c.interruptedBy = 0) :
    c.interrupt.owed = 0 := by
  simp [Caller.interrupt,h,hi]

theorem owed_step {size : UInt64} {c c' : Caller} {op : PollOp} (h : c.owed = 0)
    (hu : c.Unveiled op) (hstep : c.step size op = some c') : c'.owed = 0 := by
  cases op with
  | send signal =>
    cases hstep
    exact h
  | fault signal action =>
    simp only [Caller.step] at hstep
    split_ifs at hstep
    cases hstep
    exact dispatch_owed (c := { c with thread := c.thread.raise signal }) size action h
  | sigprocmask how set =>
    simp only [Caller.step] at hstep
    split_ifs at hstep
    cases hstep
    exact h
  | syscall ret =>
    simp only [Caller.step] at hstep
    split_ifs at hstep
    cases hstep
    exact h
  | poll sigmask =>
    simp only [Caller.step] at hstep
    split_ifs at hstep
    simp only [Option.bind_eq_bind,Option.bind_eq_some_iff,Option.pure_def] at hstep
    obtain ⟨⟨thread,early⟩,he,hstep⟩ := hstep
    cases hstep
    split_ifs
    · refine interrupt_owed (c := { c with thread := thread }) h ?_
      unfold Thread.enterPoll at he
      cases sigmask with
      | none =>
        cases he
        contradiction
      | some sigmask =>
        dsimp only at he
        split_ifs at he
        cases he
        exact hu
    · exact h
  | wait =>
    simp only [Caller.step] at hstep
    split_ifs at hstep
    · cases hstep
      exact interrupt_owed h hu
    · cases hstep
      exact h
  | trigger =>
    cases hstep
    exact h
  | resume =>
    simp only [Caller.step] at hstep
    split_ifs at hstep with _ hsig
    · cases hstep
      exact interrupt_owed h (hu hsig)
    · cases hstep
      exact h
  | finish ret =>
    simp only [Caller.step] at hstep
    split_ifs at hstep
    cases hstep
    exact h
  | exit =>
    simp only [Caller.step] at hstep
    split at hstep
    · cases hstep
      exact h
    · cases hstep
  | sigreturn =>
    simp only [Caller.step] at hstep
    split_ifs at hstep
    simp only [Option.map_eq_some_iff] at hstep
    obtain ⟨thread,-,rfl⟩ := hstep
    exact h
  | irq action =>
    simp only [Caller.step] at hstep
    split_ifs at hstep
    · cases hstep
      exact dispatch_owed size action h
    · unfold Caller.leaveHandler at hstep
      split at hstep
      · cases hstep
      · cases hstep
        exact h

structure PollOk (c : Caller) : Prop where
  dispatched : c.place = .user → c.levels = [] → c.owed = 0
  mask : c.place = .user → c.thread.signals.signalMask = c.mask
  assertion : c.place = .user → ∀ sigmask, (c.thread.enterPoll sigmask).isSome

theorem Steady.pollOk {c : Caller} (hc : Steady c) (ho : c.owed = 0) : PollOk c := by
  refine ⟨fun _ _ => ho,?_,?_⟩
  · intro hp
    rw [← hc.own,ownMask_eq (hc.settled (.inl hp))]
  · intro hp sigmask
    cases sigmask with
    | none => rfl
    | some sigmask => simp [Thread.enterPoll,hc.settled (.inl hp)]

structure Uncalled (c : Caller) : Prop where
  place : c.place = .user
  levels : c.levels = []
  saved : c.thread.signals.hasPollSavedSignalMask = false
  mask : c.thread.signals.signalMask = c.mask
  owed : c.owed = 0

theorem Uncalled.steady {c : Caller} (h : Uncalled c) : Steady c := by
  refine ⟨?_,(ownMask_eq h.saved).trans h.mask,fun _ => h.saved⟩
  rw [h.levels]
  simp

theorem poll_mask_restored {size : UInt64} {c₀ c : Caller} (h₀ : Uncalled c₀)
    (hrun : Relation.ReflTransGen (PollStep size) c₀ c) (hp : c.place = .user) :
    c.thread.signals.signalMask = c.mask ∧ c.thread.signals.hasPollSavedSignalMask = false := by
  have hc := h₀.steady.run hrun
  have hs := hc.settled (.inl hp)
  exact ⟨by rw [← hc.own,ownMask_eq hs],hs⟩

theorem poll_mask_temporary {size : UInt64} {c₀ c : Caller} (h₀ : Uncalled c₀)
    (hrun : Relation.ReflTransGen (UnveiledStep size) c₀ c) : PollOk c := by
  have hboth : Steady c ∧ c.owed = 0 := by
    induction hrun with
    | refl => exact ⟨h₀.steady,h₀.owed⟩
    | tail _ hstep ih =>
      obtain ⟨op,hu,hop⟩ := hstep
      exact ⟨ih.1.step hop,owed_step ih.2 hu hop⟩
  exact hboth.1.pollOk hboth.2

def pollCaller (mask : UInt64) : Caller where
  thread :=
    { process := 1, state := .running, signals := { signalMask := mask }, pendingSignals := 0x200 }
  place := .user
  levels := []
  mask := mask
  owed := 0

theorem pollCaller_uncalled (mask : UInt64) : Uncalled (pollCaller mask) := ⟨rfl,rfl,rfl,rfl,rfl⟩

def pollRefused (mask : UInt64) : Caller := ((pollCaller mask).step 832 (.poll (some 0))).get rfl

def pollReturned (mask : UInt64) : Caller := (pollRefused mask).exit (-eintr)

theorem step_exit {c : Caller} {ret : Int} (size : UInt64) (h : c.place = .leaving ret) :
    c.step size .exit = some (c.exit ret) := by
  simp [Caller.step,h]

instance (c : Caller) (op : PollOp) : Decidable (c.Unveiled op) :=
  match op with
  | .poll (some sigmask) => inferInstanceAs
      (Decidable (c.thread.pendingSignals &&& ~~~sigmask &&& c.thread.signals.signalMask = 0))
  | .wait => inferInstanceAs (Decidable (c.interruptedBy = 0))
  | .resume => inferInstanceAs (Decidable (c.thread.enqueuedBySignal ≠ -1 → c.interruptedBy = 0))
  | .poll none | .send _ | .fault _ _ | .sigprocmask _ _ | .syscall _ | .trigger | .finish _ | .exit
  | .sigreturn | .irq _ => inferInstanceAs (Decidable True)

def Caller.unveiledRun (size : UInt64) : List PollOp → Caller → Option Caller
  | [],c => some c
  | op :: ops,c => if c.Unveiled op then (c.step size op).bind (unveiledRun size ops) else none

theorem unveiledRun_steps {size : UInt64} {ops : List PollOp} {c c' : Caller}
    (h : c.unveiledRun size ops = some c') : Relation.ReflTransGen (UnveiledStep size) c c' := by
  induction ops generalizing c with
  | nil =>
    cases h
    exact .refl
  | cons op ops ih =>
    rw [Caller.unveiledRun] at h
    split_ifs at h with hu
    obtain ⟨c₁,hstep,hrest⟩ := Option.bind_eq_some_iff.mp h
    exact .head ⟨op,hu,hstep⟩ (ih hrest)

def pollHandler : KernelSigaction := { handler := 0x401000, restorer := 0x402000 }

def pollHandled : List PollOp :=
  [.poll (some 0),.exit,.irq pollHandler,.sigreturn,.exit,.irq pollHandler]

theorem poll_mask_temporary_handled : ∃ c₁ c₂,
    (pollCaller 0).unveiledRun 832 (pollHandled.take 3) = some c₁ ∧ c₁.levels.length = 1 ∧ PollOk c₁ ∧
      (pollCaller 0).unveiledRun 832 pollHandled = some c₂ ∧ c₂.place = .user ∧ c₂.levels = [] ∧
        PollOk c₂ := by
  obtain ⟨c₁,hrun₁,hin⟩ := (Option.any_eq_true _ _).mp
    (show ((pollCaller 0).unveiledRun 832 (pollHandled.take 3)).any (fun c => c.levels.length = 1) =
      true by decide +kernel)
  obtain ⟨c₂,hrun₂,hout⟩ := (Option.any_eq_true _ _).mp
    (show ((pollCaller 0).unveiledRun 832 pollHandled).any (fun c => c.place = .user ∧ c.levels = []) =
      true by decide +kernel)
  obtain ⟨hplace,hlevels⟩ := of_decide_eq_true hout
  exact ⟨c₁,c₂,hrun₁,of_decide_eq_true hin,
    poll_mask_temporary (pollCaller_uncalled 0) (unveiledRun_steps hrun₁),hrun₂,hplace,hlevels,
    poll_mask_temporary (pollCaller_uncalled 0) (unveiledRun_steps hrun₂)⟩

theorem poll_signal_undispatched :
    ¬∀ (size : UInt64) (c₀ c : Caller), Uncalled c₀ →
      Relation.ReflTransGen (PollStep size) c₀ c → PollOk c := by
  intro hall
  have h₁ : PollStep 832 (pollCaller 0x200) (pollRefused 0x200) :=
    ⟨.poll (some 0),(Option.some_get _).symm⟩
  have h₂ : PollStep 832 (pollRefused 0x200) (pollReturned 0x200) :=
    ⟨.exit,step_exit 832 (by decide +kernel)⟩
  have hok := hall 832 _ _ (pollCaller_uncalled 0x200) ((Relation.ReflTransGen.single h₁).tail h₂)
  exact absurd (hok.dispatched (by decide +kernel) rfl) (by decide +kernel)

end SabaOS.Sched
