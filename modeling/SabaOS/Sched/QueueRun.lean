import SabaOS.Sched.RunQueue

namespace SabaOS.Sched

open SabaOS.Lib

def Turns (S : List ThreadState) (s s' : State) : Prop :=
  ∀ t st, s'.stateOf t = some st → st ∈ S ∨ s.stateOf t = some st

namespace Turns

variable {S : List ThreadState} {s s₁ s' : State}

theorem refl (s : State) : Turns S s s := fun _ _ h => .inr h

theorem trans (h : Turns S s s₁) (k : Turns S s₁ s') : Turns S s s' := by
  intro t st ht
  rcases k t st ht with hm | h₁
  · exact .inl hm
  · exact h t st h₁

theorem of_one {t : Tid} {st : ThreadState} (hothers : ∀ u, u ≠ t → s'.stateOf u = s.stateOf u)
    (ht : s'.stateOf t = some st) (hm : st ∈ S) : Turns S s s' := by
  intro u st' hu
  by_cases hut : u = t
  · subst hut
    obtain rfl : st = st' := Option.some.inj (ht.symm.trans hu)
    exact .inl hm
  · exact .inr (hothers u hut ▸ hu)

theorem of_same (h : ∀ t, s'.stateOf t = s.stateOf t) : Turns S s s' :=
  fun t _ ht => .inr (h t ▸ ht)

theorem woken (hr : .ready ∈ S) (h : Woken s s') : Turns S s s' := by
  induction h with
  | refl => exact .refl s
  | tail _ hm ih =>
    refine ih.trans ?_
    cases hm with
    | quiet h => exact of_same fun t => stateOf_of_standing (h.standing t)
    | wakes t h => exact of_one (fun u hu => stateOf_of_standing (h.others u hu)) h.ready hr

theorem terminateThread (hr : .ready ∈ S) (hz : .zombie ∈ S) {t : Tid}
    {terminateSignal : Option Nat} (h : s.terminateThread t terminateSignal = some s') :
    Turns S s s' := by
  rcases State.terminateThread_cases h with rfl | ⟨s₁,hw,hu | he⟩
  · exact .refl s'
  · exact (of_one (fun u hne => stateOf_of_standing (hu.others u hne)) hu.after hz).trans (woken hr hw)
  · exact (of_one (fun u hne => stateOf_of_standing (he.others u hne)) he.after hz).trans (woken hr hw)

theorem terminateProcess (hr : .ready ∈ S) (hz : .zombie ∈ S) {p : Pid}
    {terminateSignal : Option Nat} (h : s.terminateProcess p terminateSignal = some s') :
    Turns S s s' := by
  simp only [State.terminateProcess,Option.bind_eq_bind,Option.bind_eq_some_iff] at h
  obtain ⟨process,-,h⟩ := h
  revert h
  generalize process.threadList = l
  intro h
  induction l generalizing s with
  | nil =>
    cases h
    exact .refl _
  | cons t l ih =>
    simp only [List.foldlM_cons,Option.bind_eq_bind,Option.bind_eq_some_iff] at h
    obtain ⟨s₁,ht,h⟩ := h
    exact (terminateThread hr hz ht).trans (ih h)

theorem dispatchPendingSignal (hr : .ready ∈ S) (hz : .zombie ∈ S) {t : Tid}
    (hstop : ∀ thread process, s.threads t = some thread →
      s.processes thread.process = some process →
      thread.disposition process.signalActions = .stop → .stopped ∈ S)
    (h : s.dispatchPendingSignal t = some s') : Turns S s s' := by
  obtain ⟨thread,ht,⟨-,rfl⟩ | ⟨process,s₁,thread₁,hp,hd,h⟩⟩ := State.dispatchPendingSignal_cases h
  · refine of_same ?_
    intro u
    by_cases hut : u = t
    · subst hut
      simp [State.stateOf,State.setThread,ht,Thread.beginDispatch]
    · simp [State.stateOf,State.setThread,hut]
  · have hlocal : Turns S s s₁ := of_same hd.stateOf
    cases hdisp : thread.disposition process.signalActions with
    | keep =>
      rw [hdisp] at h
      exact h ▸ hlocal
    | handle =>
      rw [hdisp] at h
      exact h ▸ hlocal
    | terminate =>
      rw [hdisp] at h
      obtain ⟨signal,h⟩ := h
      exact hlocal.trans (terminateProcess hr hz h)
    | stop =>
      rw [hdisp] at h
      obtain ⟨signal,h⟩ := h
      obtain ⟨s₂,hw,hu⟩ := State.dequeueThread_cases h
      exact hlocal.trans ((of_one (fun u hne => stateOf_of_standing (hu.others u hne)) hu.after
        (hstop thread process ht hp hdisp)).trans (woken hr hw))

theorem returnFromSignal (hr : .ready ∈ S) {t : Tid} (h : s.returnFromSignal t = some s') :
    Turns S s s' := by
  obtain ⟨thread,addr,ht,-,hw⟩ := State.returnFromSignal_cases h
  refine trans (of_same ?_) (woken hr hw)
  intro u
  by_cases hut : u = t
  · subst hut
    simp [State.stateOf,State.setThread,ht,Thread.leaveHandler]
  · simp [State.stateOf,State.setThread,hut]

theorem resumeStopped (hr : .ready ∈ S) {t : Tid} (h : s.resumeStopped t = some s') :
    Turns S s s' := by
  simp only [State.resumeStopped,Option.bind_eq_bind,Option.bind_eq_some_iff] at h
  obtain ⟨thread,ht,h⟩ := h
  split_ifs at h with hc
  · simp only [Option.bind_eq_some_iff,Option.pure_def] at h
    obtain ⟨process,hp,⟨s₁,n⟩,hg,h⟩ := h
    cases h
    have hw := (State.setProcess_quiet hp (by rfl)).woken.trans (State.trigger_woken hg)
    refine trans (of_one (t := t) ?_ (by simp [State.stateOf,State.setThread]) hr) (woken hr hw)
    intro u hu
    simp [State.stateOf,State.setThread,hu]
  · cases h
    exact .refl _

theorem handleSignals (hr : .ready ∈ S) (hz : .zombie ∈ S) {t : Tid}
    (hstop : ∀ thread process, s.threads t = some thread → thread.context.gprState.isUser →
      thread.signals.enteringSignal → s.processes thread.process = some process →
      thread.disposition process.signalActions = .stop → .stopped ∈ S)
    (h : s.handleSignals t = some s') : Turns S s s' := by
  simp only [State.handleSignals,Option.bind_eq_bind,Option.bind_eq_some_iff] at h
  obtain ⟨thread,ht,h⟩ := h
  split_ifs at h with hu he hx
  · refine dispatchPendingSignal hr hz ?_ h
    intro th process hth hp hd
    obtain rfl : thread = th := Option.some.inj (ht.symm.trans hth)
    exact hstop thread process hth hu he hp hd
  · exact returnFromSignal hr h
  · cases h
    exact .refl _
  · cases h
    exact .refl _

theorem writeChildTid {t : Tid} (h : s.writeChildTid t = some s') : Turns S s s' := by
  simp only [State.writeChildTid,Option.bind_eq_bind,Option.bind_eq_some_iff] at h
  obtain ⟨thread,ht,h⟩ := h
  split_ifs at h
  · cases h
    refine of_same ?_
    intro u
    by_cases hut : u = t
    · subst hut
      simp [State.stateOf,State.setThread,ht]
    · simp [State.stateOf,State.setThread,State.setWord,hut]
  · cases h
    exact .refl _

end Turns

namespace Queued

variable {s s' : State} {q : List Tid}

theorem enterPass (hq : Queued s q) (h : s.enterPass = some s') :
    Queued s' q ∧ s'.schedLinks = s.schedLinks := by
  unfold State.enterPass at h
  split at h
  · rename_i t _
    simp only [State.saveCurrent,Option.bind_eq_bind,Option.bind_eq_some_iff,Option.pure_def] at h
    obtain ⟨thread,ht,h⟩ := h
    cases h
    refine ⟨?_,rfl⟩
    by_cases hr : thread.state = .running
    · have hrun : s.stateOf t = some .running := by simp [State.stateOf,ht,hr]
      refine hq.restate rfl rfl (t := t) ?_ ?_ ?_ ?_ (by simp [State.stateOf,State.setThread])
      · intro u hu
        simp [State.stateOf,State.setThread,hu]
      · intro _
        simp [State.stateOf,State.setThread,hr]
      · intro hi _
        exact hq.runnable t hi (.inr hrun)
      · intro hb
        simp [State.stateOf,State.setThread,hr] at hb
    · refine hq.same rfl rfl ?_
      intro u
      by_cases hut : u = t
      · subst hut
        simp [State.stateOf,State.setThread,ht,hr]
      · simp [State.stateOf,State.setThread,hut]
  · cases h
    exact ⟨hq,rfl⟩

theorem pickFirst (hq : Queued s q) {t : Tid} (h : s.pickFirst = some t) :
    t ∈ q ∨ t = s.idleThread := by
  unfold State.pickFirst at h
  split_ifs at h with hempty
  · exact .inr (Option.some.inj h).symm
  · obtain ⟨b,hb,hnext⟩ := hq.ring.next_mem (a := none) (by simp)
    rw [hnext] at h
    cases b with
    | none => cases h
    | some u =>
      cases h
      exact .inl (by simpa using hb)

theorem pickNext (hq : Queued s q) {t : Tid} (h : s.pickNext = some t) :
    t ∈ q ∨ t = s.idleThread := by
  unfold State.pickNext at h
  split at h
  · rename_i u _
    split at h
    · rename_i v hv
      cases h
      have hu : u ∈ q := (hq.linked_iff u).mp (by simp [hv])
      obtain ⟨b,hb,hnext⟩ := hq.ring.next_mem (a := some u) (by simpa using hu)
      rw [hv] at hnext
      cases hnext
      exact .inl (by simpa using hb)
    · exact hq.pickFirst h
  · exact hq.pickFirst h

theorem switchTo (hq : Queued s q) {t : Tid} (h : s.switchTo t = some s') :
    Queued s' q ∧ s'.stateOf t ≠ some .blocked ∧ s'.idleThread = s.idleThread := by
  obtain ⟨thread,pagemap,ht,hb,-,rfl⟩ := State.switchTo_cases h
  refine ⟨hq.same rfl rfl fun _ => rfl,?_,rfl⟩
  simpa [State.stateOf,State.setCpu,ht] using hb

theorem resumeStopped (hq : Queued s q) {t : Tid} (hm : t ∈ q ∨ t = s.idleThread)
    (h : s.resumeStopped t = some s') : ∃ q', Queued s' q' := by
  simp only [State.resumeStopped,Option.bind_eq_bind,Option.bind_eq_some_iff] at h
  obtain ⟨thread,ht,h⟩ := h
  split_ifs at h with hc
  · simp only [Option.bind_eq_some_iff,Option.pure_def] at h
    obtain ⟨process,hp,⟨s₁,n⟩,hg,h⟩ := h
    cases h
    have hs : s.stateOf t = some .stopped := by simp [State.stateOf,ht,hc.2]
    have hready : (s.setThread t { thread with state := .ready }).stateOf t = some .ready := by
      simp [State.stateOf,State.setThread]
    have hothers : ∀ u, u ≠ t →
        (s.setThread t { thread with state := .ready }).stateOf u = s.stateOf u := by
      intro u hu
      simp [State.stateOf,State.setThread,hu]
    have htq : t ∈ q := hm.resolve_right (hq.ne_idle hs (by simp))
    have hq₁ : Queued (s.setThread t { thread with state := .ready }) q := by
      refine hq.restate rfl rfl hothers ?_ (fun _ _ => htq) ?_ (by simp [hready])
      · intro _
        exact .inl hready
      · intro hb
        simp [hready] at hb
    have hw := (State.setProcess_quiet hp (by rfl)).woken.trans (State.trigger_woken hg)
    obtain ⟨q',hq',-⟩ := hq₁.woken hw
    exact ⟨q',hq'⟩
  · cases h
    exact ⟨q,hq⟩

theorem handleSignals (hq : Queued s q) {t : Tid}
    (hsafe : ∀ thread, s.threads t = some thread → thread.context.gprState.isUser →
      thread.signals.enteringSignal → DispatchSafe s t)
    (h : s.handleSignals t = some s') : ∃ q', Queued s' q' := by
  simp only [State.handleSignals,Option.bind_eq_bind,Option.bind_eq_some_iff] at h
  obtain ⟨thread,ht,h⟩ := h
  split_ifs at h with hu he hx
  · exact hq.dispatchPendingSignal (hsafe thread ht hu he) h
  · exact hq.returnFromSignal h
  · cases h
    exact ⟨q,hq⟩
  · cases h
    exact ⟨q,hq⟩

theorem writeChildTid (hq : Queued s q) {t : Tid} (h : s.writeChildTid t = some s') :
    Queued s' q := by
  simp only [State.writeChildTid,Option.bind_eq_bind,Option.bind_eq_some_iff] at h
  obtain ⟨thread,ht,h⟩ := h
  split_ifs at h
  · cases h
    refine hq.same rfl rfl ?_
    intro u
    by_cases hut : u = t
    · subst hut
      simp [State.stateOf,State.setThread,ht]
    · simp [State.stateOf,State.setThread,State.setWord,hut]
  · cases h
    exact hq

theorem loadThread (hq : Queued s q) {t : Tid} {retry : Bool} (hb : s.stateOf t ≠ some .blocked)
    (h : s.loadThread t = some (s',retry)) : Queued s' q := by
  simp only [State.loadThread,Option.bind_eq_bind,Option.bind_eq_some_iff] at h
  obtain ⟨thread,ht,h⟩ := h
  split_ifs at h with hst
  · cases h
    exact hq
  · cases h
    have hrun : s.stateOf t = some .ready ∨ s.stateOf t = some .running := by
      simp only [State.stateOf,ht,Option.map_some,Option.some.injEq,ne_eq] at hb ⊢
      cases hs : thread.state <;> simp_all
    refine hq.restate rfl rfl (t := t) ?_ ?_ ?_ ?_
      (by simp [State.stateOf,State.setCpu,State.setThread])
    · intro u hu
      simp [State.stateOf,State.setCpu,State.setThread,hu]
    · intro _
      simp [State.stateOf,State.setCpu,State.setThread]
    · intro hi _
      exact hq.runnable t hi hrun
    · intro hc
      simp [State.stateOf,State.setCpu,State.setThread] at hc

end Queued

def PassSafe (s : State) : Prop :=
  ∀ s₁ t s₂ s₃ thread, s.enterPass = some s₁ → s₁.pickNext = some t → s₁.switchTo t = some s₂ →
    s₂.resumeStopped t = some s₃ → s₃.threads t = some thread → thread.context.gprState.isUser →
    thread.signals.enteringSignal → DispatchSafe s₃ t

theorem Queued.schedulerPass {s s' : State} {q : List Tid} {retry : Bool} (hq : Queued s q)
    (hsafe : PassSafe s) (h : s.schedulerPass = some (s',retry)) : ∃ q', Queued s' q' := by
  simp only [State.schedulerPass,State.runPicked,Option.bind_eq_bind,Option.bind_eq_some_iff] at h
  obtain ⟨s₁,h₁,t,hpick,s₂,h₂,s₃,h₃,s₄,h₄,s₅,h₅,h⟩ := h
  obtain ⟨hq₁,-⟩ := hq.enterPass h₁
  have hm := hq₁.pickNext hpick
  obtain ⟨hq₂,hb₂,hi₂⟩ := hq₁.switchTo h₂
  obtain ⟨q₃,hq₃⟩ := hq₂.resumeStopped (hi₂ ▸ hm) h₃
  obtain ⟨q₄,hq₄⟩ := hq₃.handleSignals
    (fun thread ht hu he => hsafe s₁ t s₂ s₃ thread h₁ hpick h₂ h₃ ht hu he) h₄
  have hturn : Turns [.ready,.zombie,.stopped] s₂ s₅ :=
    ((Turns.resumeStopped (by simp) h₃).trans
      (Turns.handleSignals (by simp) (by simp) (fun _ _ _ _ _ _ _ => by simp) h₄)).trans
      (Turns.writeChildTid h₅)
  have hb : s₅.stateOf t ≠ some .blocked := by
    intro hc
    rcases hturn t _ hc with hm | hc
    · simp at hm
    · exact hb₂ hc
  exact ⟨q₄,(hq₄.writeChildTid h₅).loadThread hb h⟩

def OpSafe (s : State) : Op → Prop
  | .enqueue t signal => signal = sigCont → s.held t = false
  | .sendSignal t signal => signal = sigCont → s.held t = false
  | .terminateThread t _ => s.held t = false
  | .terminateProcess p _ => MembersUnheld s p
  | .exception signal => ∀ t, s.cpu.runningThread = some t →
      (signal = sigCont → s.held t = false) ∧
      ∀ s₁, s.sendSignal t signal = some s₁ → DispatchSafe s₁ t
  | .interrupt => PassSafe s
  | _ => True

theorem State.spawnProcess_same {s s' : State} {t : Tid} {p : Pid}
    (h : s.spawnProcess t p = some s') : s'.threads = s.threads ∧ s'.cpu = s.cpu ∧
      s'.schedLinks = s.schedLinks ∧ s'.idleThread = s.idleThread := by
  unfold State.spawnProcess at h
  split at h
  · cases h
    exact ⟨rfl,rfl,rfl,rfl⟩
  · simp only [Option.bind_eq_bind,Option.bind_eq_some_iff] at h
    obtain ⟨u,-,thread,-,parent,-,h⟩ := h
    split_ifs at h
    cases h
    exact ⟨rfl,rfl,rfl,rfl⟩

namespace Queued

variable {s s' : State} {q : List Tid}

theorem waitSched (hq : Queued s q)
    (h : Calm s s' ∨ ∃ t s₁ s₂, Calm s s₁ ∧ s₁.dequeueThread t none = some s₂ ∧ Calm s₂ s') :
    ∃ q', Queued s' q' := by
  rcases h with hc | ⟨t,s₁,s₂,hc,hd,hc'⟩
  · exact ⟨q,(hq.calm hc).1⟩
  · obtain ⟨q₂,hq₂⟩ := (hq.calm hc).1.dequeueThread hd
    exact ⟨q₂,(hq₂.calm hc').1⟩

theorem exceptionHandler (hq : Queued s q) {signal : Nat}
    (hcont : ∀ t, s.cpu.runningThread = some t → signal = sigCont → s.held t = false)
    (hsafe : ∀ t s₁, s.cpu.runningThread = some t → s.sendSignal t signal = some s₁ →
      DispatchSafe s₁ t)
    (h : s.exceptionHandler signal = some s') : ∃ q', Queued s' q' := by
  simp only [State.exceptionHandler,Option.bind_eq_bind,Option.bind_eq_some_iff,
    Option.pure_def] at h
  obtain ⟨t,hrun,s₁,h₁,thread,ht,s₂,h₂,thread₂,ht₂,h⟩ := h
  cases h
  obtain ⟨q₁,hq₁⟩ := hq.sendSignal (fun hc => hq.unheld (hcont t hrun hc)) h₁
  set saved : Thread := { thread with
    context := s₁.cpu.save thread
    signals := { thread.signals with enteringSignal := true } }
  have hst : ∀ u, (s₁.setThread t saved).stateOf u = s₁.stateOf u := by
    intro u
    by_cases hut : u = t
    · subst hut
      simp [State.stateOf,State.setThread,ht,saved]
    · simp [State.stateOf,State.setThread,hut]
  have hq₂ := hq₁.localStep (State.setThread_local t saved) (hst t)
  have hsafe₂ : DispatchSafe (s₁.setThread t saved) t := by
    intro th process hth hp hd
    obtain rfl : saved = th := by simpa [State.setThread] using hth
    intro process' hp' u hu
    have := hsafe t s₁ hrun h₁ thread process ht hp hd process' hp' u hu
    rw [State.held,hst u]
    exact this
  obtain ⟨q₃,hq₃⟩ := hq₂.dispatchPendingSignal hsafe₂ h₂
  exact ⟨q₃,hq₃.same rfl rfl fun _ => rfl⟩

theorem spawn (hq : Queued s q) {t : Tid} {p : Pid} {context : Context} {signals : SignalState}
    (h : s.spawn t p context signals = some s') : ∃ q', Queued s' q' := by
  unfold State.spawn at h
  split at h
  · cases h
  · rename_i hnew
    simp only [Option.bind_eq_bind,Option.bind_eq_some_iff,Option.pure_def] at h
    obtain ⟨s₁,h₁,links,hl,h⟩ := h
    cases h
    obtain ⟨hthreads,-,hlinks,hi⟩ := State.spawnProcess_same h₁
    have hnone : s.stateOf t = none := by simp [State.stateOf,hnew]
    have hnot : t ∉ q := by
      intro hm
      have := hq.live t hm
      simp [hnone] at this
    have hidle : t ≠ s.idleThread := by
      rintro rfl
      rcases hq.idleState with hi | hi
      · simp [hnone] at hi
      · simp [hnone] at hi
    refine ⟨q ++ [t],hq.link hnot hidle (hlinks ▸ hl) hi ?_ ?_ ?_⟩
    · intro u hu
      simp [State.stateOf,State.setThread,State.setSched,hu,hthreads]
    · simp [State.stateOf,State.setThread]
    · simp [State.stateOf,State.setThread]

theorem call (hq : Queued s q) {op : Op} (hsafe : OpSafe s op) (h : s.call op = some s') :
    ∃ q', Queued s' q' := by
  cases op with
  | user cpu memory =>
    cases h
    exact ⟨q,hq.same rfl rfl fun _ => rfl⟩
  | adjust t signals =>
    simp only [State.call,State.adjustSignals,Option.bind_eq_bind,Option.bind_eq_some_iff,
      Option.pure_def] at h
    obtain ⟨thread,ht,h⟩ := h
    cases h
    refine ⟨q,hq.localStep (State.setThread_local t _) ?_⟩
    simp [State.stateOf,State.setThread,ht]
  | setActions p actions =>
    simp only [State.call,State.setActions,Option.bind_eq_bind,Option.bind_eq_some_iff,
      Option.pure_def] at h
    obtain ⟨process,hp,h⟩ := h
    cases h
    exact ⟨q,hq.same rfl rfl fun _ => rfl⟩
  | enqueue t signal => exact hq.enqueueThread (fun hc => hq.unheld (hsafe hc)) h
  | dequeue t stopSignal => exact hq.dequeueThread h
  | sendSignal t signal => exact hq.sendSignal (fun hc => hq.unheld (hsafe hc)) h
  | terminateThread t terminateSignal =>
    obtain ⟨q',hq',-⟩ := hq.terminateThread (hq.unheld hsafe) h
    exact ⟨q',hq'⟩
  | terminateProcess p terminateSignal => exact hq.terminateSafely hsafe h
  | wait events nonblocking =>
    simp only [State.call,Option.bind_eq_bind,Option.bind_eq_some_iff,Option.pure_def] at h
    obtain ⟨_,-,⟨s₁,ret⟩,hw,h⟩ := h
    cases h
    exact hq.waitSched (State.wait_sched hw)
  | finishWait =>
    simp only [State.call,Option.bind_eq_bind,Option.bind_eq_some_iff,Option.pure_def] at h
    obtain ⟨t,-,⟨s₁,ret⟩,hw,h⟩ := h
    cases h
    exact ⟨q,(hq.calm (State.finishWait_calm hw)).1⟩
  | clearListeners t =>
    simp only [State.call] at h
    split_ifs at h
    exact ⟨q,(hq.calm (State.clearListeners_calm h)).1⟩
  | trigger e drop maxToWake =>
    simp only [State.call,Option.map_eq_some_iff] at h
    obtain ⟨⟨s₁,n⟩,hg,rfl⟩ := h
    obtain ⟨q',hq',-⟩ := hq.woken (State.trigger_woken hg)
    exact ⟨q',hq'⟩
  | futexWait uaddr expected timeout =>
    simp only [State.call,Option.bind_eq_bind,Option.bind_eq_some_iff,Option.pure_def] at h
    obtain ⟨_,-,⟨s₁,ret⟩,hw,h⟩ := h
    cases h
    exact hq.waitSched (State.futexWait_sched hw)
  | spawn t p context signals => exact hq.spawn h
  | futexWake uaddr maxToWake =>
    simp only [State.call,Option.map_eq_some_iff] at h
    obtain ⟨⟨s₁,n⟩,hg,rfl⟩ := h
    obtain ⟨q',hq',-⟩ := hq.woken (State.futexWake_woken hg)
    exact ⟨q',hq'⟩
  | exception signal =>
    exact hq.exceptionHandler (fun t ht => (hsafe t ht).1) (fun t s₁ ht => (hsafe t ht).2 s₁) h
  | interrupt => cases h

end Queued

end SabaOS.Sched
