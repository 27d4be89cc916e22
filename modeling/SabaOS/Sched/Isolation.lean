import SabaOS.Sched.Reach

namespace SabaOS.Sched

def State.contextOf (s : State) (t : Tid) : Option Context := (s.threads t).map (·.context)

structure Harmless (s s' : State) : Prop where
  cpu : s'.cpu = s.cpu
  context : ∀ t, s'.contextOf t = s.contextOf t
  zombie : ∀ t, s.stateOf t = some .zombie → s'.stateOf t = some .zombie

namespace Harmless

variable {s s₁ s' : State}

theorem refl (s : State) : Harmless s s := ⟨rfl,fun _ => rfl,fun _ h => h⟩

theorem trans (h : Harmless s s₁) (k : Harmless s₁ s') : Harmless s s' :=
  ⟨k.cpu.trans h.cpu,fun t => (k.context t).trans (h.context t),fun t ht => k.zombie t (h.zombie t ht)⟩

theorem of_still (h : Still s s') (hz : ∀ t, s.stateOf t = some .zombie → s'.stateOf t = some .zombie) :
    Harmless s s' := by
  refine ⟨h.cpu,?_,hz⟩
  intro t
  have := congrArg (Option.map Thread.Kept.context) (h.kept t)
  simpa [State.contextOf,Function.comp_def,Thread.kept] using this

theorem of_one {t : Tid} (h : Still s s')
    (hothers : ∀ u, u ≠ t → (s'.threads u).map Thread.standing = (s.threads u).map Thread.standing)
    (ht : s.stateOf t = some .zombie → s'.stateOf t = some .zombie) : Harmless s s' := by
  refine of_still h ?_
  intro u hu
  by_cases hut : u = t
  · subst hut
    exact ht hu
  · rw [stateOf_of_standing (hothers u hut)]
    exact hu

theorem calm (h : Calm s s') : Harmless s s' :=
  ⟨h.cpu,h.context,fun t ht => stateOf_of_standing (h.standing t) ▸ ht⟩

theorem woken (h : Woken s s') : Harmless s s' := by
  induction h with
  | refl => exact .refl s
  | tail _ hm ih =>
    refine ih.trans ?_
    cases hm with
    | quiet h => exact of_still h.toStill fun t ht => stateOf_of_standing (h.standing t) ▸ ht
    | wakes t h =>
      refine of_one h.toStill h.others ?_
      intro hz
      exact absurd (hz.symm.trans h.blocked) (by simp)

theorem unlinks {t : Tid} {st : ThreadState} (h : Unlinks t st s s') : Harmless s s' := by
  obtain ⟨thread,ht,hb⟩ := h.before
  refine of_one h.toStill h.others ?_
  intro hz
  simp only [State.stateOf,ht,Option.map_some,Option.some.injEq] at hz
  simp [hz] at hb

theorem ends {t : Tid} (h : Ends t s s') : Harmless s s' :=
  of_one h.toStill h.others fun _ => h.after

theorem conts {t : Tid} (h : Conts t s s') : Harmless s s' := by
  refine of_one h.toStill h.others ?_
  intro hz
  exact absurd (hz.symm.trans h.stopped) (by simp)

theorem dequeueThread {t : Tid} {stopSignal : Option Nat}
    (h : s.dequeueThread t stopSignal = some s') : Harmless s s' := by
  obtain ⟨s₁,hw,hu⟩ := State.dequeueThread_cases h
  exact (unlinks hu).trans (woken hw)

theorem terminateThread {t : Tid} {terminateSignal : Option Nat}
    (h : s.terminateThread t terminateSignal = some s') : Harmless s s' := by
  rcases State.terminateThread_cases h with rfl | ⟨s₁,hw,hu | he⟩
  · exact .refl s'
  · exact (unlinks hu).trans (woken hw)
  · exact (ends he).trans (woken hw)

theorem terminateProcess {p : Pid} {terminateSignal : Option Nat}
    (h : s.terminateProcess p terminateSignal = some s') : Harmless s s' := by
  simp only [State.terminateProcess,Option.bind_eq_bind,Option.bind_eq_some_iff] at h
  obtain ⟨process,-,h⟩ := h
  revert h
  generalize process.threadList = l
  intro h
  induction l generalizing s with
  | nil =>
    cases h
    exact .refl _
  | cons t l ih =>
    simp only [List.foldlM_cons,Option.bind_eq_bind,Option.bind_eq_some_iff] at h
    obtain ⟨s₁,ht,h⟩ := h
    exact (terminateThread ht).trans (ih h)

theorem enqueueThread {t : Tid} {signal : Int} (h : s.enqueueThread t signal = some s') :
    Harmless s s' := by
  by_cases hw : s.stateOf t = some .stopped → signal ≠ sigCont
  · exact woken (State.enqueueThread_woken h hw)
  · rw [Classical.not_imp,not_not] at hw
    obtain ⟨hst,rfl⟩ := hw
    exact conts (State.enqueueThread_conts h hst)

theorem sendSignal {t : Tid} {signal : Nat} (h : s.sendSignal t signal = some s') :
    Harmless s s' := by
  rcases State.sendSignal_cases h with hw | ⟨rfl,s₁,s₂,hquiet,hcont,hw⟩
  · exact woken hw
  · exact ((woken hquiet.woken).trans (conts hcont)).trans (woken hw)

theorem waitSched
    (h : Calm s s' ∨ ∃ t s₁ s₂, Calm s s₁ ∧ s₁.dequeueThread t none = some s₂ ∧ Calm s₂ s') :
    Harmless s s' := by
  rcases h with hc | ⟨t,s₁,s₂,hc,hd,hc'⟩
  · exact calm hc
  · exact ((calm hc).trans (dequeueThread hd)).trans (calm hc')

end Harmless

structure Sheltered (t : Tid) (s s' : State) : Prop where
  cpu : s'.cpu = s.cpu
  context : ∀ u, u ≠ t → s'.contextOf u = s.contextOf u
  zombie : ∀ u, s.stateOf u = some .zombie → s'.stateOf u = some .zombie

namespace Sheltered

variable {t : Tid} {s s₁ s' : State}

theorem of_harmless (h : Harmless s s') : Sheltered t s s' := ⟨h.cpu,fun u _ => h.context u,h.zombie⟩

theorem trans (h : Sheltered t s s₁) (k : Sheltered t s₁ s') : Sheltered t s s' :=
  ⟨k.cpu.trans h.cpu,fun u hu => (k.context u hu).trans (h.context u hu),
    fun u hu => k.zombie u (h.zombie u hu)⟩

theorem of_local (h : Local t s s') (hs : s'.stateOf t = s.stateOf t) : Sheltered t s s' := by
  refine ⟨h.cpu,?_,?_⟩
  · intro u hu
    simp only [State.contextOf,h.others u hu]
  · intro u hz
    by_cases hu : u = t
    · subst hu
      exact hs ▸ hz
    · simpa only [State.stateOf,h.others u hu] using hz

end Sheltered

def State.ownSignals (s : State) (t : Tid) (context : Context) : Context :=
  match s.threads t with
  | none => context
  | some thread =>
    let thread := { thread with context := context }
    if context.gprState.isUser then
      if thread.signals.enteringSignal then
        match s.processes thread.process with
        | some process => thread.signalled process.signalActions s.extendedStateSize
        | none => context
      else if thread.signals.exitingSignal then
        match thread.signals.signalFrame with
        | some addr =>
          let frame := s.memory.frame thread.process addr
          (thread.leaveHandler frame (s.memory.fpstate thread.process frame.ucMcontext.fpstate)).context
        | none => context
      else
        context
    else
      context

theorem dispatchPendingSignal_own {s s' : State} {t : Tid} {thread : Thread}
    (ht : s.threads t = some thread) (hu : thread.context.gprState.isUser)
    (he : thread.signals.enteringSignal) (h : s.dispatchPendingSignal t = some s') :
    Sheltered t s s' ∧ s'.contextOf t = some (s.ownSignals t thread.context) := by
  obtain ⟨th,hth,h⟩ := State.dispatchPendingSignal_cases h
  obtain rfl : thread = th := Option.some.inj (ht.symm.trans hth)
  rcases h with ⟨hn,rfl⟩ | ⟨process,s₁,thread₁,hp,hd,h⟩
  · refine ⟨.of_local (State.setThread_local t _) ?_,?_⟩
    · simp [State.stateOf,State.setThread,ht,Thread.beginDispatch]
    · have hself : s.ownSignals t thread.context = thread.context := by
        simp only [State.ownSignals,ht,hu,he,if_true]
        cases s.processes thread.process with
        | none => rfl
        | some process => simp only [Thread.signalled,hn]
      simp [State.contextOf,State.setThread,Thread.beginDispatch,hself]
  · have hown : s.ownSignals t thread.context =
        thread.signalled process.signalActions s.extendedStateSize := by
      simp only [State.ownSignals,ht,hu,he,if_true,hp]
    have hlocal : Sheltered t s s₁ := .of_local hd.toLocal (hd.stateOf t)
    have hctx : s₁.contextOf t = some (s.ownSignals t thread.context) := by
      simp only [State.contextOf,hd.after,Option.map_some,hd.context,hown]
    cases hdisp : thread.disposition process.signalActions with
    | keep =>
      rw [hdisp] at h
      exact h ▸ ⟨hlocal,hctx⟩
    | handle =>
      rw [hdisp] at h
      exact h ▸ ⟨hlocal,hctx⟩
    | stop =>
      rw [hdisp] at h
      obtain ⟨signal,h⟩ := h
      have hh := Harmless.dequeueThread h
      exact ⟨hlocal.trans (.of_harmless hh),(hh.context t).trans hctx⟩
    | terminate =>
      rw [hdisp] at h
      obtain ⟨signal,h⟩ := h
      have hh := Harmless.terminateProcess h
      exact ⟨hlocal.trans (.of_harmless hh),(hh.context t).trans hctx⟩

theorem dispatchPendingSignal_sheltered {s s' : State} {t : Tid}
    (h : s.dispatchPendingSignal t = some s') : Sheltered t s s' := by
  obtain ⟨thread,ht,⟨-,rfl⟩ | ⟨process,s₁,thread₁,-,hd,h⟩⟩ := State.dispatchPendingSignal_cases h
  · refine .of_local (State.setThread_local t _) ?_
    simp [State.stateOf,State.setThread,ht,Thread.beginDispatch]
  · have hlocal : Sheltered t s s₁ := .of_local hd.toLocal (hd.stateOf t)
    cases hdisp : thread.disposition process.signalActions with
    | keep =>
      rw [hdisp] at h
      exact h ▸ hlocal
    | handle =>
      rw [hdisp] at h
      exact h ▸ hlocal
    | stop =>
      rw [hdisp] at h
      obtain ⟨signal,h⟩ := h
      exact hlocal.trans (.of_harmless (.dequeueThread h))
    | terminate =>
      rw [hdisp] at h
      obtain ⟨signal,h⟩ := h
      exact hlocal.trans (.of_harmless (.terminateProcess h))

theorem returnFromSignal_own {s s' : State} {t : Tid} {thread : Thread}
    (ht : s.threads t = some thread) (hu : thread.context.gprState.isUser)
    (he : thread.signals.enteringSignal = false) (hx : thread.signals.exitingSignal)
    (h : s.returnFromSignal t = some s') :
    Sheltered t s s' ∧ s'.contextOf t = some (s.ownSignals t thread.context) := by
  obtain ⟨th,addr,hth,ha,hw⟩ := State.returnFromSignal_cases h
  obtain rfl : thread = th := Option.some.inj (ht.symm.trans hth)
  have hh := Harmless.woken hw
  refine ⟨.trans (.of_local (State.setThread_local t _) ?_) (.of_harmless hh),?_⟩
  · simp [State.stateOf,State.setThread,ht,Thread.leaveHandler]
  · rw [hh.context]
    simp [State.contextOf,State.setThread,State.ownSignals,ht,hu,he,hx,ha]

theorem handleSignals_own {s s' : State} {t : Tid} {thread : Thread}
    (ht : s.threads t = some thread) (h : s.handleSignals t = some s') :
    Sheltered t s s' ∧ s'.contextOf t = some (s.ownSignals t thread.context) := by
  simp only [State.handleSignals,ht,Option.bind_eq_bind,Option.bind_some] at h
  split_ifs at h with hu he hx
  · exact dispatchPendingSignal_own ht hu he h
  · exact returnFromSignal_own ht hu (by simpa using he) hx h
  · cases h
    refine ⟨.of_harmless (.refl _),?_⟩
    simp [State.contextOf,State.ownSignals,ht,hu,he,hx]
  · cases h
    refine ⟨.of_harmless (.refl _),?_⟩
    simp [State.contextOf,State.ownSignals,ht,hu]

def Context.fixed (c : Context) : UInt64 × UInt64 × UInt64 × UInt64 × UInt64 :=
  (c.gprState.cs,c.gsBase,c.fsBase,c.savedUserStack,c.savedKernelStack)

theorem restartSyscall_fixed (thread : Thread) (action : KernelSigaction) :
    (thread.restartSyscall action).context.fixed = thread.context.fixed := by
  unfold Thread.restartSyscall
  dsimp only
  split_ifs <;> rfl

theorem signalled_fixed (thread : Thread) (actions : Nat → KernelSigaction) (size : UInt64) :
    (thread.signalled actions size).fixed = thread.context.fixed := by
  unfold Thread.signalled
  split
  · rfl
  · dsimp only
    split
    · exact restartSyscall_fixed _ _
    · exact restartSyscall_fixed _ _

theorem ownSignals_fixed (s : State) (t : Tid) (context : Context) :
    (s.ownSignals t context).fixed = context.fixed := by
  unfold State.ownSignals
  split
  · rfl
  · dsimp only
    split_ifs
    · split
      · exact signalled_fixed _ _ _
      · rfl
    · split <;> rfl
    · rfl
    · rfl

abbrev Owed := Tid → Context

def State.picked (s : State) : Option (State × Tid) := do
  let s ← s.enterPass
  let t ← s.pickNext
  let s ← s.switchTo t
  let s ← s.resumeStopped t
  return (s,t)

-- an interrupt switches the running thread out; a turn that `goto retry` starts switches none
def switchedOut (m : Machine) (owed : Owed) : Owed :=
  if m.retrying then owed
  else match m.state.cpu.runningThread with
    | none => owed
    | some t =>
      match m.state.threads t with
      | none => owed
      | some thread => Function.update owed t (m.state.cpu.save thread)

def owedAfter (m : Machine) (owed : Owed) : Op → Owed
  | .spawn t _ context _ => Function.update owed t context
  | .interrupt =>
    match m.state.picked with
    | some (s,t) =>
      Function.update (switchedOut m owed) t (s.ownSignals t (switchedOut m owed t))
    | none => owed
  | _ => owed

def ContextSafe (s : State) : Op → Prop
  | .interrupt => ∀ s₁ t thread, s.picked = some (s₁,t) → s₁.threads t = some thread →
      thread.state ≠ .stopped ∧ (thread.context.gprState.isUser → thread.signals.enteringSignal →
        ∀ process, s₁.processes thread.process = some process →
          thread.disposition process.signalActions ≠ .stop)
  | _ => True

def TrackStep (x y : Machine × Owed) : Prop :=
  ∃ op, ContextSafe x.1.state op ∧ x.1.step op = some y.1 ∧ y.2 = owedAfter x.1 x.2 op

structure Faithful (m : Machine) (owed : Owed) : Prop where
  saved : ∀ t c, m.state.cpu.runningThread ≠ some t → m.state.contextOf t = some c →
    m.state.stateOf t ≠ some .zombie → c = owed t
  dead : m.retrying → ∀ t, m.state.cpu.runningThread = some t → m.state.stateOf t = some .zombie

structure Resumes (cpu : Cpu) (c : Context) : Prop where
  gprState : cpu.gprState = c.gprState
  extendedState : ∀ x, c.extendedState = some x → cpu.extendedState = x
  gsBase : cpu.kernelGsBase = c.gsBase
  fsBase : cpu.fsBase = c.fsBase
  userStack : cpu.userStack = c.savedUserStack

theorem Faithful.harmless {m : Machine} {owed : Owed} {s' : State} (hf : Faithful m owed)
    (h : Harmless m.state s') : Faithful ⟨s',false⟩ owed := by
  refine ⟨?_,by simp⟩
  intro t c hrun hc hz
  rw [h.cpu] at hrun
  rw [h.context] at hc
  exact hf.saved t c hrun hc fun hz' => hz (h.zombie t hz')

theorem Faithful.sheltered {m : Machine} {owed : Owed} {s' : State} {t : Tid}
    (hf : Faithful m owed) (hrun : m.state.cpu.runningThread = some t)
    (hcpu : s'.cpu.runningThread = some t)
    (hctx : ∀ u, u ≠ t → s'.contextOf u = m.state.contextOf u)
    (hz : ∀ u, m.state.stateOf u = some .zombie → s'.stateOf u = some .zombie) :
    Faithful ⟨s',false⟩ owed := by
  refine ⟨?_,by simp⟩
  intro u c hu hc hnz
  have hut : u ≠ t := fun he => hu (he ▸ hcpu)
  rw [hctx u hut] at hc
  refine hf.saved u c ?_ hc fun hz' => hnz (hz u hz')
  rw [hrun]
  simpa using Ne.symm hut

theorem Faithful.enterPass {m : Machine} {owed : Owed} {s₁ : State} (hf : Faithful m owed)
    (h : m.state.enterPass = some s₁) {u : Tid} {c : Context} (hc : s₁.contextOf u = some c)
    (hz : s₁.stateOf u ≠ some .zombie) : c = switchedOut m owed u := by
  unfold State.enterPass at h
  unfold switchedOut
  cases hrun : m.state.cpu.runningThread with
  | none =>
    rw [hrun] at h
    cases h
    rw [ite_self]
    exact hf.saved u c (by simp [hrun]) hc hz
  | some r =>
    rw [hrun] at h
    simp only [State.saveCurrent,Option.bind_eq_bind,Option.bind_eq_some_iff,Option.pure_def] at h
    obtain ⟨thread,hr,h⟩ := h
    cases h
    simp only [hr]
    by_cases hur : u = r
    · subst hur
      simp only [State.contextOf,State.setThread,Function.update_self,Option.map_some,
        Option.some.injEq] at hc
      by_cases hret : m.retrying = true
      · -- a thread whose dispatch ended the last turn is dead
        have hdead := hf.dead hret u hrun
        simp only [State.stateOf,hr,Option.map_some,Option.some.injEq] at hdead
        simp [State.stateOf,State.setThread,hdead] at hz
      · rw [if_neg hret,Function.update_self]
        exact hc.symm
    · have hc' : m.state.contextOf u = some c := by
        simpa [State.contextOf,State.setThread,hur] using hc
      have hz' : m.state.stateOf u ≠ some .zombie := by
        simpa [State.stateOf,State.setThread,hur] using hz
      have := hf.saved u c (by simpa [hrun] using Ne.symm hur) hc' hz'
      split_ifs
      · exact this
      · rw [Function.update_of_ne hur]
        exact this

theorem Harmless.resumeStopped {s s' : State} {t : Tid} (h : s.resumeStopped t = some s') :
    Harmless s s' := by
  simp only [State.resumeStopped,Option.bind_eq_bind,Option.bind_eq_some_iff] at h
  obtain ⟨thread,ht,h⟩ := h
  split_ifs at h with hc
  · simp only [Option.bind_eq_some_iff,Option.pure_def] at h
    obtain ⟨process,hp,⟨s₁,n⟩,hg,h⟩ := h
    cases h
    have hrest := (Harmless.woken (State.setProcess_quiet hp (by rfl)).woken).trans
      (.woken (State.trigger_woken hg))
    refine Harmless.trans ?_ hrest
    refine ⟨rfl,?_,?_⟩
    · exact update_map (fun th : Thread => th.context) s.threads ht (by rfl)
    · intro u hz
      by_cases hut : u = t
      · subst hut
        simp [State.stateOf,ht,hc.2] at hz
      · simpa [State.stateOf,State.setThread,hut] using hz
  · cases h
    exact .refl _

theorem Harmless.writeChildTid {s s' : State} {t : Tid} (h : s.writeChildTid t = some s') :
    Harmless s s' := by
  simp only [State.writeChildTid,Option.bind_eq_bind,Option.bind_eq_some_iff] at h
  obtain ⟨thread,ht,h⟩ := h
  split_ifs at h
  · cases h
    refine ⟨rfl,?_,?_⟩
    · exact update_map (fun th : Thread => th.context) s.threads ht (by rfl)
    · intro u hz
      by_cases hut : u = t
      · subst hut
        simpa [State.stateOf,State.setThread,State.setWord,ht] using hz
      · simpa [State.stateOf,State.setThread,State.setWord,hut] using hz
  · cases h
    exact .refl _

structure Turned (m : Machine) (owed : Owed) (t : Tid) (s : State) : Prop where
  own : s.contextOf t = some (owedAfter m owed .interrupt t)
  others : ∀ u c, u ≠ t → s.contextOf u = some c → s.stateOf u ≠ some .zombie →
    c = owedAfter m owed .interrupt u
  running : s.cpu.runningThread = some t
  stopped : ContextSafe m.state .interrupt → s.stateOf t ≠ some .stopped
  gsBase : (owedAfter m owed .interrupt t).gprState.isUser →
    s.cpu.kernelGsBase = (owedAfter m owed .interrupt t).gsBase
  fsBase : s.cpu.fsBase = (owedAfter m owed .interrupt t).fsBase
  userStack : s.cpu.userStack = (owedAfter m owed .interrupt t).savedUserStack

theorem Faithful.turned {m : Machine} {owed : Owed} (hf : Faithful m owed) {s' : State}
    {retry : Bool} (h : m.state.schedulerPass = some (s',retry)) :
    ∃ t s₅, Turned m owed t s₅ ∧ s₅.loadThread t = some (s',retry) := by
  simp only [State.schedulerPass,State.runPicked,Option.bind_eq_bind,Option.bind_eq_some_iff] at h
  obtain ⟨s₁,h₁,t,hpick,s₂,h₂,s₃,h₃,s₄,h₄,s₅,h₅,h⟩ := h
  have hpicked : m.state.picked = some (s₃,t) := by
    simp [State.picked,h₁,hpick,h₂,h₃]
  have howed : owedAfter m owed .interrupt = Function.update (switchedOut m owed) t
      (s₃.ownSignals t (switchedOut m owed t)) := by
    simp only [owedAfter,hpicked]
  obtain ⟨thread,pagemap,ht,-,hnz,rfl⟩ := State.switchTo_cases h₂
  have hh₃ := Harmless.resumeStopped h₃
  have hctx₁ : thread.context = switchedOut m owed t := by
    refine hf.enterPass h₁ (by simp [State.contextOf,ht]) ?_
    simpa [State.stateOf,ht] using hnz
  obtain ⟨thread₃,ht₃⟩ : ∃ thread₃, s₃.threads t = some thread₃ := by
    have := hh₃.context t
    simp only [State.contextOf,State.setCpu,ht,Option.map_some,Option.map_eq_some_iff] at this
    obtain ⟨th,hth,-⟩ := this
    exact ⟨th,hth⟩
  have hctx₃ : thread₃.context = switchedOut m owed t := by
    have := hh₃.context t
    simpa [State.contextOf,State.setCpu,ht,ht₃,hctx₁] using this
  obtain ⟨hsh,hown⟩ := handleSignals_own ht₃ h₄
  have hh₅ := Harmless.writeChildTid h₅
  have hcpu : s₅.cpu = { State.switchCpu s₁.cpu t thread with activePagemap := pagemap } :=
    (hh₅.cpu.trans hsh.cpu).trans hh₃.cpu
  have hself : owedAfter m owed .interrupt t = s₃.ownSignals t (switchedOut m owed t) := by
    rw [howed,Function.update_self]
  have hfix : (owedAfter m owed .interrupt t).fixed = thread.context.fixed := by
    rw [hself,ownSignals_fixed,hctx₁]
  simp only [Context.fixed,Prod.mk.injEq] at hfix
  refine ⟨t,s₅,⟨?_,?_,?_,?_,?_,?_,?_⟩,h⟩
  · rw [hh₅.context,hown,hself,hctx₃]
  · intro u c hu hc hz
    rw [howed,Function.update_of_ne hu]
    rw [hh₅.context,hsh.context u hu,hh₃.context] at hc
    refine hf.enterPass h₁ hc ?_
    intro hz₁
    exact hz (hh₅.zombie u (hsh.zombie u (hh₃.zombie u hz₁)))
  · rw [hcpu]
    rfl
  · intro hsafe hst
    obtain ⟨hns,hdisp⟩ := hsafe s₃ t thread₃ hpicked ht₃
    have hturn : Turns [.ready,.zombie] s₃ s₅ := by
      refine (Turns.handleSignals (by simp) (by simp) ?_ h₄).trans (Turns.writeChildTid h₅)
      intro th process hth hu he hp hd
      obtain rfl : thread₃ = th := Option.some.inj (ht₃.symm.trans hth)
      exact absurd hd (hdisp hu he process hp)
    rcases hturn t _ hst with hm | hst
    · simp at hm
    · exact hns (by simpa [State.stateOf,ht₃] using hst)
  · intro huser
    have : thread.context.gprState.isUser := by
      simpa [InterruptState.isUser,hfix.1] using huser
    rw [hcpu]
    simp [State.switchCpu,this,hfix.2.1]
  · rw [hcpu]
    exact hfix.2.2.1.symm
  · rw [hcpu]
    exact hfix.2.2.2.1.symm

theorem Turned.loaded {m : Machine} {owed : Owed} {t : Tid} {s s' : State} {retry : Bool}
    (ht : Turned m owed t s) (hsafe : retry → ContextSafe m.state .interrupt)
    (h : s.loadThread t = some (s',retry)) :
    Faithful ⟨s',retry⟩ (owedAfter m owed .interrupt) ∧
    (retry = false → s'.cpu.runningThread = some t ∧ (s'.cpu.gprState.isUser →
      Resumes s'.cpu (owedAfter m owed .interrupt t))) := by
  simp only [State.loadThread,Option.bind_eq_bind,Option.bind_eq_some_iff] at h
  obtain ⟨thread,hthread,h⟩ := h
  have hctx : thread.context = owedAfter m owed .interrupt t := by
    simpa [State.contextOf,hthread] using ht.own
  split_ifs at h with hst
  · cases h
    refine ⟨⟨?_,?_⟩,by simp⟩
    · intro u c hu hc hz
      exact ht.others u c (fun he => hu (he ▸ ht.running)) hc hz
    · intro _ u hu
      obtain rfl : t = u := Option.some.inj (ht.running.symm.trans hu)
      rcases hst with hz | hs
      · simp [State.stateOf,hthread,hz]
      · exact absurd (by simp [State.stateOf,hthread,hs]) (ht.stopped (hsafe rfl))
  · cases h
    refine ⟨⟨?_,by simp⟩,?_⟩
    · intro u c hu hc hz
      have hut : u ≠ t := by
        rintro rfl
        exact hu ht.running
      refine ht.others u c hut ?_ ?_
      · simpa [State.contextOf,State.setCpu,State.setThread,hut] using hc
      · simpa [State.stateOf,State.setCpu,State.setThread,hut] using hz
    · intro _
      refine ⟨ht.running,?_⟩
      intro huser
      have huser' : (owedAfter m owed .interrupt t).gprState.isUser := by
        rw [← hctx]
        exact huser
      refine ⟨by rw [← hctx]; rfl,?_,ht.gsBase huser',ht.fsBase,ht.userStack⟩
      intro x hx
      rw [← hctx] at hx
      simp [State.setCpu,Cpu.restore,hx]

theorem Faithful.exceptionHandler {m : Machine} {owed : Owed} {s' : State} {signal : Nat}
    (hf : Faithful m owed) (h : m.state.exceptionHandler signal = some s') :
    Faithful ⟨s',false⟩ owed := by
  simp only [State.exceptionHandler,Option.bind_eq_bind,Option.bind_eq_some_iff,
    Option.pure_def] at h
  obtain ⟨t,hrun,s₁,h₁,thread,ht,s₂,h₂,thread₂,ht₂,h⟩ := h
  cases h
  have hh₁ := Harmless.sendSignal h₁
  have hsave : Sheltered t s₁ (s₁.setThread t { thread with
      context := s₁.cpu.save thread
      signals := { thread.signals with enteringSignal := true } }) := by
    refine .of_local (State.setThread_local t _) ?_
    simp [State.stateOf,State.setThread,ht]
  have hsh := hsave.trans (dispatchPendingSignal_sheltered h₂)
  refine hf.sheltered hrun ?_ ?_ ?_
  · exact (congrArg Cpu.runningThread (hsh.cpu.trans hh₁.cpu)).trans hrun
  · intro u hu
    exact (hsh.context u hu).trans (hh₁.context u)
  · intro u hz
    exact hsh.zombie u (hh₁.zombie u hz)

theorem Faithful.spawn {m : Machine} {owed : Owed} {s' : State} {t : Tid} {p : Pid}
    {context : Context} {signals : SignalState} (hf : Faithful m owed)
    (h : m.state.spawn t p context signals = some s') :
    Faithful ⟨s',false⟩ (Function.update owed t context) := by
  unfold State.spawn at h
  split at h
  · cases h
  · simp only [Option.bind_eq_bind,Option.bind_eq_some_iff,Option.pure_def] at h
    obtain ⟨s₁,h₁,links,hl,h⟩ := h
    cases h
    obtain ⟨hthreads,hcpu,-⟩ := State.spawnProcess_same h₁
    refine ⟨?_,by simp⟩
    intro u c hu hc hz
    by_cases hut : u = t
    · subst hut
      rw [Function.update_self]
      simpa [State.contextOf,State.setThread] using hc.symm
    · rw [Function.update_of_ne hut]
      refine hf.saved u c ?_ ?_ ?_
      · simpa [State.setThread,State.setSched,hcpu] using hu
      · simpa [State.contextOf,State.setThread,State.setSched,hut,hthreads] using hc
      · simpa [State.stateOf,State.setThread,State.setSched,hut,hthreads] using hz

theorem Faithful.call {m : Machine} {owed : Owed} {s' : State} {op : Op} (hf : Faithful m owed)
    (h : m.state.call op = some s') : Faithful ⟨s',false⟩ (owedAfter m owed op) := by
  cases op with
  | user cpu memory =>
    cases h
    exact ⟨fun t c hrun hc hz => hf.saved t c hrun hc hz,by simp⟩
  | adjust t signals =>
    simp only [State.call,State.adjustSignals,Option.bind_eq_bind,Option.bind_eq_some_iff,
      Option.pure_def] at h
    obtain ⟨thread,ht,h⟩ := h
    cases h
    exact hf.harmless (.calm (State.setThread_calm ht (by rfl) (by rfl)))
  | setActions p actions =>
    simp only [State.call,State.setActions,Option.bind_eq_bind,Option.bind_eq_some_iff,
      Option.pure_def] at h
    obtain ⟨process,hp,h⟩ := h
    cases h
    exact hf.harmless ⟨rfl,fun _ => rfl,fun _ h => h⟩
  | enqueue t signal => exact hf.harmless (.enqueueThread h)
  | dequeue t stopSignal => exact hf.harmless (.dequeueThread h)
  | sendSignal t signal => exact hf.harmless (.sendSignal h)
  | terminateThread t terminateSignal => exact hf.harmless (.terminateThread h)
  | terminateProcess p terminateSignal => exact hf.harmless (.terminateProcess h)
  | wait events nonblocking =>
    simp only [State.call,Option.bind_eq_bind,Option.bind_eq_some_iff,Option.pure_def] at h
    obtain ⟨_,-,⟨s₁,ret⟩,hw,h⟩ := h
    cases h
    exact hf.harmless (.waitSched (State.wait_sched hw))
  | finishWait =>
    simp only [State.call,Option.bind_eq_bind,Option.bind_eq_some_iff,Option.pure_def] at h
    obtain ⟨t,-,⟨s₁,ret⟩,hw,h⟩ := h
    cases h
    exact hf.harmless (.calm (State.finishWait_calm hw))
  | clearListeners t =>
    simp only [State.call] at h
    split_ifs at h
    exact hf.harmless (.calm (State.clearListeners_calm h))
  | trigger e drop maxToWake =>
    simp only [State.call,Option.map_eq_some_iff] at h
    obtain ⟨⟨s₁,n⟩,hg,rfl⟩ := h
    exact hf.harmless (.woken (State.trigger_woken hg))
  | futexWait uaddr expected timeout =>
    simp only [State.call,Option.bind_eq_bind,Option.bind_eq_some_iff,Option.pure_def] at h
    obtain ⟨_,-,⟨s₁,ret⟩,hw,h⟩ := h
    cases h
    exact hf.harmless (.waitSched (State.futexWait_sched hw))
  | spawn t p context signals => exact hf.spawn h
  | futexWake uaddr maxToWake =>
    simp only [State.call,Option.map_eq_some_iff] at h
    obtain ⟨⟨s₁,n⟩,hg,rfl⟩ := h
    exact hf.harmless (.woken (State.futexWake_woken hg))
  | exception signal => exact hf.exceptionHandler h
  | interrupt => cases h

theorem Faithful.step {x y : Machine × Owed} (hf : Faithful x.1 x.2) (h : TrackStep x y) :
    Faithful y.1 y.2 := by
  obtain ⟨op,hsafe,hstep,howed⟩ := h
  rw [howed]
  cases op with
  | interrupt =>
    simp only [Machine.step,Option.bind_eq_bind,Option.bind_eq_some_iff,Option.pure_def,
      Option.some.injEq] at hstep
    obtain ⟨⟨s,retry⟩,hp,hstep⟩ := hstep
    rw [← hstep]
    obtain ⟨t,s₅,ht,hl⟩ := hf.turned hp
    exact (ht.loaded (fun _ => hsafe) hl).1
  | _ =>
    simp only [Machine.step] at hstep
    split_ifs at hstep
    simp only [Option.map_eq_some_iff] at hstep
    obtain ⟨s,hc,hs⟩ := hstep
    rw [← hs]
    exact hf.call hc

theorem track_reach {m₀ : Machine} {owed₀ : Owed} {x : Machine × Owed} (hb : Booted m₀)
    (ho : ∀ t thread, m₀.state.threads t = some thread → owed₀ t = thread.context)
    (hrun : Relation.ReflTransGen TrackStep (m₀,owed₀) x) : Faithful x.1 x.2 := by
  induction hrun with
  | refl =>
    refine ⟨?_,by simp [hb.retrying]⟩
    intro t c _ hc _
    simp only [State.contextOf,Option.map_eq_some_iff] at hc
    obtain ⟨thread,ht,rfl⟩ := hc
    exact (ho t thread ht).symm
  | tail _ hstep ih => exact ih.step hstep

theorem contexts_isolated {m₀ m m' : Machine} {owed₀ owed : Owed} (hb : Booted m₀)
    (ho : ∀ t thread, m₀.state.threads t = some thread → owed₀ t = thread.context)
    (hrun : Relation.ReflTransGen TrackStep (m₀,owed₀) (m,owed))
    (hstep : m.step .interrupt = some m') (hret : m'.retrying = false) :
    ∃ t, m'.state.cpu.runningThread = some t ∧ (m'.state.cpu.gprState.isUser →
      Resumes m'.state.cpu (owedAfter m owed .interrupt t)) := by
  have hf := track_reach hb ho hrun
  simp only [Machine.step,Option.bind_eq_bind,Option.bind_eq_some_iff,Option.pure_def,
    Option.some.injEq] at hstep
  obtain ⟨⟨s,retry⟩,hp,rfl⟩ := hstep
  obtain rfl : retry = false := hret
  obtain ⟨t,s₅,ht,hl⟩ := hf.turned hp
  exact ⟨t,(ht.loaded (by simp) hl).2 rfl⟩

def trackOp (x : Machine × Owed) (op : Op) : Option (Machine × Owed) :=
  (x.1.step op).map fun m => (m,owedAfter x.1 x.2 op)

def Tracks (x y : Machine × Owed) : Prop := ∃ op, trackOp x op = some y

theorem trackOps_reaches {x y : Machine × Owed} (ops : List Op)
    (h : ops.foldlM trackOp x = some y) : Relation.ReflTransGen Tracks x y := by
  induction ops generalizing x with
  | nil =>
    cases h
    exact .refl
  | cons op ops ih =>
    simp only [List.foldlM_cons,Option.bind_eq_bind,Option.bind_eq_some_iff] at h
    obtain ⟨x₁,h₁,h⟩ := h
    exact .head ⟨op,h₁⟩ (ih h)

theorem trackOps_safe {x y : Machine × Owed} (ops : List Op) (hs : ∀ op ∈ ops, ∀ s, ContextSafe s op)
    (h : ops.foldlM trackOp x = some y) : Relation.ReflTransGen TrackStep x y := by
  induction ops generalizing x with
  | nil =>
    cases h
    exact .refl
  | cons op ops ih =>
    simp only [List.foldlM_cons,Option.bind_eq_bind,Option.bind_eq_some_iff,trackOp,
      Option.map_eq_some_iff] at h
    obtain ⟨x₁,⟨m,hm,rfl⟩,h⟩ := h
    refine .head ⟨op,hs op (by simp) _,hm,rfl⟩ (ih ?_ h)
    intro o ho
    exact hs o (List.mem_cons_of_mem _ ho)

def bootOwed : Owed := fun _ => {}

theorem bootOwed_saved (t : Tid) (thread : Thread) (h : bootMachine.state.threads t = some thread) :
    bootOwed t = thread.context := by
  simp only [bootMachine] at h
  split_ifs at h
  cases h
  rfl

def handled : List Op :=
  [.spawn 1 1 (userContext 0x1000) {},
    .setActions 1 (fun _ => { handler := 0x2000, restorer := 0x3000 }),.sendSignal 1 10,
    .adjust 1 { enteringSignal := true }]

def handledTrack : Machine × Owed :=
  (handled.foldlM trackOp (bootMachine,bootOwed)).get (by decide +kernel)

def handledMachine : Machine := (handledTrack.1.step .interrupt).get (by decide +kernel)

theorem contexts_isolated_handler :
    (owedAfter handledTrack.1 handledTrack.2 .interrupt 1).gprState.rip = 0x2000 ∧
    ∃ t, handledMachine.state.cpu.runningThread = some t ∧
      (handledMachine.state.cpu.gprState.isUser →
        Resumes handledMachine.state.cpu (owedAfter handledTrack.1 handledTrack.2 .interrupt t)) := by
  have hrun : Relation.ReflTransGen TrackStep (bootMachine,bootOwed) handledTrack := by
    refine trackOps_safe handled ?_ (Option.some_get _).symm
    intro op hop s
    simp only [handled,List.mem_cons,List.not_mem_nil,or_false] at hop
    rcases hop with rfl | rfl | rfl | rfl <;> trivial
  exact ⟨by decide +kernel,contexts_isolated bootMachine_booted bootOwed_saved hrun
    (Option.some_get _).symm (by decide +kernel)⟩

def stoppedInTurn : List Op :=
  [.spawn 1 1 (userContext 0x1000) {},.interrupt,.spawn 4 4 (userContext 0x4000) {},
    .sendSignal 4 19,.interrupt,.adjust 4 { enteringSignal := true },.interrupt,.interrupt,.interrupt,
    .sendSignal 4 18]

def stoppedTrack : Machine × Owed :=
  (stoppedInTurn.foldlM trackOp (bootMachine,bootOwed)).get (by decide +kernel)

def stolenMachine : Machine := (stoppedTrack.1.step .interrupt).get (by decide +kernel)

theorem context_stolen : Booted bootMachine ∧
    (∀ t thread, bootMachine.state.threads t = some thread → bootOwed t = thread.context) ∧
    Relation.ReflTransGen Tracks (bootMachine,bootOwed) stoppedTrack ∧
    stoppedTrack.1.step .interrupt = some stolenMachine ∧ stolenMachine.retrying = false ∧
    stolenMachine.state.cpu.runningThread = some 4 ∧ stolenMachine.state.cpu.gprState.isUser ∧
    ¬Resumes stolenMachine.state.cpu (owedAfter stoppedTrack.1 stoppedTrack.2 .interrupt 4) := by
  refine ⟨bootMachine_booted,bootOwed_saved,trackOps_reaches stoppedInTurn (Option.some_get _).symm,
    (Option.some_get _).symm,by decide +kernel,by decide +kernel,by decide +kernel,?_⟩
  intro h
  have hlive : stolenMachine.state.cpu.gprState.rip = 0x1000 := by decide +kernel
  have howed : (owedAfter stoppedTrack.1 stoppedTrack.2 .interrupt 4).gprState.rip = 0x4000 := by
    decide +kernel
  have := congrArg InterruptState.rip h.gprState
  rw [hlive,howed] at this
  exact absurd this (by decide)

end SabaOS.Sched
