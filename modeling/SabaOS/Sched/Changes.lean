import SabaOS.Sched.Reach

namespace SabaOS.Sched

open SabaOS.Lib

structure Private (s s' : State) : Prop where
  store : SameStore s s'
  schedLinks : s'.schedLinks = s.schedLinks
  station : ∀ t, (s'.threads t).map Thread.station = (s.threads t).map Thread.station

inductive Change (s s' : State) : Prop where
  | moves (h : Move s s')
  | unlinks (t : Tid) (st : ThreadState) (h : Unlinks t st s s')
  | ends (t : Tid) (h : Ends t s s')
  | conts (t : Tid) (h : Conts t s s')
  | privately (h : Private s s')

abbrev Changes := Relation.ReflTransGen Change

namespace Changes

variable {s s₁ s' : State}

theorem woken (h : Woken s s') : Changes s s' := by
  induction h with
  | refl => exact .refl
  | tail _ hm ih => exact ih.tail (.moves hm)

theorem privately (h : Private s s') : Changes s s' := .single (.privately h)

theorem of_local {t : Tid} {thread thread' : Thread} (h : Local t s s')
    (hb : s.threads t = some thread) (ha : s'.threads t = some thread')
    (hs : thread'.station = thread.station) : Changes s s' := by
  refine privately ⟨h.store,h.schedLinks,?_⟩
  intro u
  by_cases hu : u = t
  · subst hu
    simp [hb,ha,hs]
  · rw [h.others u hu]

theorem setThread {t : Tid} {thread thread' : Thread} (h : s.threads t = some thread)
    (hs : thread'.station = thread.station) : Changes s (s.setThread t thread') :=
  of_local (State.setThread_local t thread') h (by simp [State.setThread]) hs

theorem setCpu (cpu : Cpu) : Changes s (s.setCpu cpu) :=
  privately ⟨⟨rfl,rfl,rfl,rfl,rfl,rfl⟩,rfl,fun _ => rfl⟩

theorem dequeueThread {t : Tid} {stopSignal : Option Nat}
    (h : s.dequeueThread t stopSignal = some s') : Changes s s' := by
  obtain ⟨s₁,hw,hu⟩ := State.dequeueThread_cases h
  exact .head (.unlinks t _ hu) (woken hw)

theorem terminateThread {t : Tid} {terminateSignal : Option Nat}
    (h : s.terminateThread t terminateSignal = some s') : Changes s s' := by
  rcases State.terminateThread_cases h with rfl | ⟨s₁,hw,hu | he⟩
  · exact .refl
  · exact .head (.unlinks t _ hu) (woken hw)
  · exact .head (.ends t he) (woken hw)

theorem terminateProcess {p : Pid} {terminateSignal : Option Nat}
    (h : s.terminateProcess p terminateSignal = some s') : Changes s s' := by
  simp only [State.terminateProcess,Option.bind_eq_bind,Option.bind_eq_some_iff] at h
  obtain ⟨process,-,h⟩ := h
  revert h
  generalize process.threadList = l
  intro h
  induction l generalizing s with
  | nil =>
    cases h
    exact .refl
  | cons t l ih =>
    simp only [List.foldlM_cons,Option.bind_eq_bind,Option.bind_eq_some_iff] at h
    obtain ⟨s₁,ht,h⟩ := h
    exact (terminateThread ht).trans (ih h)

theorem enqueueThread {t : Tid} {signal : Int} (h : s.enqueueThread t signal = some s') :
    Changes s s' := by
  by_cases hw : s.stateOf t = some .stopped → signal ≠ sigCont
  · exact woken (State.enqueueThread_woken h hw)
  · rw [Classical.not_imp,not_not] at hw
    obtain ⟨hst,rfl⟩ := hw
    exact .single (.conts t (State.enqueueThread_conts h hst))

theorem sendSignal {t : Tid} {signal : Nat} (h : s.sendSignal t signal = some s') :
    Changes s s' := by
  rcases State.sendSignal_cases h with hw | ⟨rfl,s₁,s₂,hquiet,hcont,hw⟩
  · exact woken hw
  · exact .head (.moves (.quiet hquiet)) (.head (.conts t hcont) (woken hw))

theorem dispatchPendingSignal {t : Tid} (h : s.dispatchPendingSignal t = some s') :
    Changes s s' := by
  obtain ⟨thread,ht,⟨-,rfl⟩ | ⟨process,s₁,thread₁,-,hd,h⟩⟩ := State.dispatchPendingSignal_cases h
  · exact setThread ht (by rfl)
  · have hlocal : Changes s s₁ := of_local hd.toLocal hd.before hd.after hd.station
    cases hdisp : thread.disposition process.signalActions with
    | keep =>
      rw [hdisp] at h
      exact h ▸ hlocal
    | handle =>
      rw [hdisp] at h
      exact h ▸ hlocal
    | stop =>
      rw [hdisp] at h
      obtain ⟨signal,h⟩ := h
      exact hlocal.trans (dequeueThread h)
    | terminate =>
      rw [hdisp] at h
      obtain ⟨signal,h⟩ := h
      exact hlocal.trans (terminateProcess h)

theorem returnFromSignal {t : Tid} (h : s.returnFromSignal t = some s') : Changes s s' := by
  obtain ⟨thread,addr,ht,-,hw⟩ := State.returnFromSignal_cases h
  exact (setThread ht (by rfl)).trans (woken hw)

theorem exceptionHandler {signal : Nat} (h : s.exceptionHandler signal = some s') :
    Changes s s' := by
  simp only [State.exceptionHandler,Option.bind_eq_bind,Option.bind_eq_some_iff,
    Option.pure_def] at h
  obtain ⟨t,hrun,s₁,h₁,thread,ht,s₂,h₂,thread₂,ht₂,h⟩ := h
  cases h
  refine ((sendSignal h₁).trans ?_).trans ((dispatchPendingSignal h₂).trans (setCpu _))
  exact setThread ht (by rfl)

theorem schedulerPass {retry : Bool} (h : s.schedulerPass = some (s',retry)) : Changes s s' := by
  simp only [State.schedulerPass,State.runPicked,Option.bind_eq_bind,Option.bind_eq_some_iff] at h
  obtain ⟨s₁,h₁,t,-,s₂,h₂,s₃,h₃,s₄,h₄,s₅,h₅,h₆⟩ := h
  have henter : Changes s s₁ := by
    unfold State.enterPass at h₁
    split at h₁
    · simp only [State.saveCurrent,Option.bind_eq_bind,Option.bind_eq_some_iff,
        Option.pure_def] at h₁
      obtain ⟨thread,ht,h₁⟩ := h₁
      cases h₁
      exact setThread ht (by rfl)
    · cases h₁
      exact .refl
  have hswitch : Changes s₁ s₂ := by
    obtain ⟨thread,pagemap,-,-,-,rfl⟩ := State.switchTo_cases h₂
    exact setCpu _
  have hresume : Changes s₂ s₃ := by
    simp only [State.resumeStopped,Option.bind_eq_bind,Option.bind_eq_some_iff] at h₃
    obtain ⟨thread,ht,h₃⟩ := h₃
    split_ifs at h₃
    · simp only [Option.bind_eq_some_iff,Option.pure_def] at h₃
      obtain ⟨process,hp,⟨s₁,n⟩,hg,h₃⟩ := h₃
      cases h₃
      refine .trans ?_ (woken ((State.setProcess_quiet hp (by rfl)).woken.trans
        (State.trigger_woken hg)))
      exact setThread ht (by rfl)
    · cases h₃
      exact .refl
  have hsignals : Changes s₃ s₄ := by
    simp only [State.handleSignals,Option.bind_eq_bind,Option.bind_eq_some_iff] at h₄
    obtain ⟨thread,ht,h₄⟩ := h₄
    split_ifs at h₄
    · exact dispatchPendingSignal h₄
    · exact returnFromSignal h₄
    · cases h₄
      exact .refl
    · cases h₄
      exact .refl
  have hchild : Changes s₄ s₅ := by
    simp only [State.writeChildTid,Option.bind_eq_bind,Option.bind_eq_some_iff] at h₅
    obtain ⟨thread,ht,h₅⟩ := h₅
    split_ifs at h₅
    · cases h₅
      have hw := (State.setWord_quiet thread.process thread.signals.setChildTid
        t.toUInt32 (s := s₄)).woken
      exact .trans (woken hw) (setThread (show (s₄.setWord _ _ _).threads t = some thread from ht)
        (by rfl))
    · cases h₅
      exact .refl
  have hload : Changes s₅ s' := by
    simp only [State.loadThread,Option.bind_eq_bind,Option.bind_eq_some_iff] at h₆
    obtain ⟨thread,ht,h₆⟩ := h₆
    split_ifs at h₆
    · cases h₆
      exact .refl
    · cases h₆
      exact .trans (setThread ht (by rfl)) (setCpu _)
  exact ((henter.trans hswitch).trans (hresume.trans hsignals)).trans (hchild.trans hload)

end Changes

end SabaOS.Sched
