import SabaOS.Sched.SignalCalls

namespace SabaOS.Sched

def SameActions (s s' : State) : Prop :=
  ∀ p, (s'.processes p).map (·.signalActions) = (s.processes p).map (·.signalActions)

namespace SameActions

variable {s s₁ s' : State}

theorem refl (s : State) : SameActions s s := fun _ => rfl

theorem trans (h : SameActions s s₁) (k : SameActions s₁ s') : SameActions s s' :=
  fun p => (k p).trans (h p)

theorem setProcess {p : Pid} {process process' : Process} (h : s.processes p = some process)
    (ha : process'.signalActions = process.signalActions) :
    SameActions s (s.setProcess p process') :=
  update_map (fun process : Process => process.signalActions) s.processes h ha

theorem after (k : SameActions s₁ s') (h : s₁.processes = s.processes) : SameActions s s' :=
  fun p => (k p).trans (by rw [h])

theorem of_eq (h : s'.processes = s.processes) : SameActions s s' := fun p => by rw [h]

theorem enqueueThread {t : Tid} {signal : Int} (h : s.enqueueThread t signal = some s') :
    SameActions s s' := by
  obtain ⟨thread,-,⟨rfl,-⟩ | ⟨links,-,⟨-,rfl⟩ | ⟨-,-,rfl⟩⟩⟩ := State.enqueueThread_cases h
  · exact refl s'
  · exact of_eq rfl
  · exact of_eq rfl

theorem wake {listener : Listener} (h : s.wake listener = some s') : SameActions s s' := by
  simp only [State.wake,Option.bind_eq_bind,Option.bind_eq_some_iff] at h
  obtain ⟨thread,-,h⟩ := h
  exact (enqueueThread h).after rfl

theorem triggerLoop {e : EventId} {maxToWake : Int} {fuel woken n : Nat} {pos : ListenerAddr}
    {next : Option ListenerAddr}
    (h : State.triggerLoop e maxToWake fuel s pos next woken = some (s',n)) :
    SameActions s s' := by
  induction fuel generalizing s pos next woken with
  | zero => simp [State.triggerLoop] at h
  | succ fuel ih =>
    unfold State.triggerLoop at h
    split at h
    · cases h
      exact refl _
    · split at h
      · cases h
      · simp only [Option.bind_eq_bind,Option.bind_eq_some_iff] at h
        obtain ⟨s₁,hw,h⟩ := h
        split at h
        · cases h
          exact wake hw
        · simp only [Option.bind_eq_some_iff] at h
          obtain ⟨pos',-,h⟩ := h
          exact (wake hw).trans (ih h)

theorem trigger {e : EventId} {drop : Bool} {maxToWake : Int} {n : Nat}
    (h : s.trigger e drop maxToWake = some (s',n)) : SameActions s s' := by
  unfold State.trigger at h
  split_ifs at h
  · cases h
    exact refl _
  · cases h
    exact of_eq rfl
  · simp only [Option.bind_eq_bind,Option.bind_eq_some_iff] at h
    obtain ⟨pos,-,h⟩ := h
    exact triggerLoop h

theorem sendSignal {t : Tid} {signal : Nat} (h : s.sendSignal t signal = some s') :
    SameActions s s' := by
  simp only [State.sendSignal,Option.bind_eq_bind,Option.bind_eq_some_iff,Option.pure_def] at h
  obtain ⟨thread,-,s₁,he,⟨s₂,n⟩,hg,h⟩ := h
  cases h
  exact ((enqueueThread he).after rfl).trans (trigger hg)

theorem sendProcessSignal {p : Pid} {signal : Nat} (h : s.sendProcessSignal p signal = some s') :
    SameActions s s' := by
  simp only [State.sendProcessSignal,Option.bind_eq_bind,Option.bind_eq_some_iff] at h
  obtain ⟨t,-,h⟩ := h
  exact sendSignal h

theorem notifyStop {p : Pid} {signal : Nat} (h : s.notifyStop p signal = some s') :
    SameActions s s' := by
  simp only [State.notifyStop,Option.bind_eq_bind,Option.bind_eq_some_iff,Option.pure_def] at h
  obtain ⟨process,hp,⟨s₁,n⟩,hg,_,-,q,-,parent,-,h⟩ := h
  refine .trans (.trans (setProcess hp (by rfl)) (trigger hg)) ?_
  split_ifs at h
  · exact sendProcessSignal h
  · cases h
    exact refl s₁

theorem dequeueThread {t : Tid} {stopSignal : Option Nat}
    (h : s.dequeueThread t stopSignal = some s') : SameActions s s' := by
  simp only [State.dequeueThread,Option.bind_eq_bind,Option.bind_eq_some_iff] at h
  obtain ⟨thread,-,h⟩ := h
  split_ifs at h
  simp only [Option.bind_eq_some_iff] at h
  obtain ⟨links,-,h⟩ := h
  cases stopSignal with
  | none =>
    cases h
    exact of_eq rfl
  | some signal => exact (notifyStop h).after rfl

theorem setParent {child newParent : Pid} (h : s.setParent child newParent = some s') :
    SameActions s s' := by
  simp only [State.setParent,Option.bind_eq_bind,Option.bind_eq_some_iff,Option.pure_def] at h
  obtain ⟨process,hp,s₁,hold,process₁,hp₁,parent,hq,h⟩ := h
  cases h
  refine .trans (.trans ?_ (setProcess hp₁ (by rfl))) (setProcess hq (by rfl))
  cases hq : process.parent with
  | none =>
    rw [hq] at hold
    cases hold
    exact refl _
  | some old =>
    simp only [hq,State.leaveParent,Option.bind_eq_bind,Option.bind_eq_some_iff,
      Option.pure_def] at hold
    obtain ⟨oldProcess,ho,hold⟩ := hold
    cases hold
    exact setProcess ho (by rfl)

theorem foldlM {α : Type} {f : State → α → Option State} {l : List α}
    (hf : ∀ s s' a, f s a = some s' → SameActions s s') (h : l.foldlM f s = some s') :
    SameActions s s' := by
  induction l generalizing s with
  | nil =>
    cases h
    exact refl _
  | cons a l ih =>
    simp only [List.foldlM_cons,Option.bind_eq_bind,Option.bind_eq_some_iff] at h
    obtain ⟨s₁,ha,h⟩ := h
    exact (hf s s₁ a ha).trans (ih h)

theorem triggerAll {events : List (EventId × Bool)} (h : s.triggerAll events = some s') :
    SameActions s s' := by
  refine foldlM ?_ h
  intro s s' e he
  simp only [Option.map_eq_some_iff] at he
  obtain ⟨⟨s₁,n⟩,hg,rfl⟩ := he
  exact trigger hg

theorem zombify {p : Pid} {terminateSignal : Option Nat}
    (h : s.zombify p terminateSignal = some s') : SameActions s s' := by
  simp only [State.zombify,Option.bind_eq_bind,Option.bind_eq_some_iff] at h
  obtain ⟨process,hp,h⟩ := h
  split_ifs at h
  simp only [Option.bind_eq_some_iff] at h
  obtain ⟨s₁,hc,s₂,hall,process₂,hp₂,⟨s₃,n⟩,hg,_,-,q,-,h⟩ := h
  have hstart : SameActions s s₁ := by
    refine .trans (setProcess hp ?_) (foldlM (fun _ _ _ => setParent) hc)
    split <;> rfl
  have hend := (trigger hg).trans (sendProcessSignal h)
  exact (hstart.trans (triggerAll hall)).trans (.trans (setProcess hp₂ (by rfl)) hend)

theorem futexWake {uaddr : UInt64} {maxToWake n : Int}
    (h : s.futexWake uaddr maxToWake = some (s',n)) : SameActions s s' := by
  simp only [State.futexWake,Option.bind_eq_bind,Option.bind_eq_some_iff] at h
  obtain ⟨t,-,thread,-,h⟩ := h
  split at h
  · cases h
    exact refl _
  · split_ifs at h
    · simp only [Option.bind_eq_some_iff] at h
      obtain ⟨⟨s₁,k⟩,hg,h⟩ := h
      cases h
      exact trigger hg
    · cases h
      exact refl _

theorem terminateThread {t : Tid} {terminateSignal : Option Nat}
    (h : s.terminateThread t terminateSignal = some s') : SameActions s s' := by
  simp only [State.terminateThread,Option.bind_eq_bind,Option.bind_eq_some_iff] at h
  obtain ⟨thread,-,h⟩ := h
  split at h
  · cases h
    exact refl _
  · simp only [Option.bind_eq_some_iff] at h
    obtain ⟨links,-,process,hp,h⟩ := h
    have hstart : SameActions s (((s.setSched links).setThread t
        { thread with state := .zombie }).setProcess thread.process
        { process with numLivingThreads := process.numLivingThreads - 1 }) :=
      setProcess (s := (s.setSched links).setThread t _) hp (by rfl)
    split_ifs at h
    · exact hstart.trans (zombify h)
    · simp only [Option.bind_eq_some_iff,Option.pure_def] at h
      obtain ⟨⟨s₂,n⟩,hf,h⟩ := h
      cases h
      exact hstart.trans ((futexWake hf).after rfl)
    · cases h
      exact hstart

theorem terminateProcess {p : Pid} {terminateSignal : Option Nat}
    (h : s.terminateProcess p terminateSignal = some s') : SameActions s s' := by
  simp only [State.terminateProcess,Option.bind_eq_bind,Option.bind_eq_some_iff] at h
  obtain ⟨process,-,h⟩ := h
  exact foldlM (fun _ _ _ => terminateThread) h

end SameActions

end SabaOS.Sched
