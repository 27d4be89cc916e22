import SabaOS.Sched.Dispatch

namespace SabaOS.Sched

open SabaOS.Lib

def State.stateOf (s : State) (t : Tid) : Option ThreadState := (s.threads t).map (·.state)

structure Queued (s : State) (q : List Tid) : Prop where
  ring : s.schedLinks.Ring none (q.map some)
  free : ∀ t, t ∉ q → s.schedLinks (some t) = .null
  idle : s.idleThread ∉ q
  idleState : s.stateOf s.idleThread = some .ready ∨ s.stateOf s.idleThread = some .running
  runnable : ∀ t, t ≠ s.idleThread → s.stateOf t = some .ready ∨ s.stateOf t = some .running → t ∈ q
  off : ∀ t, s.stateOf t = some .blocked ∨ s.stateOf t = some .zombie → t ∉ q
  live : ∀ t ∈ q, (s.stateOf t).isSome

def Unheld (s : State) (q : List Tid) (t : Tid) : Prop := s.stateOf t = some .stopped → t ∉ q

theorem stateOf_of_standing {s s' : State} {t : Tid}
    (h : (s'.threads t).map Thread.standing = (s.threads t).map Thread.standing) :
    s'.stateOf t = s.stateOf t := by
  have := congrArg (Option.map Prod.fst) h
  simpa [State.stateOf,Function.comp_def,Thread.standing] using this

namespace Queued

variable {s s' : State} {q : List Tid}

theorem same (hq : Queued s q) (hl : s'.schedLinks = s.schedLinks)
    (hi : s'.idleThread = s.idleThread) (hs : ∀ t, s'.stateOf t = s.stateOf t) : Queued s' q where
  ring := hl ▸ hq.ring
  free := hl ▸ hq.free
  idle := hi ▸ hq.idle
  idleState := by
    rw [hi,hs]
    exact hq.idleState
  runnable t ht h := by
    rw [hi] at ht
    rw [hs] at h
    exact hq.runnable t ht h
  off t h := by
    rw [hs] at h
    exact hq.off t h
  live t h := by
    rw [hs]
    exact hq.live t h

theorem restate (hq : Queued s q) {t : Tid} (hl : s'.schedLinks = s.schedLinks)
    (hi : s'.idleThread = s.idleThread) (hothers : ∀ u, u ≠ t → s'.stateOf u = s.stateOf u)
    (hidle : t = s.idleThread → s'.stateOf t = some .ready ∨ s'.stateOf t = some .running)
    (hrun : t ≠ s.idleThread → s'.stateOf t = some .ready ∨ s'.stateOf t = some .running → t ∈ q)
    (hoff : s'.stateOf t = some .blocked ∨ s'.stateOf t = some .zombie → t ∉ q)
    (hlive : (s'.stateOf t).isSome) : Queued s' q where
  ring := hl ▸ hq.ring
  free := hl ▸ hq.free
  idle := hi ▸ hq.idle
  idleState := by
    rw [hi]
    by_cases h : t = s.idleThread
    · exact h ▸ hidle h
    · rw [hothers _ (Ne.symm h)]
      exact hq.idleState
  runnable u hu h := by
    rw [hi] at hu
    by_cases hut : u = t
    · subst hut
      exact hrun hu h
    · rw [hothers u hut] at h
      exact hq.runnable u hu h
  off u h := by
    by_cases hut : u = t
    · subst hut
      exact hoff h
    · rw [hothers u hut] at h
      exact hq.off u h
  live u h := by
    by_cases hut : u = t
    · exact hut ▸ hlive
    · rw [hothers u hut]
      exact hq.live u h

theorem ne_idle (hq : Queued s q) {t : Tid} {st : ThreadState} (h : s.stateOf t = some st)
    (hst : st ≠ .ready ∧ st ≠ .running) : t ≠ s.idleThread := by
  rintro rfl
  rcases hq.idleState with hi | hi
  · exact hst.1 (Option.some.inj (h.symm.trans hi))
  · exact hst.2 (Option.some.inj (h.symm.trans hi))

theorem linked_iff (hq : Queued s q) (t : Tid) :
    (s.schedLinks (some t)).next ≠ none ↔ t ∈ q := by
  constructor
  · intro h
    by_contra hn
    exact h (by simp [hq.free t hn,ListHead.null])
  · intro h
    obtain ⟨b,-,hb⟩ := hq.ring.next_mem (List.mem_cons_of_mem _ (List.mem_map_of_mem h))
    simp [hb]

theorem link (hq : Queued s q) {t : Tid} (hnot : t ∉ q) (hidle : t ≠ s.idleThread)
    (hadd : s.schedLinks.addBefore none (some t) = some s'.schedLinks)
    (hi : s'.idleThread = s.idleThread) (hothers : ∀ u, u ≠ t → s'.stateOf u = s.stateOf u)
    (hoff : s'.stateOf t ≠ some .blocked ∧ s'.stateOf t ≠ some .zombie)
    (hlive : (s'.stateOf t).isSome) : Queued s' (q ++ [t]) := by
  obtain ⟨l',hl,hring,hframe⟩ := hq.ring.addBefore (e := some t) (by simpa using hnot)
  obtain rfl : s'.schedLinks = l' := Option.some.inj (hadd.symm.trans hl)
  refine ⟨by simpa using hring,?_,?_,?_,?_,?_,?_⟩
  · intro u hu
    simp only [List.mem_append,List.mem_singleton,not_or] at hu
    rw [hframe (some u) (by simpa using ⟨hu.2,hu.1⟩)]
    exact hq.free u hu.1
  · rw [hi]
    simpa using ⟨hq.idle,Ne.symm hidle⟩
  · rw [hi,hothers _ (Ne.symm hidle)]
    exact hq.idleState
  · intro u hu h
    by_cases hut : u = t
    · simp [hut]
    · rw [hothers u hut] at h
      exact List.mem_append_left _ (hq.runnable u (hi ▸ hu) h)
  · intro u h
    by_cases hut : u = t
    · subst hut
      exact absurd h (by simpa using hoff)
    · rw [hothers u hut] at h
      simpa [hut] using hq.off u h
  · intro u h
    by_cases hut : u = t
    · exact hut ▸ hlive
    · rw [hothers u hut]
      exact hq.live u (by simpa [hut] using h)

theorem unlink (hq : Queued s q) {t : Tid} (hm : t ∈ q)
    (hrem : s.schedLinks.remove (some t) = some s'.schedLinks)
    (hi : s'.idleThread = s.idleThread) (hothers : ∀ u, u ≠ t → s'.stateOf u = s.stateOf u)
    (hoff : s'.stateOf t ≠ some .ready ∧ s'.stateOf t ≠ some .running) :
    ∃ q', Queued s' q' ∧ t ∉ q' ∧ ∀ u ∈ q', u ∈ q := by
  obtain ⟨ys,zs,rfl⟩ := List.append_of_mem hm
  have hring := hq.ring
  rw [List.map_append,List.map_cons] at hring
  obtain ⟨l',hl,hring',hnull,hframe⟩ := hring.remove
  obtain rfl : s'.schedLinks = l' := Option.some.inj (hrem.symm.trans hl)
  have hnd : (ys ++ t :: zs).Nodup := by
    have := (List.nodup_cons.mp hq.ring.nodup).2
    exact List.Nodup.of_map _ this
  have hnt : t ∉ ys ++ zs := by
    have := (List.nodup_middle.mp hnd)
    exact (List.nodup_cons.mp this).1
  have hidle : t ≠ s.idleThread := fun h => hq.idle (h ▸ hm)
  have hsub : ∀ u ∈ ys ++ zs, u ∈ ys ++ t :: zs := by
    intro u hu
    simp only [List.mem_append,List.mem_cons] at hu ⊢
    tauto
  refine ⟨ys ++ zs,⟨by simpa using hring',?_,?_,?_,?_,?_,?_⟩,hnt,hsub⟩
  · intro u hu
    by_cases hut : u = t
    · rw [hut]
      exact hnull
    · have hu' : u ∉ ys ++ t :: zs := by
        simp only [List.mem_append,List.mem_cons,not_or] at hu ⊢
        tauto
      rw [hframe (some u) (by simpa using hu')]
      exact hq.free u hu'
  · rw [hi]
    exact fun h => hq.idle (hsub _ h)
  · rw [hi,hothers _ (Ne.symm hidle)]
    exact hq.idleState
  · intro u hu h
    by_cases hut : u = t
    · subst hut
      exact absurd h (by simpa using hoff)
    · rw [hothers u hut] at h
      have := hq.runnable u (hi ▸ hu) h
      simp only [List.mem_append,List.mem_cons] at this ⊢
      tauto
  · intro u h
    by_cases hut : u = t
    · exact hut ▸ hnt
    · rw [hothers u hut] at h
      exact fun hc => hq.off u h (hsub u hc)
  · intro u h
    rw [hothers u fun hut => hnt (hut ▸ h)]
    exact hq.live u (hsub u h)

theorem move (hq : Queued s q) (h : Move s s') :
    ∃ q', Queued s' q' ∧ ∀ u, Unheld s q u → Unheld s' q' u := by
  cases h with
  | quiet h =>
    have hs := fun t => stateOf_of_standing (h.standing t)
    refine ⟨q,hq.same h.schedLinks h.idleThread hs,?_⟩
    intro u hu
    rw [Unheld,hs]
    exact hu
  | wakes t h =>
    have hs := fun u hu => stateOf_of_standing (h.others u hu)
    have hb : s.stateOf t = some .blocked := h.blocked
    have hr : s'.stateOf t = some .ready := h.ready
    refine ⟨q ++ [t],hq.link (hq.off t (.inl hb)) (hq.ne_idle hb (by simp)) h.addBefore h.idleThread hs
      (by simp [hr]) (by simp [hr]),?_⟩
    intro u hu hst
    by_cases hut : u = t
    · rw [hut,hr] at hst
      cases hst
    · rw [hs u hut] at hst
      simpa [hut] using hu hst

theorem woken (hq : Queued s q) (h : Woken s s') :
    ∃ q', Queued s' q' ∧ ∀ u, Unheld s q u → Unheld s' q' u := by
  induction h with
  | refl => exact ⟨q,hq,fun _ h => h⟩
  | tail _ hm ih =>
    obtain ⟨q₁,hq₁,hu₁⟩ := ih
    obtain ⟨q₂,hq₂,hu₂⟩ := hq₁.move hm
    exact ⟨q₂,hq₂,fun u hu => hu₂ u (hu₁ u hu)⟩

theorem unlinks (hq : Queued s q) {t : Tid} {st : ThreadState} (h : Unlinks t st s s')
    (hst : st ≠ .ready ∧ st ≠ .running) :
    ∃ q', Queued s' q' ∧ ∀ u, Unheld s q u → Unheld s' q' u := by
  have hs := fun u hu => stateOf_of_standing (h.others u hu)
  have ha : s'.stateOf t = some st := h.after
  obtain ⟨thread,ht,hb⟩ := h.before
  have hbefore : s.stateOf t = some .ready ∨ s.stateOf t = some .running := by
    simpa [State.stateOf,ht] using hb
  have hm : t ∈ q := by
    by_cases hi : t = s.idleThread
    · -- unlinking the idle thread would dereference its null link
      have hnull := hq.free t (hi ▸ hq.idle)
      exact absurd h.removed (by simp [Links.remove,hnull,ListHead.null])
    · exact hq.runnable t hi hbefore
  obtain ⟨q',hq',hnt,hsub⟩ := hq.unlink hm h.removed h.idleThread hs (by simp [ha,hst])
  refine ⟨q',hq',?_⟩
  intro u hu hst'
  by_cases hut : u = t
  · exact hut ▸ hnt
  · rw [hs u hut] at hst'
    exact fun hc => hu hst' (hsub u hc)

theorem ends (hq : Queued s q) {t : Tid} (h : Ends t s s') (hu : Unheld s q t) :
    Queued s' q ∧ ∀ u, Unheld s q u → Unheld s' q u := by
  have hs := fun u hu => stateOf_of_standing (h.others u hu)
  have ha : s'.stateOf t = some .zombie := h.after
  obtain ⟨thread,ht,hb⟩ := h.before
  have hbefore : s.stateOf t = some .blocked ∨ s.stateOf t = some .stopped := by
    simpa [State.stateOf,ht] using hb
  have hnot : t ∉ q := by
    rcases hbefore with hb | hb
    · exact hq.off t (.inl hb)
    · exact hu hb
  have hidle : t ≠ s.idleThread := by
    rcases hbefore with hb | hb
    · exact hq.ne_idle hb (by simp)
    · exact hq.ne_idle hb (by simp)
  refine ⟨hq.restate h.schedLinks h.idleThread hs (fun hi => absurd hi hidle) ?_ (fun _ => hnot)
    (by simp [ha]),?_⟩
  · intro _ hc
    simp [ha] at hc
  · intro u hu' hst
    by_cases hut : u = t
    · exact hut ▸ hnot
    · rw [hs u hut] at hst
      exact hu' hst

theorem conts (hq : Queued s q) {t : Tid} (h : Conts t s s') (hu : Unheld s q t) :
    Queued s' (q ++ [t]) := by
  have hs := fun u hu => stateOf_of_standing (h.others u hu)
  have hb : s.stateOf t = some .stopped := h.stopped
  have ha : s'.stateOf t = some .stopped := by
    have := congrArg (Option.map Prod.fst) h.linked
    simpa [State.stateOf,Function.comp_def,Thread.standing] using this
  exact hq.link (hu hb) (hq.ne_idle hb (by simp)) h.addBefore h.idleThread hs (by simp [ha]) (by simp [ha])

theorem calm (hq : Queued s q) (h : Calm s s') :
    Queued s' q ∧ ∀ u, Unheld s q u → Unheld s' q u := by
  have hs := fun t => stateOf_of_standing (h.standing t)
  refine ⟨hq.same h.schedLinks h.idleThread hs,?_⟩
  intro u hu
  rw [Unheld,hs]
  exact hu

theorem dequeueThread (hq : Queued s q) {t : Tid} {stopSignal : Option Nat}
    (h : s.dequeueThread t stopSignal = some s') : ∃ q', Queued s' q' := by
  obtain ⟨s₁,hw,hu⟩ := State.dequeueThread_cases h
  obtain ⟨q₁,hq₁,-⟩ := hq.unlinks hu (by split_ifs <;> simp)
  obtain ⟨q₂,hq₂,-⟩ := hq₁.woken hw
  exact ⟨q₂,hq₂⟩

theorem terminateThread (hq : Queued s q) {t : Tid} {terminateSignal : Option Nat}
    (hu : Unheld s q t) (h : s.terminateThread t terminateSignal = some s') :
    ∃ q', Queued s' q' ∧ ∀ u, Unheld s q u → Unheld s' q' u := by
  rcases State.terminateThread_cases h with rfl | ⟨s₁,hw,hun | hend⟩
  · exact ⟨q,hq,fun _ h => h⟩
  · obtain ⟨q₁,hq₁,hu₁⟩ := hq.unlinks hun (by simp)
    obtain ⟨q₂,hq₂,hu₂⟩ := hq₁.woken hw
    exact ⟨q₂,hq₂,fun u hu => hu₂ u (hu₁ u hu)⟩
  · obtain ⟨hq₁,hu₁⟩ := hq.ends hend hu
    obtain ⟨q₂,hq₂,hu₂⟩ := hq₁.woken hw
    exact ⟨q₂,hq₂,fun u hu => hu₂ u (hu₁ u hu)⟩

theorem terminateThreads (hq : Queued s q) {l : List Tid} {terminateSignal : Option Nat}
    (hu : ∀ t ∈ l, Unheld s q t)
    (h : l.foldlM (fun s t => s.terminateThread t terminateSignal) s = some s') :
    ∃ q', Queued s' q' := by
  induction l generalizing s q with
  | nil =>
    cases h
    exact ⟨q,hq⟩
  | cons t l ih =>
    simp only [List.foldlM_cons,Option.bind_eq_bind,Option.bind_eq_some_iff] at h
    obtain ⟨s₁,ht,h⟩ := h
    obtain ⟨q₁,hq₁,hu₁⟩ := hq.terminateThread (hu t (by simp)) ht
    refine ih hq₁ ?_ h
    intro u hl
    exact hu₁ u (hu u (List.mem_cons_of_mem _ hl))

theorem terminateProcess (hq : Queued s q) {p : Pid} {terminateSignal : Option Nat}
    (hu : ∀ process, s.processes p = some process → ∀ t ∈ process.threadList, Unheld s q t)
    (h : s.terminateProcess p terminateSignal = some s') : ∃ q', Queued s' q' := by
  simp only [State.terminateProcess,Option.bind_eq_bind,Option.bind_eq_some_iff] at h
  obtain ⟨process,hp,h⟩ := h
  exact hq.terminateThreads (hu process hp) h

theorem enqueueThread (hq : Queued s q) {t : Tid} {signal : Int}
    (hu : signal = sigCont → Unheld s q t) (h : s.enqueueThread t signal = some s') :
    ∃ q', Queued s' q' := by
  by_cases hw : s.stateOf t = some .stopped → signal ≠ sigCont
  · obtain ⟨q',hq',-⟩ := hq.woken (State.enqueueThread_woken h hw)
    exact ⟨q',hq'⟩
  · rw [Classical.not_imp,not_not] at hw
    obtain ⟨hst,rfl⟩ := hw
    exact ⟨_,hq.conts (State.enqueueThread_conts h hst) (hu rfl)⟩

theorem sendSignal (hq : Queued s q) {t : Tid} {signal : Nat}
    (hu : signal = sigCont → Unheld s q t) (h : s.sendSignal t signal = some s') :
    ∃ q', Queued s' q' := by
  rcases State.sendSignal_cases h with hw | ⟨rfl,s₁,s₂,hquiet,hcont,hw⟩
  · obtain ⟨q',hq',-⟩ := hq.woken hw
    exact ⟨q',hq'⟩
  · obtain ⟨q₁,hq₁,hu₁⟩ := hq.woken hquiet.woken
    obtain ⟨q',hq',-⟩ := (hq₁.conts hcont (hu₁ t (hu rfl))).woken hw
    exact ⟨q',hq'⟩

end Queued

def State.held (s : State) (t : Tid) : Bool :=
  s.stateOf t = some .stopped && (s.schedLinks (some t)).next.isSome

theorem Queued.unheld {s : State} {q : List Tid} (hq : Queued s q) {t : Tid}
    (h : s.held t = false) : Unheld s q t := by
  intro hst hm
  have := (hq.linked_iff t).mpr hm
  rw [State.held,hst] at h
  cases hn : (s.schedLinks (some t)).next with
  | none => exact this hn
  | some b => simp [hn] at h

theorem Dispatched.stateOf {t : Tid} {s s' : State} {thread thread' : Thread} {process : Process}
    (h : Dispatched t s s' thread thread' process) (u : Tid) : s'.stateOf u = s.stateOf u := by
  by_cases hut : u = t
  · subst hut
    simp [State.stateOf,h.before,h.after,h.state]
  · simp only [State.stateOf,h.others u hut]

def MembersUnheld (s : State) (p : Pid) : Prop :=
  ∀ process, s.processes p = some process → ∀ t ∈ process.threadList, s.held t = false

def DispatchSafe (s : State) (t : Tid) : Prop :=
  ∀ thread process, s.threads t = some thread → s.processes thread.process = some process →
    thread.disposition process.signalActions = .terminate → MembersUnheld s thread.process

namespace Queued

variable {s s' : State} {q : List Tid}

theorem terminateSafely (hq : Queued s q) {p : Pid} {terminateSignal : Option Nat}
    (hu : MembersUnheld s p) (h : s.terminateProcess p terminateSignal = some s') :
    ∃ q', Queued s' q' :=
  hq.terminateProcess (fun process hp t ht => hq.unheld (hu process hp t ht)) h

theorem localStep (hq : Queued s q) {t : Tid} (h : Local t s s') (hs : s'.stateOf t = s.stateOf t) :
    Queued s' q := by
  refine hq.same h.schedLinks h.idleThread ?_
  intro u
  by_cases hu : u = t
  · rw [hu,hs]
  · simp only [State.stateOf,h.others u hu]

theorem dispatchPendingSignal (hq : Queued s q) {t : Tid} (hsafe : DispatchSafe s t)
    (h : s.dispatchPendingSignal t = some s') : ∃ q', Queued s' q' := by
  obtain ⟨thread,ht,⟨-,rfl⟩ | ⟨process,s₁,thread₁,hp,hd,h⟩⟩ := State.dispatchPendingSignal_cases h
  · refine ⟨q,hq.localStep (State.setThread_local t _) ?_⟩
    simp [State.stateOf,State.setThread,ht,Thread.beginDispatch]
  · have hq₁ := hq.localStep hd.toLocal (hd.stateOf t)
    cases hdisp : thread.disposition process.signalActions with
    | keep =>
      rw [hdisp] at h
      exact ⟨q,h ▸ hq₁⟩
    | handle =>
      rw [hdisp] at h
      exact ⟨q,h ▸ hq₁⟩
    | stop =>
      rw [hdisp] at h
      obtain ⟨signal,h⟩ := h
      exact hq₁.dequeueThread h
    | terminate =>
      rw [hdisp] at h
      obtain ⟨signal,h⟩ := h
      refine hq₁.terminateSafely ?_ h
      -- the dispatch has changed neither the states nor the links its members are judged by
      intro process₁ hp₁ u hu
      have hlists := hd.threadLists thread.process
      simp only [hp₁,hp,Option.map_some,Option.some.injEq] at hlists
      have hheld := hsafe thread process ht hp hdisp process hp u (hlists ▸ hu)
      simpa only [State.held,hd.stateOf u,hd.schedLinks] using hheld

theorem returnFromSignal (hq : Queued s q) {t : Tid} (h : s.returnFromSignal t = some s') :
    ∃ q', Queued s' q' := by
  obtain ⟨thread,addr,ht,-,hw⟩ := State.returnFromSignal_cases h
  refine Exists.imp (fun _ h => h.1) ((hq.localStep (State.setThread_local t _) ?_).woken hw)
  simp [State.stateOf,State.setThread,ht,Thread.leaveHandler]

end Queued

end SabaOS.Sched
