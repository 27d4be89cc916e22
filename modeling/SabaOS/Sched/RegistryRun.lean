import Mathlib.Data.Set.List
import SabaOS.Sched.Settled

namespace SabaOS.Sched

open SabaOS.Lib

def State.StaysPut (s : State) (events : List (Option EventId)) (nonblocking : Bool) : Prop :=
  ∀ t thread, s.cpu.runningThread = some t → s.threads t = some thread →
    thread.hasPendingSignals = false → s.takePending 0 events = none → nonblocking = false →
    (State.slots 0 events).length ≤ max 1 thread.listeners.capacity

def NodesStay (s : State) : Op → Prop
  | .wait events nonblocking => s.StaysPut events nonblocking
  | .futexWait uaddr expected timeout => ∀ t thread phyAddr, s.cpu.runningThread = some t →
      s.threads t = some thread → s.memory.word thread.process uaddr = expected →
      s.memory.physicalAddr thread.process uaddr = some phyAddr →
      (s.openFutex t phyAddr timeout).StaysPut (State.futexEvents t phyAddr timeout) false
  | _ => True

def Op.Owned : Op → Prop
  | .wait events _ => ∀ t, some (.timer t) ∉ events
  | _ => True

def RegistryStep (m m' : Machine) : Prop :=
  ∃ op : Op, op.Owned ∧ NodesStay m.state op ∧ m.step op = some m'

theorem Booted.settled {m : Machine} (hb : Booted m) :
    Settled m.state (fun _ => []) (List.replicate m.state.cellCount (.node 0 0)) := by
  have hreg : ∀ t, m.state.registeredOf t = [] := by
    intro t
    cases ht : m.state.threads t with
    | none => simp [State.registeredOf,ht]
    | some thread => simp [State.registeredOf,ht,(hb.ready t thread ht).2.2.1]
  have hvec : ∀ t v, m.state.vectorOf t = some v → v = {} := by
    intro t v hv
    obtain ⟨thread,ht,rfl⟩ := Option.map_eq_some_iff.mp hv
    exact (hb.ready t thread ht).2.1
  have hbuf : ∀ t, m.state.bufferOf t = none := by
    intro t
    cases hv : m.state.vectorOf t with
    | none => simp [State.bufferOf,hv]
    | some v => simp [State.bufferOf,hv,hvec t v hv]
  obtain ⟨q,hring,-⟩ := hb.queue
  obtain ⟨p,-,hp⟩ := hring.path.prev_mem
  refine ⟨⟨⟨?_,?_,?_,?_,by simp⟩,⟨⟨?_,?_,?_,?_⟩,?_,?_,?_,?_⟩,⟨p,hp⟩,?_⟩,?_,?_,?_⟩
  · intro t u b ht
    simp [hbuf] at ht
  · intro t b ht
    simp [hbuf] at ht
  · intro t v hv
    simp [hvec t v hv]
  · intro t v b i hv hb'
    simp [hvec t v hv] at hb'
  · intro e
    refine ⟨?_,by simp⟩
    simp [Links.Path,Links.Joined,(hb.heads e).1]
  · intro e e' he
    exact ListenerAddr.head.inj he
  · intro e e'
    simp
  · intro e e' a ha
    simp at ha
  · intro e
    exact (hb.heads e).2
  · intro e a
    simp [hbuf]
  · intro t b i w e ht
    simp [hbuf] at ht
  · intro t i x hx
    simp [hreg] at hx
  · intro t v hv
    simp [hvec t v hv,hreg]
  · intro t thread ht _
    exact (hb.ready t thread ht).2.2.1
  · intro t w u hm
    simp [hreg] at hm
  · intro t
    simp [hreg]

theorem State.spawnProcess_eq {s s' : State} {t : Tid} {p : Pid} (h : s.spawnProcess t p = some s') :
    ∃ processes, s' = { s with processes := processes } := by
  unfold State.spawnProcess at h
  split at h
  · cases h
    exact ⟨_,rfl⟩
  · simp only [Option.bind_eq_bind,Option.bind_eq_some_iff] at h
    obtain ⟨u,-,thread,-,parent,-,h⟩ := h
    split_ifs at h
    cases h
    exact ⟨_,rfl⟩

namespace Settled

variable {s s' : State} {xs : EventId → List ListenerAddr} {cells : List ListenerAddr} {t : Tid}

theorem armTimer (h : Settled s xs cells) (hreg : s.registeredOf t = []) :
    Settled (s.armTimer t) xs cells := by
  have hx : xs (.timer t) = [] := by
    rw [List.eq_nil_iff_forall_not_mem]
    intro a ha
    obtain ⟨u,b,i,w,-,-,hi⟩ := (h.registry.listed _ a).mp ha
    have hm := List.mem_of_getElem? hi
    obtain rfl := h.timers u w t hm
    simp [hreg] at hm
  have hr : Registry (s.armTimer t) (fun t i => (s.registeredOf t)[i]?) xs := by
    refine ⟨h.registry.rings.init hx,?_,h.registry.listed,h.registry.content,h.registry.within⟩
    intro e
    by_cases he : e = .timer t
    · subst he
      simp [State.armTimer,State.setEvent,State.setListenerLinks,hx]
    · simpa [State.armTimer,State.setEvent,State.setListenerLinks,he] using h.registry.count e
  exact ⟨⟨h.vectors.congr rfl rfl rfl,hr,h.rooted,h.sizes⟩,h.idle,h.timers,h.distinct⟩

theorem openFutex (h : Settled s xs cells) (hreg : s.registeredOf t = []) (phyAddr : Nat)
    (timeout : Bool) : Settled (s.openFutex t phyAddr timeout) xs cells := by
  have hinsert : Settled { s with futexTable := s.futexTable.insert phyAddr } xs cells :=
    ⟨h.toEnrolled.passive ⟨rfl,rfl,rfl,rfl,fun _ => rfl⟩ h.rooted rfl,h.idle,h.timers,h.distinct⟩
  cases timeout with
  | true => exact hinsert.armTimer hreg
  | false => exact hinsert

theorem spawn {p : Pid} {context : Context} {signals : SignalState} (h : Settled s xs cells)
    (hs : s.spawn t p context signals = some s') : Settled s' xs cells := by
  unfold State.spawn at hs
  split at hs
  · cases hs
  · rename_i hnone
    simp only [Option.bind_eq_bind,Option.bind_eq_some_iff,Option.pure_def] at hs
    obtain ⟨s₁,h₁,links,hl,hs⟩ := hs
    cases hs
    obtain ⟨processes,rfl⟩ := State.spawnProcess_eq h₁
    let thread : Thread := { process := p, state := .ready, context := context, signals := signals }
    let s' := (({ s with processes := processes } : State).setSched links).setThread t thread
    have hthreads : s'.threads = Function.update s.threads t (some thread) := rfl
    have henr : Enrolled s' s.registeredOf xs cells :=
      h.toEnrolled.fresh hnone ⟨rfl,rfl,rfl,rfl,fun _ => rfl⟩ (State.rooted_addBefore hl) hthreads rfl
    have hreg : s'.registeredOf = s.registeredOf := by
      funext u
      by_cases hu : u = t
      · subst hu
        simp [State.registeredOf,s',State.setThread,hnone,thread]
      · simp [State.registeredOf,s',State.setThread,State.setSched,hu]
    refine ⟨hreg ▸ henr,?_,hreg ▸ h.timers,hreg ▸ h.distinct⟩
    intro u thread' hu hin
    by_cases hut : u = t
    · subst hut
      obtain rfl : thread = thread' := by simpa [State.setThread] using hu
      rfl
    · exact h.idle u thread' (by simpa [State.setThread,State.setSched,hut] using hu) hin

theorem futexWait {uaddr : UInt64} {expected : UInt32} {timeout : Bool} {ret : Option Int}
    (h : Settled s xs cells) (hfree : s.runningFree.isSome)
    (hf : s.futexWait uaddr expected timeout = some (s',ret))
    (hstay : NodesStay s (.futexWait uaddr expected timeout)) :
    ∃ xs' cells', Settled s' xs' cells' := by
  simp only [State.futexWait,Option.bind_eq_bind,Option.bind_eq_some_iff] at hf
  obtain ⟨t,hrun,thread,ht,hf⟩ := hf
  split_ifs at hf with hword
  · cases hf
    exact ⟨xs,cells,h⟩
  · cases hphy : s.memory.physicalAddr thread.process uaddr with
    | none =>
      rw [hphy] at hf
      cases hf
      exact ⟨xs,cells,h⟩
    | some phyAddr =>
      rw [hphy] at hf
      simp only [Option.bind_eq_some_iff] at hf
      obtain ⟨⟨s₁,ret₁⟩,hw,hf⟩ := hf
      have hreg : s.registeredOf t = [] := by
        rw [State.registeredOf_eq ht]
        refine h.idle t thread ht ?_
        by_contra hin
        simp [State.runningFree,hrun,ht,hin] at hfree
      obtain ⟨xs₁,cells₁,h₁⟩ := (h.openFutex hreg phyAddr timeout).wait hw
        (hstay t thread phyAddr hrun ht (by simpa using hword) hphy) (by
          intro u v hu hm
          have hcpu : (s.openFutex t phyAddr timeout).cpu = s.cpu :=
            (State.openFutex_calm t phyAddr timeout).cpu
          rw [hcpu,hrun,Option.some.injEq] at hu
          subst hu
          cases timeout with
          | true => simpa [State.futexEvents] using hm
          | false => simp [State.futexEvents] at hm)
      cases ret₁ with
      | some r =>
        cases hf
        exact ⟨xs₁,cells₁,h₁⟩
      | none =>
        simp only [Option.bind_eq_some_iff,Option.pure_def] at hf
        obtain ⟨thread₁,ht₁,hf⟩ := hf
        cases hf
        exact ⟨xs₁,cells₁,h₁.setThread ht₁ rfl rfl (h₁.idle t thread₁ ht₁)⟩

theorem call {op : Op} (h : Settled s xs cells) (hown : op.Owned) (hstay : NodesStay s op)
    (hc : s.call op = some s') : ∃ xs' cells', Settled s' xs' cells' := by
  have same (hc : Changes s s') : ∃ xs' cells', Settled s' xs' cells' := ⟨xs,cells,h.changes hc⟩
  cases op with
  | user cpu memory =>
    cases hc
    exact ⟨xs,cells,h.toEnrolled.passive ⟨rfl,rfl,rfl,rfl,fun _ => rfl⟩ h.rooted rfl,h.idle,h.timers,
      h.distinct⟩
  | adjust t signals =>
    simp only [State.call,State.adjustSignals,Option.bind_eq_bind,Option.bind_eq_some_iff,
      Option.pure_def] at hc
    obtain ⟨thread,ht,hc⟩ := hc
    cases hc
    exact ⟨xs,cells,h.setThread ht rfl rfl (h.idle t thread ht)⟩
  | setActions p actions =>
    simp only [State.call,State.setActions,Option.bind_eq_bind,Option.bind_eq_some_iff,
      Option.pure_def] at hc
    obtain ⟨process,hp,hc⟩ := hc
    cases hc
    exact ⟨xs,cells,h.toEnrolled.passive ⟨rfl,rfl,rfl,rfl,fun _ => rfl⟩ h.rooted rfl,h.idle,h.timers,
      h.distinct⟩
  | enqueue t signal => exact same (.enqueueThread hc)
  | dequeue t stopSignal => exact same (.dequeueThread hc)
  | sendSignal t signal => exact same (.sendSignal hc)
  | terminateThread t terminateSignal => exact same (.terminateThread hc)
  | terminateProcess p terminateSignal => exact same (.terminateProcess hc)
  | wait events nonblocking =>
    simp only [State.call,Option.bind_eq_bind,Option.bind_eq_some_iff,Option.pure_def] at hc
    obtain ⟨_,-,⟨s₁,ret⟩,hw,hc⟩ := hc
    cases hc
    exact h.wait hw hstay fun _ u _ hm => absurd hm (hown u)
  | finishWait =>
    simp only [State.call,Option.bind_eq_bind,Option.bind_eq_some_iff,Option.pure_def] at hc
    obtain ⟨t,-,⟨s₁,ret⟩,hw,hc⟩ := hc
    cases hc
    obtain ⟨xs',h'⟩ := h.finishWait hw
    exact ⟨xs',cells,h'⟩
  | clearListeners t =>
    simp only [State.call] at hc
    split_ifs at hc
    obtain ⟨-,xs',-,-,h'⟩ := h.clearListeners hc
    exact ⟨xs',cells,h'⟩
  | trigger e drop maxToWake =>
    simp only [State.call,Option.map_eq_some_iff] at hc
    obtain ⟨⟨s₁,n⟩,hg,rfl⟩ := hc
    exact same (.woken (State.trigger_woken hg))
  | futexWait uaddr expected timeout =>
    simp only [State.call,Option.bind_eq_bind,Option.bind_eq_some_iff,Option.pure_def] at hc
    obtain ⟨_,hfree,⟨s₁,ret⟩,hw,hc⟩ := hc
    cases hc
    exact h.futexWait (by simp [hfree]) hw hstay
  | spawn t p context signals => exact ⟨xs,cells,h.spawn hc⟩
  | futexWake uaddr maxToWake =>
    simp only [State.call,Option.map_eq_some_iff] at hc
    obtain ⟨⟨s₁,n⟩,hg,rfl⟩ := hc
    exact same (.woken (State.futexWake_woken hg))
  | exception signal => exact same (.exceptionHandler hc)
  | interrupt => cases hc

end Settled

theorem Settled.step {m m' : Machine} {xs : EventId → List ListenerAddr} {cells : List ListenerAddr}
    (h : Settled m.state xs cells) (hstep : RegistryStep m m') :
    ∃ xs' cells', Settled m'.state xs' cells' := by
  obtain ⟨op,hown,hstay,hstep⟩ := hstep
  cases op with
  | interrupt =>
    simp only [Machine.step,Option.bind_eq_bind,Option.bind_eq_some_iff,Option.pure_def] at hstep
    obtain ⟨⟨s,retry⟩,hp,hstep⟩ := hstep
    cases hstep
    exact ⟨xs,cells,h.changes (.schedulerPass hp)⟩
  | _ =>
    simp only [Machine.step] at hstep
    split_ifs at hstep
    simp only [Option.map_eq_some_iff] at hstep
    obtain ⟨s,hc,rfl⟩ := hstep
    exact h.call hown hstay hc

theorem settled_reach {m₀ m : Machine} (hb : Booted m₀)
    (hrun : Relation.ReflTransGen RegistryStep m₀ m) : ∃ xs cells, Settled m.state xs cells := by
  induction hrun with
  | refl => exact ⟨_,_,hb.settled⟩
  | tail _ hstep ih =>
    obtain ⟨xs,cells,hs⟩ := ih
    exact hs.step hstep

theorem awakenAll_ready {t : Tid} {ls : List Listener} {thread : Thread}
    (h : thread.state = .ready ∨ thread.state = .blocked ∧ ∃ l ∈ ls, l.thread = t) :
    (thread.awakenAll t ls).state = .ready := by
  induction ls generalizing thread with
  | nil => simpa [awakenAll_nil] using h
  | cons l ls ih =>
    rw [awakenAll_cons]
    refine ih ?_
    by_cases hl : l.thread = t
    · rcases h with h | ⟨h,-⟩
      · exact .inl (by simp [hl,Thread.awaken,h])
      · exact .inl (by simp [hl,Thread.awaken,h])
    · rw [if_neg hl]
      refine h.imp_right ?_
      rintro ⟨hb,l',hm,ht⟩
      rcases List.mem_cons.mp hm with rfl | hm
      · exact absurd ht hl
      · exact ⟨hb,l',hm,ht⟩

structure ListenersOk (s : State) (e : EventId) (ns : List (Nat × Nat)) : Prop where
  ring : s.listenerLinks.Ring (.head e) (ns.map fun n => .node n.1 n.2)
  count : (s.events e).numListeners = ns.length
  live : ∀ n ∈ ns, ∃ t thread w, s.threads t = some thread ∧ thread.listeners.buffer = some n.1 ∧
    n.2 < thread.listeners.size ∧ (w,e) ∈ thread.registered ∧ s.nodes n.1 n.2 = ⟨t,some e,w⟩
  each : ∀ t thread w, s.threads t = some thread → (w,e) ∈ thread.registered →
    ∃! n, n ∈ ns ∧ s.nodes n.1 n.2 = ⟨t,some e,w⟩
  wakes : ∀ (drop : Bool) (maxToWake : Int), (ns.length : Int) ≤ maxToWake →
    ∃ s' n, s.trigger e drop maxToWake = some (s',n) ∧
      ∀ t thread w, s.threads t = some thread → (w,e) ∈ thread.registered →
        thread.state = .blocked → s'.stateOf t = some .ready

namespace Settled

variable {s : State} {xs : EventId → List ListenerAddr} {cells : List ListenerAddr} {t : Tid}
  {thread : Thread} {e : EventId}

theorem registered_listed (h : Settled s xs cells) {w : Nat} (ht : s.threads t = some thread)
    (hm : (w,e) ∈ thread.registered) :
    ∃ b i, s.bufferOf t = some b ∧ (s.registeredOf t)[i]? = some (w,e) ∧ .node b i ∈ xs e ∧
      s.nodes b i = ⟨t,some e,w⟩ := by
  rw [← State.registeredOf_eq ht] at hm
  obtain ⟨i,hi⟩ := List.mem_iff_getElem?.mp hm
  obtain ⟨v,b,hv,hb,-⟩ := h.registry.within t i _ hi
  have hbuf := State.bufferOf_some.mpr ⟨v,hv,hb⟩
  exact ⟨b,i,hbuf,hi,(h.registry.listed e _).mpr ⟨t,b,i,w,rfl,hbuf,hi⟩,
    h.registry.content t b i w e hbuf hi⟩

theorem wakes (h : Settled s xs cells) (e : EventId) (drop : Bool) (maxToWake : Int)
    (hmax : ((xs e).length : Int) ≤ maxToWake) :
    ∃ s' n, s.trigger e drop maxToWake = some (s',n) ∧
      ∀ t thread w, s.threads t = some thread → (w,e) ∈ thread.registered →
        thread.state = .blocked → s'.stateOf t = some .ready := by
  obtain ⟨s',htrig,-,hthreads⟩ := h.registry.trigger h.vectors h.rooted e drop maxToWake
  refine ⟨s',_,htrig,?_⟩
  intro t thread w ht hm hb
  obtain ⟨b,i,-,-,hx,hnode⟩ := h.registered_listed ht hm
  have hlimit : (xs e).length ≤ wakeLimit maxToWake := by
    unfold wakeLimit
    omega
  rw [List.take_of_length_le (by simpa using hlimit)] at hthreads
  have hl : ∃ l ∈ (xs e).map s.listenerAt, l.thread = t :=
    ⟨s.nodes b i,List.mem_map.mpr ⟨_,hx,rfl⟩,by rw [hnode]⟩
  have hready := awakenAll_ready (.inr ⟨hb,hl⟩)
  simp [State.stateOf,hthreads,ht,hready]

theorem listenersOk (h : Settled s xs cells) (e : EventId) : ∃ ns, ListenersOk s e ns := by
  have hmap : xs e ∈ Set.range (List.map fun n : Nat × Nat => ListenerAddr.node n.1 n.2) := by
    rw [Set.range_list_map]
    intro a ha
    obtain ⟨t,b,i,w,rfl,-⟩ := (h.registry.listed e a).mp ha
    exact ⟨(b,i),rfl⟩
  obtain ⟨ns,hns⟩ := hmap
  have hmem : ∀ b i, (b,i) ∈ ns ↔ ListenerAddr.node b i ∈ xs e := by
    intro b i
    rw [← hns,List.mem_map]
    constructor
    · exact fun hm => ⟨(b,i),hm,rfl⟩
    · rintro ⟨⟨b',i'⟩,hm,heq⟩
      cases heq
      exact hm
  have hlen : (xs e).length = ns.length := by rw [← hns,List.length_map]
  refine ⟨ns,⟨?_,?_,?_,?_,?_⟩⟩
  · rw [hns]
    exact h.registry.rings.ring e
  · rw [h.registry.count,hlen]
  · rintro ⟨b,i⟩ hm
    obtain ⟨t,b',i',w,heq,hbuf,hi⟩ := (h.registry.listed e _).mp ((hmem b i).mp hm)
    cases heq
    obtain ⟨v,b',hv,hb,hlt⟩ := h.registry.within t i _ hi
    obtain ⟨thread,ht,rfl⟩ := Option.map_eq_some_iff.mp hv
    refine ⟨t,thread,w,ht,(State.bufferOf_eq ht).symm.trans hbuf,hlt,?_,h.registry.content t b i w e hbuf hi⟩
    rw [← State.registeredOf_eq ht]
    exact List.mem_of_getElem? hi
  · intro t thread w ht hm
    obtain ⟨b,i,hbuf,hi,hx,hnode⟩ := h.registered_listed ht hm
    refine ⟨(b,i),⟨(hmem b i).mpr hx,hnode⟩,?_⟩
    rintro ⟨b',i'⟩ ⟨hm',hnode'⟩
    obtain ⟨t',_,_,w',heq,hbuf',hi'⟩ := (h.registry.listed e _).mp ((hmem b' i').mp hm')
    cases heq
    have hcontent := h.registry.content t' b' i' w' e hbuf' hi'
    rw [hnode',Listener.mk.injEq] at hcontent
    obtain ⟨rfl,-,rfl⟩ := hcontent
    obtain rfl : b' = b := Option.some.inj (hbuf'.symm.trans hbuf)
    have hii : i' = i := by
      have hlt := (List.getElem?_eq_some_iff.mp hi').1
      refine (List.getElem?_inj (by simpa using hlt) (h.distinct _)).mp ?_
      simp [List.getElem?_map,hi,hi']
    rw [hii]
  · intro drop maxToWake hmax
    exact h.wakes e drop maxToWake (by rwa [hlen])

end Settled

theorem listeners_kept {m₀ m : Machine} (hb : Booted m₀)
    (hrun : Relation.ReflTransGen RegistryStep m₀ m) (e : EventId) : ∃ ns, ListenersOk m.state e ns := by
  obtain ⟨xs,cells,hs⟩ := settled_reach hb hrun
  exact hs.listenersOk e

def oneWait : List Op :=
  [.spawn 1 1 (userContext 0x1000) {},.interrupt,.wait [some (.other 0)] false]

def oneWaiting : Machine := (bootMachine.runOps oneWait).get (by decide +kernel)

theorem listeners_kept_one : ∃ ns, ListenersOk oneWaiting.state (.other 0) ns := by
  have h₁ : RegistryStep bootMachine initSpawned :=
    ⟨.spawn 1 1 (userContext 0x1000) {},trivial,trivial,(Option.some_get _).symm⟩
  obtain ⟨m₂,hm₂⟩ : ∃ m₂, initSpawned.step .interrupt = some m₂ :=
    Option.isSome_iff_exists.mp (by decide +kernel)
  have h₂ : RegistryStep initSpawned m₂ := ⟨.interrupt,trivial,trivial,hm₂⟩
  have h₃ : RegistryStep m₂ oneWaiting := by
    refine ⟨.wait [some (.other 0)] false,by simp [Op.Owned],?_,?_⟩
    · intro t thread _ _ _ _ _
      simp [State.slots]
    · have hrun : bootMachine.runOps oneWait = some oneWaiting := (Option.some_get _).symm
      have h : bootMachine.step (.spawn 1 1 (userContext 0x1000) {}) = some initSpawned :=
        (Option.some_get _).symm
      simpa [oneWait,Machine.runOps,h,hm₂] using hrun
  exact listeners_kept bootMachine_booted (((Relation.ReflTransGen.single h₁).tail h₂).tail h₃) (.other 0)

def twoWaits : List Op :=
  [.spawn 1 1 (userContext 0x1000) {},.interrupt,.spawn 4 4 (userContext 0x4000) {},
    .wait [some (.other 0),some (.other 1)] false,.interrupt,.wait [some (.other 0)] false,.interrupt,
    .trigger (.other 1) false intMax,.interrupt,.finishWait]

def lostListener : Machine := (bootMachine.runOps twoWaits).get (by decide +kernel)

theorem listeners_lost : Booted bootMachine ∧ Relation.ReflTransGen Step bootMachine lostListener ∧
    (¬∃ ns, ListenersOk lostListener.state (.other 0) ns) ∧
    (lostListener.state.trigger (.other 0) true intMax).map (fun out => out.1.stateOf 4) =
      some (some .blocked) := by
  refine ⟨bootMachine_booted,runOps_reaches twoWaits (Option.some_get _).symm,?_,by decide +kernel⟩
  rintro ⟨ns,h⟩
  have hcount : (lostListener.state.events (.other 0)).numListeners = 1 := by decide +kernel
  have hnext : (lostListener.state.listenerLinks (.head (.other 0))).next = some (.head (.other 0)) := by
    decide +kernel
  have hring := h.ring.path.next_eq
  have hlen := h.count
  cases ns with
  | nil =>
    rw [hcount] at hlen
    simp at hlen
  | cons n ns =>
    rw [hnext] at hring
    simp at hring

end SabaOS.Sched
