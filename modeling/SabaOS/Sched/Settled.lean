import SabaOS.Sched.Walk

namespace SabaOS.Sched

open SabaOS.Lib

structure Passive (s s' : State) : Prop where
  nodes : s'.nodes = s.nodes
  listenerLinks : s'.listenerLinks = s.listenerLinks
  nextBuffer : s'.nextBuffer = s.nextBuffer
  cellCount : s'.cellCount = s.cellCount
  numListeners : ∀ e, (s'.events e).numListeners = (s.events e).numListeners

structure Enrolled (s : State) (reg : Tid → List (Nat × EventId)) (xs : EventId → List ListenerAddr)
    (cells : List ListenerAddr) : Prop where
  vectors : Vectors s cells
  registry : Registry s (fun t i => (reg t)[i]?) xs
  rooted : s.Rooted
  sizes : ∀ t v, s.vectorOf t = some v → v.size = (reg t).length

def State.registeredOf (s : State) (t : Tid) : List (Nat × EventId) :=
  (s.threads t).elim [] (·.registered)

theorem Still.passive {s s' : State} (h : Still s s') : Passive s s' :=
  ⟨h.nodes,h.listenerLinks,h.nextBuffer,h.cellCount,h.numListeners⟩

theorem Still.station {s s' : State} (h : Still s s') (t : Tid) :
    (s'.threads t).map Thread.station = (s.threads t).map Thread.station := by
  have hk := congrArg
    (Option.map fun k : Thread.Kept => (k.listeners,k.registered,k.inWait,k.futexAddr)) (h.kept t)
  rwa [Option.map_map,Option.map_map] at hk

theorem SameStore.passive {s s' : State} (h : SameStore s s') : Passive s s' :=
  ⟨h.nodes,h.listenerLinks,h.nextBuffer,h.cellCount,fun e => by rw [h.events]⟩

theorem Change.passive {s s' : State} (h : Change s s') :
    Passive s s' ∧ ∀ t, (s'.threads t).map Thread.station = (s.threads t).map Thread.station := by
  cases h with
  | moves h => exact ⟨h.still.passive,h.still.station⟩
  | unlinks t st h => exact ⟨h.toStill.passive,h.toStill.station⟩
  | ends t h => exact ⟨h.toStill.passive,h.toStill.station⟩
  | conts t h => exact ⟨h.toStill.passive,h.toStill.station⟩
  | privately h => exact ⟨h.store.passive,h.station⟩

theorem State.Rooted.same {s s' : State} (h : s.Rooted) (hl : s'.schedLinks = s.schedLinks) :
    s'.Rooted := by
  obtain ⟨p,hp⟩ := h
  exact ⟨p,hl ▸ hp⟩

theorem Change.rooted {s s' : State} (h : Change s s') (hr : s.Rooted) : s'.Rooted := by
  cases h with
  | moves h =>
    cases h with
    | quiet h => exact hr.same h.schedLinks
    | wakes t h => exact State.rooted_addBefore h.addBefore
  | unlinks t st h => exact hr.remove h.removed
  | ends t h => exact hr.same h.schedLinks
  | conts t h => exact State.rooted_addBefore h.addBefore
  | privately h => exact hr.same h.schedLinks

theorem Vectors.passive {s s' : State} {cells : List ListenerAddr} (hv : Vectors s cells)
    (hp : Passive s s') (hbuf : s'.bufferOf = s.bufferOf)
    (hvec : ∀ t v, s'.vectorOf t = some v → v = {} ∨ ∃ v₀, s.vectorOf t = some v₀ ∧
      v.buffer = v₀.buffer ∧ v.capacity = v₀.capacity ∧ v.size ≤ v₀.size) : Vectors s' cells := by
  refine ⟨?_,?_,?_,?_,?_⟩
  · rw [hbuf]
    exact hv.apart
  · rw [hbuf,hp.nextBuffer]
    exact hv.old
  · intro t v h
    rcases hvec t v h with rfl | ⟨v₀,h₀,hb,hc,hs⟩
    · simp
    · rw [hb,hc]
      exact ⟨hs.trans (hv.fits t v₀ h₀).1,(hv.fits t v₀ h₀).2⟩
  · intro t v b i h hb hi
    rcases hvec t v h with rfl | ⟨v₀,h₀,hb₀,hc,-⟩
    · cases hb
    · exact hv.inside t v₀ b i h₀ (hb₀ ▸ hb) (hc ▸ hi)
  · rw [hp.cellCount]
    exact hv.count

theorem Registry.passive {s s' : State} {slot : Slots} {xs : EventId → List ListenerAddr}
    (h : Registry s slot xs) (hp : Passive s s') (hbuf : s'.bufferOf = s.bufferOf)
    (hvec : ∀ t i x, slot t i = some x → s'.vectorOf t = s.vectorOf t) : Registry s' slot xs := by
  refine ⟨?_,?_,?_,?_,?_⟩
  · rw [hp.listenerLinks]
    exact h.rings
  · intro e
    rw [hp.numListeners,h.count]
  · rw [hbuf]
    exact h.listed
  · rw [hbuf,hp.nodes]
    exact h.content
  · intro t i x hx
    obtain ⟨v,b,hv,hb,hi⟩ := h.within t i x hx
    exact ⟨v,b,(hvec t i x hx).trans hv,hb,hi⟩

namespace Enrolled

variable {s s' : State} {reg : Tid → List (Nat × EventId)} {xs : EventId → List ListenerAddr}
  {cells : List ListenerAddr} {t : Tid} {thread : Thread}

theorem passive (h : Enrolled s reg xs cells) (hp : Passive s s') (hr : s'.Rooted)
    (hvec : s'.vectorOf = s.vectorOf) : Enrolled s' reg xs cells := by
  have hbuf : s'.bufferOf = s.bufferOf := by
    funext t
    simp [State.bufferOf,hvec]
  refine ⟨h.vectors.passive hp hbuf fun t v hv => .inr ⟨v,hvec ▸ hv,rfl,rfl,le_rfl⟩,
    h.registry.passive hp hbuf fun t _ _ _ => by rw [hvec],hr,?_⟩
  rw [hvec]
  exact h.sizes

theorem changes (h : Enrolled s reg xs cells) (hc : Changes s s') : Enrolled s' reg xs cells := by
  induction hc with
  | refl => exact h
  | tail _ hone ih =>
    obtain ⟨hp,hs⟩ := hone.passive
    refine ih.passive hp (hone.rooted ih.rooted) ?_
    funext t
    have := congrArg (Option.map fun x => x.1) (hs t)
    simpa [State.vectorOf,Option.map_map,Function.comp_def,Thread.station] using this

theorem fresh (h : Enrolled s reg xs cells) (hnone : s.threads t = none) (hp : Passive s s')
    (hr : s'.Rooted) (hthreads : s'.threads = Function.update s.threads t (some thread))
    (hl : thread.listeners = {}) : Enrolled s' reg xs cells := by
  have hvec : ∀ u, u ≠ t → s'.vectorOf u = s.vectorOf u := by
    intro u hu
    simp [State.vectorOf,hthreads,hu]
  have hown : s'.vectorOf t = some {} := by simp [State.vectorOf,hthreads,hl]
  have hbuf : s'.bufferOf = s.bufferOf := by
    funext u
    by_cases hu : u = t
    · subst hu
      have hold : s.vectorOf u = none := by simp [State.vectorOf,hnone]
      simp [State.bufferOf,hown,hold]
    · simp [State.bufferOf,hvec u hu]
  have hreg : reg t = [] := by
    by_contra hne
    obtain ⟨x,l,hx⟩ := List.exists_cons_of_ne_nil hne
    obtain ⟨v,-,hv,-⟩ := h.registry.within t 0 x (by simp [hx])
    simp [State.vectorOf,hnone] at hv
  refine ⟨h.vectors.passive hp hbuf ?_,h.registry.passive hp hbuf ?_,hr,?_⟩
  · intro u v hv
    by_cases hu : u = t
    · subst hu
      exact .inl (Option.some.inj (hv.symm.trans hown))
    · exact .inr ⟨v,(hvec u hu).symm.trans hv,rfl,rfl,le_rfl⟩
  · intro u i x hx
    refine hvec u ?_
    rintro rfl
    simp [hreg] at hx
  · intro u v hv
    by_cases hu : u = t
    · subst hu
      rw [hreg,← Option.some.inj (hown.symm.trans hv)]
      rfl
    · exact h.sizes u v ((hvec u hu).symm.trans hv)

theorem registerAll (h : Enrolled s reg xs cells) (ht : s.threads t = some thread)
    (hreg : reg t = []) (events : List (Option EventId))
    (hroom : (State.slots 0 events).length ≤ max 1 thread.listeners.capacity) :
    ∃ s' v' cells' xs', State.registerAll t 0 events s = some s' ∧
      s'.threads = Function.update s.threads t (some { thread with listeners := v' }) ∧
      Enrolled s' (Function.update reg t (State.slots 0 events)) xs' cells' := by
  have hsize : thread.listeners.size = 0 := by
    rw [h.sizes t _ (State.vectorOf_eq ht),hreg,List.length_nil]
  obtain ⟨s',v',cells',xs',h',hthreads,hsize',hr',hv'⟩ := h.registry.registerAll h.vectors ht events 0
    (by rwa [hsize,Nat.zero_add]) (fun j _ => by simp [hreg])
  refine ⟨s',v',cells',xs',h',hthreads,hv',?_,?_,?_⟩
  · have hslot : (Slots.put (fun t i => (reg t)[i]?) t thread.listeners.size (State.slots 0 events)) =
        fun u i => (Function.update reg t (State.slots 0 events) u)[i]? := by
      funext u i
      by_cases hu : u = t
      · subst hu
        rw [hsize,Slots.put_self _ _ _ (Nat.zero_le i),Nat.sub_zero,Function.update_self]
      · rw [Slots.put_other _ _ _ (fun hc => hu hc.1),Function.update_of_ne hu]
    exact hslot ▸ hr'
  · exact h.rooted.same (State.registerAll_calm h').schedLinks
  · intro u v hv
    by_cases hu : u = t
    · subst hu
      obtain rfl : v' = v := by simpa [State.vectorOf,hthreads] using hv
      rw [hsize',hsize,Function.update_self,Nat.zero_add]
    · rw [Function.update_of_ne hu]
      exact h.sizes u v (by simpa [State.vectorOf,hthreads,hu] using hv)

theorem clearVector (h : Enrolled s reg xs cells) (ht : s.threads t = some thread) :
    ∃ s' xs', s.clearVector thread.listeners = some s' ∧ s'.threads = s.threads ∧
      Registry s' (Slots.drop (fun t i => (reg t)[i]?) t (reg t).length) xs' ∧ Vectors s' cells := by
  have hvec := State.vectorOf_eq ht
  have hsize := h.sizes t _ hvec
  have hr : Registry s (Slots.drop (fun t i => (reg t)[i]?) t 0) xs := by
    rw [Slots.drop_zero]
    exact h.registry
  cases hb : thread.listeners.buffer with
  | none =>
    have hcap := (h.vectors.fits t _ hvec).2
    have hle := (h.vectors.fits t _ hvec).1
    have hzero : (reg t).length = 0 := by
      rw [← hsize]
      by_contra hne
      have := hcap (by omega)
      simp [hb] at this
    rw [hzero]
    exact ⟨s,xs,by simp [State.clearVector,hb],rfl,hr,h.vectors⟩
  | some b =>
    obtain ⟨s',xs',hc,hthreads,hr',hv'⟩ := hr.clearLoop h.vectors ((State.bufferOf_eq ht).trans hb)
      (reg t).length fun i hi => by simpa using hi
    refine ⟨s',xs',?_,hthreads,?_,hv'⟩
    · simpa [State.clearVector,hb,hsize] using hc
    · simpa using hr'

theorem clearListeners (h : Enrolled s reg xs cells) (ht : s.threads t = some thread) :
    ∃ s' xs', s.clearListeners t = some s' ∧
      s'.threads = Function.update s.threads t (some { thread with
        listeners := { thread.listeners with size := 0 }, registered := [] }) ∧
      Enrolled s' (Function.update reg t []) xs' cells := by
  obtain ⟨s₁,xs₁,hc,hthreads,hr₁,hv₁⟩ := h.clearVector ht
  let thread' : Thread :=
    { thread with listeners := { thread.listeners with size := 0 }, registered := [] }
  have hclear : s.clearListeners t = some (s₁.setThread t thread') := by
    simp [State.clearListeners,ht,hc,thread']
  have ht₁ : s₁.vectorOf t = some thread.listeners := State.vectorOf_eq (hthreads ▸ ht)
  have hown : (s₁.setThread t thread').vectorOf t = some thread'.listeners := by
    simp [State.vectorOf,State.setThread]
  have hothers : ∀ u, u ≠ t → (s₁.setThread t thread').vectorOf u = s₁.vectorOf u := by
    intro u hu
    simp [State.vectorOf,State.setThread,hu]
  have hp : Passive s₁ (s₁.setThread t thread') := ⟨rfl,rfl,rfl,rfl,fun _ => rfl⟩
  have hbuf : (s₁.setThread t thread').bufferOf = s₁.bufferOf := by
    funext u
    by_cases hu : u = t
    · subst hu
      simp [State.bufferOf,hown,ht₁,thread']
    · simp [State.bufferOf,hothers u hu]
  have hslot : Slots.drop (fun t i => (reg t)[i]?) t (reg t).length =
      fun u i => (Function.update reg t [] u)[i]? := by
    funext u i
    by_cases hu : u = t
    · subst hu
      simp [Slots.drop]
    · simp [Slots.drop,hu]
  rw [hslot] at hr₁
  refine ⟨_,xs₁,hclear,by rw [← hthreads]; rfl,hv₁.passive hp hbuf ?_,hr₁.passive hp hbuf ?_,
    h.rooted.same (State.clearListeners_calm hclear).schedLinks,?_⟩
  · intro u v hv
    by_cases hu : u = t
    · subst hu
      obtain rfl := Option.some.inj (hown.symm.trans hv)
      exact .inr ⟨thread.listeners,ht₁,rfl,rfl,Nat.zero_le _⟩
    · exact .inr ⟨v,(hothers u hu).symm.trans hv,rfl,rfl,le_rfl⟩
  · intro u i x hx
    refine hothers u ?_
    rintro rfl
    simp at hx
  · intro u v hv
    by_cases hu : u = t
    · subst hu
      obtain rfl := Option.some.inj (hown.symm.trans hv)
      simp [thread']
    · rw [Function.update_of_ne hu]
      refine h.sizes u v ?_
      rw [← (hothers u hu).symm.trans hv]
      simp only [State.vectorOf,hthreads]

end Enrolled

structure Settled (s : State) (xs : EventId → List ListenerAddr) (cells : List ListenerAddr) :
    Prop extends Enrolled s s.registeredOf xs cells where
  idle : ∀ t thread, s.threads t = some thread → thread.inWait = false → thread.registered = []
  -- a timer is a local variable of the wait it ends
  timers : ∀ t w u, (w,.timer u) ∈ s.registeredOf t → u = t
  distinct : ∀ t, ((s.registeredOf t).map Prod.fst).Nodup

theorem Changes.station {s s' : State} (h : Changes s s') (t : Tid) :
    (s'.threads t).map Thread.station = (s.threads t).map Thread.station := by
  induction h with
  | refl => rfl
  | tail _ hone ih => exact (hone.passive.2 t).trans ih

namespace State

variable {s s' : State} {t : Tid} {thread : Thread}

theorem registeredOf_eq (ht : s.threads t = some thread) : s.registeredOf t = thread.registered := by
  simp [registeredOf,ht]

theorem registeredOf_station (h : (s'.threads t).map Thread.station = (s.threads t).map Thread.station) :
    s'.registeredOf t = s.registeredOf t := by
  have := congrArg (Option.elim · [] fun x => x.2.1) h
  simpa [registeredOf,Option.elim_map,Function.comp_def,Thread.station] using this

theorem takePending_cases {events : List (Option EventId)} {i j : Nat}
    (h : s.takePending i events = some (s',j)) :
    ∃ e, i ≤ j ∧ events[j - i]? = some (some e) ∧ 0 < (s.events e).pending ∧
      s' = s.setEvent e { s.events e with pending := (s.events e).pending - 1 } := by
  induction events generalizing i with
  | nil => cases h
  | cons e es ih =>
    have hlater (h : s.takePending (i + 1) es = some (s',j)) :
        ∃ e', i ≤ j ∧ (e :: es)[j - i]? = some (some e') ∧ 0 < (s.events e').pending ∧
          s' = s.setEvent e' { s.events e' with pending := (s.events e').pending - 1 } := by
      obtain ⟨e',hij,he,hp,hs⟩ := ih h
      refine ⟨e',by omega,?_,hp,hs⟩
      rw [show j - i = j - (i + 1) + 1 by omega,List.getElem?_cons_succ,he]
    cases e with
    | none => exact hlater h
    | some e =>
      unfold takePending at h
      split_ifs at h with hp
      · cases h
        exact ⟨e,le_rfl,by simp,hp,rfl⟩
      · exact hlater h

theorem mem_slots {events : List (Option EventId)} {i w : Nat} {e : EventId} :
    (w,e) ∈ slots i events ↔ i ≤ w ∧ events[w - i]? = some (some e) := by
  induction events generalizing i with
  | nil => simp [slots]
  | cons x es ih =>
    have hsucc : i + 1 ≤ w ∧ es[w - (i + 1)]? = some (some e) ↔
        i < w ∧ (x :: es)[w - i]? = some (some e) := by
      refine and_congr_right fun hlt => ?_
      rw [show w - i = w - (i + 1) + 1 by omega,List.getElem?_cons_succ]
    cases x with
    | none =>
      rw [slots,ih,hsucc]
      refine and_congr_left fun hx => ⟨le_of_lt,fun hle => hle.lt_of_ne ?_⟩
      rintro rfl
      simp at hx
    | some x =>
      rw [slots,List.mem_cons,ih,hsucc]
      constructor
      · rintro (heq | ⟨hlt,hx⟩)
        · cases heq
          simp
        · exact ⟨hlt.le,hx⟩
      · rintro ⟨hle,hx⟩
        rcases hle.eq_or_lt with rfl | hlt
        · left
          simpa using hx.symm
        · exact .inr ⟨hlt,hx⟩

end State

theorem State.slots_nodup (i : Nat) (events : List (Option EventId)) :
    ((slots i events).map Prod.fst).Nodup := by
  induction events generalizing i with
  | nil => simp [slots]
  | cons x es ih =>
    cases x with
    | none => exact ih (i + 1)
    | some x =>
      rw [slots,List.map_cons,List.nodup_cons]
      refine ⟨fun hm => ?_,ih (i + 1)⟩
      obtain ⟨⟨w,e⟩,hw,rfl⟩ := List.mem_map.mp hm
      have := (mem_slots.mp hw).1
      simp at this

namespace Settled

variable {s s' : State} {xs : EventId → List ListenerAddr} {cells : List ListenerAddr} {t : Tid}
  {thread : Thread}

theorem changes (h : Settled s xs cells) (hc : Changes s s') : Settled s' xs cells := by
  have hreg : s'.registeredOf = s.registeredOf := by
    funext t
    exact State.registeredOf_station (hc.station t)
  refine ⟨hreg ▸ h.toEnrolled.changes hc,?_,?_,?_⟩
  · intro t thread' ht hin
    have hst := hc.station t
    rw [ht,Option.map_some] at hst
    obtain ⟨thread,ht₀,heq⟩ := Option.map_eq_some_iff.mp hst.symm
    simp only [Thread.station,Prod.mk.injEq] at heq
    rw [← heq.2.1]
    exact h.idle t thread ht₀ (heq.2.2.1 ▸ hin)
  · rw [hreg]
    exact h.timers
  · rw [hreg]
    exact h.distinct

theorem clearListeners (h : Settled s xs cells) (hc : s.clearListeners t = some s') :
    ∃ thread xs', s.threads t = some thread ∧
      s'.threads = Function.update s.threads t (some { thread with
        listeners := { thread.listeners with size := 0 }, registered := [] }) ∧
      Settled s' xs' cells := by
  obtain ⟨thread,ht⟩ : ∃ thread, s.threads t = some thread := by
    simp only [State.clearListeners,Option.bind_eq_bind,Option.bind_eq_some_iff] at hc
    obtain ⟨thread,ht,-⟩ := hc
    exact ⟨thread,ht⟩
  obtain ⟨s₁,xs',h₁,hthreads,henr⟩ := h.toEnrolled.clearListeners ht
  obtain rfl : s₁ = s' := Option.some.inj (h₁.symm.trans hc)
  have hreg : s₁.registeredOf = Function.update s.registeredOf t [] := by
    funext u
    by_cases hu : u = t
    · subst hu
      simp [State.registeredOf,hthreads]
    · simp [State.registeredOf,hthreads,hu]
  refine ⟨thread,xs',ht,hthreads,hreg ▸ henr,?_,?_,?_⟩
  · intro u thread' hu hin
    by_cases hut : u = t
    · subst hut
      rw [hthreads,Function.update_self,Option.some.injEq] at hu
      rw [← hu]
    · exact h.idle u thread' (by simpa [hthreads,hut] using hu) hin
  · intro u w v hm
    by_cases hut : u = t
    · subst hut
      simp [hreg] at hm
    · exact h.timers u w v (by simpa [hreg,hut] using hm)
  · intro u
    by_cases hut : u = t
    · subst hut
      simp [hreg]
    · rw [hreg,Function.update_of_ne hut]
      exact h.distinct u

theorem setThread {thread' : Thread} (h : Settled s xs cells) (ht : s.threads t = some thread)
    (hl : thread'.listeners = thread.listeners) (hr : thread'.registered = thread.registered)
    (hin : thread'.inWait = false → thread'.registered = []) :
    Settled (s.setThread t thread') xs cells := by
  have hvec : (s.setThread t thread').vectorOf = s.vectorOf := by
    funext u
    exact update_map (·.listeners) s.threads ht hl u
  have hreg : (s.setThread t thread').registeredOf = s.registeredOf := by
    funext u
    by_cases hu : u = t
    · subst hu
      simp [State.registeredOf,State.setThread,ht,hr]
    · simp [State.registeredOf,State.setThread,hu]
  refine ⟨hreg ▸ h.toEnrolled.passive ⟨rfl,rfl,rfl,rfl,fun _ => rfl⟩ h.rooted hvec,?_,?_,?_⟩
  · intro u thread₁ hu hin₁
    by_cases hut : u = t
    · subst hut
      obtain rfl : thread' = thread₁ := by simpa [State.setThread] using hu
      exact hin hin₁
    · exact h.idle u thread₁ (by simpa [State.setThread,hut] using hu) hin₁
  · rw [hreg]
    exact h.timers
  · rw [hreg]
    exact h.distinct

theorem finishWait {ret : Int} (h : Settled s xs cells) (hf : s.finishWait t = some (s',ret)) :
    ∃ xs', Settled s' xs' cells := by
  simp only [State.finishWait,Option.bind_eq_bind,Option.bind_eq_some_iff,Option.pure_def] at hf
  obtain ⟨s₁,hc,thread₁,ht₁,hf⟩ := hf
  cases hf
  obtain ⟨thread,xs',-,hthreads,h₁⟩ := h.clearListeners hc
  refine ⟨xs',h₁.setThread ht₁ rfl rfl fun _ => ?_⟩
  rw [hthreads,Function.update_self,Option.some.injEq] at ht₁
  simp [← ht₁]

theorem setPending (h : Settled s xs cells) (e : EventId) (pending : Int) :
    Settled (s.setEvent e { s.events e with pending := pending }) xs cells := by
  refine ⟨h.toEnrolled.passive ⟨rfl,rfl,rfl,rfl,fun e' => ?_⟩ h.rooted rfl,h.idle,h.timers,h.distinct⟩
  by_cases he : e' = e
  · subst he
    simp [State.setEvent]
  · simp [State.setEvent,he]

theorem blocks {s₁ s₂ : State} {thread₂ : Thread} {events : List (Option EventId)}
    (h : Settled s xs cells) (ht : s.threads t = some thread) (hsize : thread.listeners.size = 0)
    (hroom : (State.slots 0 events).length ≤ max 1 thread.listeners.capacity)
    (htimers : ∀ u, some (.timer u) ∈ events → u = t)
    (h₁ : State.registerAll t 0 events s = some s₁) (h₂ : s₁.dequeueThread t none = some s₂)
    (ht₂ : s₂.threads t = some thread₂) :
    ∃ xs' cells', Settled (s₂.setThread t { thread₂ with
      inWait := true, yieldAwait := true, registered := State.slots 0 events }) xs' cells' := by
  have hreg : s.registeredOf t = [] := by
    rw [← List.length_eq_zero_iff,← h.sizes t _ (State.vectorOf_eq ht),hsize]
  obtain ⟨s₁',v',cells',xs',h₁',hthreads,henr⟩ := h.toEnrolled.registerAll ht hreg events hroom
  obtain rfl : s₁' = s₁ := Option.some.inj (h₁'.symm.trans h₁)
  have hc := Changes.dequeueThread h₂
  have hothers : ∀ u, u ≠ t → (s₂.threads u).map Thread.station = (s.threads u).map Thread.station := by
    intro u hu
    rw [hc.station u,hthreads,Function.update_of_ne hu]
  let s' := s₂.setThread t { thread₂ with
    inWait := true, yieldAwait := true, registered := State.slots 0 events }
  have hvec : s'.vectorOf = s₂.vectorOf := by
    funext u
    by_cases hu : u = t
    · subst hu
      simp [State.vectorOf,s',State.setThread,ht₂]
    · simp [State.vectorOf,s',State.setThread,hu]
  have hregs : s'.registeredOf = Function.update s.registeredOf t (State.slots 0 events) := by
    funext u
    by_cases hu : u = t
    · subst hu
      simp [State.registeredOf,s',State.setThread]
    · rw [Function.update_of_ne hu,← State.registeredOf_station (hothers u hu)]
      simp [State.registeredOf,s',State.setThread,hu]
  have henr₂ := henr.changes hc
  refine ⟨xs',cells',hregs ▸ henr₂.passive ⟨rfl,rfl,rfl,rfl,fun _ => rfl⟩ henr₂.rooted hvec,?_,?_,?_⟩
  · intro u thread' hu hin
    by_cases hut : u = t
    · subst hut
      obtain rfl : _ = thread' := by simpa [State.setThread] using hu
      simp at hin
    · have hu₂ : s₂.threads u = some thread' := by simpa [State.setThread,hut] using hu
      have hst := hothers u hut
      rw [hu₂,Option.map_some] at hst
      obtain ⟨thread₀,hu₀,heq⟩ := Option.map_eq_some_iff.mp hst.symm
      simp only [Thread.station,Prod.mk.injEq] at heq
      rw [← heq.2.1]
      exact h.idle u thread₀ hu₀ (heq.2.2.1 ▸ hin)
  · intro u w v hm
    by_cases hut : u = t
    · subst hut
      rw [hregs,Function.update_self,State.mem_slots] at hm
      exact htimers v (List.mem_of_getElem? hm.2)
    · rw [hregs,Function.update_of_ne hut] at hm
      exact h.timers u w v hm
  · intro u
    by_cases hut : u = t
    · subst hut
      rw [hregs,Function.update_self]
      exact State.slots_nodup 0 events
    · rw [hregs,Function.update_of_ne hut]
      exact h.distinct u

theorem wait {events : List (Option EventId)} {nonblocking : Bool} {ret : Option Int}
    (h : Settled s xs cells) (hw : s.wait events nonblocking = some (s',ret))
    (hroom : ∀ t thread, s.cpu.runningThread = some t → s.threads t = some thread →
      thread.hasPendingSignals = false → s.takePending 0 events = none → nonblocking = false →
      (State.slots 0 events).length ≤ max 1 thread.listeners.capacity)
    (htimers : ∀ t u, s.cpu.runningThread = some t → some (.timer u) ∈ events → u = t) :
    ∃ xs' cells', Settled s' xs' cells' := by
  obtain ⟨t,thread,hrun,ht,⟨-,-,rfl⟩ | ⟨hsig,⟨i,hp,-⟩ |
    ⟨hnone,⟨-,-,rfl⟩ | ⟨hn,hsize,-,s₁,s₂,thread₂,h₁,h₂,ht₂,rfl⟩⟩⟩⟩ := State.wait_outcome hw
  · exact ⟨xs,cells,h⟩
  · obtain ⟨e,-,-,-,rfl⟩ := State.takePending_cases hp
    exact ⟨xs,cells,h.setPending e _⟩
  · exact ⟨xs,cells,h⟩
  · exact h.blocks ht hsize (hroom t thread hrun ht hsig hnone hn) (fun u hu => htimers t u hrun hu)
      h₁ h₂ ht₂

end Settled

end SabaOS.Sched
