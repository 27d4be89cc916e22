import SabaOS.Lib.Ring
import SabaOS.Sched.Changes

namespace SabaOS.Sched

open SabaOS.Lib

abbrev Slots := Tid → Nat → Option (Nat × EventId)

namespace Slots

variable (slot : Slots) (t : Tid)

def put (n : Nat) (l : List (Nat × EventId)) : Slots := fun u i =>
  if u = t ∧ n ≤ i then l[i - n]? else slot u i

def drop (n : Nat) : Slots := fun u i => if u = t ∧ i < n then none else slot u i

theorem put_self {n i : Nat} (l : List (Nat × EventId)) (h : n ≤ i) :
    slot.put t n l t i = l[i - n]? := by
  simp [put,h]

theorem put_other {n i : Nat} {u : Tid} (l : List (Nat × EventId)) (h : ¬(u = t ∧ n ≤ i)) :
    slot.put t n l u i = slot u i := if_neg h

theorem put_put (n : Nat) (x : Nat × EventId) (l : List (Nat × EventId)) :
    (slot.put t n [x]).put t (n + 1) l = slot.put t n (x :: l) := by
  funext u i
  by_cases hu : u = t
  · subst hu
    rcases lt_trichotomy i n with hi | rfl | hi
    · rw [put_other _ _ _ (by omega),put_other _ _ _ (by omega),put_other _ _ _ (by omega)]
    · rw [put_other _ _ _ (by omega),put_self _ _ _ le_rfl,put_self _ _ _ le_rfl]
      simp
    · rw [put_self _ _ _ (by omega : n + 1 ≤ i),put_self _ _ _ hi.le]
      obtain ⟨j,rfl⟩ := Nat.exists_eq_add_of_lt hi
      simp [show n + j + 1 - (n + 1) = j by omega,show n + j + 1 - n = j + 1 by omega]
  · simp [put,hu]

theorem put_nil {n : Nat} (h : ∀ i, n ≤ i → slot t i = none) : slot.put t n [] = slot := by
  funext u i
  by_cases hu : u = t ∧ n ≤ i
  · rw [hu.1,put_self _ _ _ hu.2,h i hu.2,List.getElem?_nil]
  · rw [put_other _ _ _ hu]

theorem put_one_iff {n i : Nat} {u : Tid} {x y : Nat × EventId} (h : ∀ j, n ≤ j → slot t j = none) :
    slot.put t n [x] u i = some y ↔ slot u i = some y ∨ u = t ∧ i = n ∧ y = x := by
  by_cases hu : u = t ∧ n ≤ i
  · obtain ⟨rfl,hn⟩ := hu
    rw [put_self _ _ _ hn,h i hn]
    rcases hn.eq_or_lt with rfl | hlt
    · simp [eq_comm]
    · have hne : i ≠ n := by omega
      rw [List.getElem?_eq_none (by simp; omega)]
      simp [hne]
  · rw [put_other _ _ _ hu]
    constructor
    · exact .inl
    · rintro (hy | ⟨rfl,rfl,-⟩)
      · exact hy
      · exact absurd ⟨rfl,le_rfl⟩ hu

theorem drop_zero : slot.drop t 0 = slot := by
  funext u i
  simp [drop]

theorem drop_succ_iff {n i : Nat} {u : Tid} {x : Nat × EventId} :
    slot.drop t (n + 1) u i = some x ↔ slot.drop t n u i = some x ∧ ¬(u = t ∧ i = n) := by
  by_cases hu : u = t
  · subst hu
    rcases lt_trichotomy i n with hi | rfl | hi
    · simp [drop,hi,show i < n + 1 by omega]
    · simp [drop]
    · simp [drop,show ¬i < n by omega,show ¬i < n + 1 by omega,hi.ne']
  · simp [drop,hu]

end Slots

namespace State

def vectorOf (s : State) (t : Tid) : Option ListenerVector := (s.threads t).map (·.listeners)

def bufferOf (s : State) (t : Tid) : Option Nat := (s.vectorOf t).bind (·.buffer)

end State

structure Vectors (s : State) (cells : List ListenerAddr) : Prop where
  apart : ∀ t u b, s.bufferOf t = some b → s.bufferOf u = some b → t = u
  old : ∀ t b, s.bufferOf t = some b → b < s.nextBuffer
  fits : ∀ t v, s.vectorOf t = some v → v.size ≤ v.capacity ∧ (0 < v.capacity → v.buffer.isSome)
  inside : ∀ t v b i, s.vectorOf t = some v → v.buffer = some b → i < v.capacity → .node b i ∈ cells
  count : cells.length = s.cellCount

structure Registry (s : State) (slot : Slots) (xs : EventId → List ListenerAddr) : Prop where
  rings : s.listenerLinks.Rings ListenerAddr.head xs
  count : ∀ e, (s.events e).numListeners = (xs e).length
  listed : ∀ e a, a ∈ xs e ↔
    ∃ t b i w, a = .node b i ∧ s.bufferOf t = some b ∧ slot t i = some (w,e)
  content : ∀ t b i w e, s.bufferOf t = some b → slot t i = some (w,e) → s.nodes b i = ⟨t,some e,w⟩
  within : ∀ t i x, slot t i = some x → ∃ v b, s.vectorOf t = some v ∧ v.buffer = some b ∧ i < v.size

namespace State

variable {s : State} {t : Tid}

theorem vectorOf_eq {thread : Thread} (h : s.threads t = some thread) :
    s.vectorOf t = some thread.listeners := by simp [vectorOf,h]

theorem bufferOf_eq {thread : Thread} (h : s.threads t = some thread) :
    s.bufferOf t = thread.listeners.buffer := by simp [bufferOf,vectorOf,h]

theorem bufferOf_some {b : Nat} :
    s.bufferOf t = some b ↔ ∃ v, s.vectorOf t = some v ∧ v.buffer = some b := by
  simp [bufferOf,Option.bind_eq_some_iff]

theorem reserveInternal_cases {v : ListenerVector} {cells : List ListenerAddr} (hv : Vectors s cells)
    (hvec : s.vectorOf t = some v) (hroom : v.size < max 1 v.capacity) :
    ∃ (s₁ : State) (b : Nat) (cells' : List ListenerAddr), s.reserveInternal v (v.size + 1) =
        (s₁,{ v with buffer := some b, capacity := max 1 v.capacity }) ∧
      s₁.threads = s.threads ∧ s₁.nodes = s.nodes ∧ s₁.listenerLinks = s.listenerLinks ∧
      s₁.events = s.events ∧ (∀ u, s.bufferOf u = some b → u = t) ∧
      (s.bufferOf t = some b ∨ v.capacity = 0) ∧
      b < s₁.nextBuffer ∧ s.nextBuffer ≤ s₁.nextBuffer ∧
      cells'.length = s₁.cellCount ∧ (∀ a ∈ cells, a ∈ cells') ∧
      ∀ i, i < max 1 v.capacity → .node b i ∈ cells' := by
  by_cases hcap : v.size + 1 ≤ v.capacity
  · have hmax : max 1 v.capacity = v.capacity := by omega
    obtain ⟨b,hb⟩ := Option.isSome_iff_exists.mp ((hv.fits t v hvec).2 (by omega))
    have hbuf : s.bufferOf t = some b := bufferOf_some.mpr ⟨v,hvec,hb⟩
    refine ⟨s,b,cells,?_,rfl,rfl,rfl,rfl,fun u hu => hv.apart u t b hu hbuf,.inl hbuf,hv.old t b hbuf,
      le_rfl,hv.count,fun a ha => ha,fun i hi => ?_⟩
    · rw [reserveInternal,if_pos hcap,hmax,← hb]
    · exact hv.inside t v b i hvec hb (hmax ▸ hi)
  · have hcap0 : v.capacity = 0 := by omega
    have hsize : v.size = 0 := by omega
    refine ⟨s.allocate 1,s.nextBuffer,cells ++ [.node s.nextBuffer 0],?_,rfl,rfl,rfl,rfl,?_,.inr hcap0,
      Nat.lt_succ_self _,Nat.le_succ _,?_,fun a ha => List.mem_append_left _ ha,?_⟩
    · have hmoves (src : Nat) : (s.allocate 1).moveNodes src s.nextBuffer 0 = s.allocate 1 := rfl
      rw [reserveInternal,if_neg hcap,hcap0,hsize]
      cases hb : v.buffer with
      | none => simp [moveBuffer,hb,growCapacity,allocate]
      | some src => simp [moveBuffer,hb,growCapacity,hsize,hmoves]
    · exact fun u hu => absurd (hv.old u _ hu) (Nat.lt_irrefl _)
    · simp [allocate,hv.count]
    · intro i hi
      obtain rfl : i = 0 := by omega
      simp

end State

def State.enlist (s : State) (t : Tid) (thread : Thread) (b i w : Nat) (e : EventId)
    (links : Links ListenerAddr) : State :=
  let event := s.events e
  (((s.setNode b i ⟨t,some e,w⟩).setThread t thread).setListenerLinks links).setEvent e
    { event with numListeners := event.numListeners + 1 }

structure Placed (s s' : State) (t : Tid) (b i w : Nat) (e : EventId) (v : ListenerVector) :
    Prop where
  links : Links.addBefore (Function.update s.listenerLinks (.node b i) .null) (.head e) (.node b i) =
    some s'.listenerLinks
  nodes : s'.nodes = Function.update s.nodes b (Function.update (s.nodes b) i ⟨t,some e,w⟩)
  count : ∀ e', (s'.events e').numListeners = (s.events e').numListeners + if e' = e then 1 else 0
  others : ∀ u, u ≠ t → s'.vectorOf u = s.vectorOf u
  own : s'.vectorOf t = some v
  buffer : v.buffer = some b
  size : v.size = i + 1

namespace Registry

variable {s s' : State} {slot : Slots} {xs : EventId → List ListenerAddr}
  {cells : List ListenerAddr} {t : Tid} {b i w : Nat} {e : EventId} {v : ListenerVector}

theorem unlinked (h : Registry s slot xs) (hother : ∀ u, s.bufferOf u = some b → u = t)
    (hfree : slot t i = none) (e' : EventId) : .node b i ∉ ListenerAddr.head e' :: xs e' := by
  rw [List.mem_cons,not_or]
  refine ⟨by simp,fun hm => ?_⟩
  obtain ⟨u,b',j,w,heq,hb,hj⟩ := (h.listed e' _).mp hm
  cases heq
  obtain rfl := hother u hb
  simp [hfree] at hj

theorem placed (h : Registry s slot xs) (p : Placed s s' t b i w e v)
    (hother : ∀ u, s.bufferOf u = some b → u = t)
    (hown : s.bufferOf t = some b ∨ ∀ j, slot t j = none) (hfree : ∀ j, i ≤ j → slot t j = none) :
    Registry s' (slot.put t i [(w,e)]) (Function.update xs e (xs e ++ [.node b i])) := by
  have hout := h.unlinked hother (hfree i le_rfl)
  have hbuf : s'.bufferOf t = some b := State.bufferOf_some.mpr ⟨v,p.own,p.buffer⟩
  have hsame : ∀ u j y, slot u j = some y → s'.bufferOf u = s.bufferOf u := by
    intro u j y hy
    by_cases hu : u = t
    · subst hu
      rcases hown with hs | hn
      · rw [hbuf,hs]
      · simp [hn j] at hy
    · simp only [State.bufferOf,p.others u hu]
  obtain ⟨l',hl,hrings⟩ := (h.rings.update hout .null).addBefore e hout
  obtain rfl : s'.listenerLinks = l' := Option.some.inj (p.links.symm.trans hl)
  refine ⟨hrings,?_,?_,?_,?_⟩
  · intro e'
    by_cases he : e' = e
    · subst he
      simp [p.count,h.count]
    · simp [p.count,h.count,he]
  · intro e' a
    have hmem : a ∈ Function.update xs e (xs e ++ [.node b i]) e' ↔
        a ∈ xs e' ∨ a = .node b i ∧ e' = e := by
      by_cases he : e' = e
      · subst he
        simp
      · simp [he]
    rw [hmem,h.listed]
    constructor
    · rintro (⟨u,b',j,w',rfl,hb,hj⟩ | ⟨rfl,rfl⟩)
      · exact ⟨u,b',j,w',rfl,(hsame u j _ hj).trans hb,(Slots.put_one_iff slot t hfree).mpr (.inl hj)⟩
      · exact ⟨t,b,i,w,rfl,hbuf,(Slots.put_one_iff slot t hfree).mpr (.inr ⟨rfl,rfl,rfl⟩)⟩
    · rintro ⟨u,b',j,w',rfl,hb,hj⟩
      rcases (Slots.put_one_iff slot t hfree).mp hj with hj | ⟨rfl,rfl,hx⟩
      · exact .inl ⟨u,b',j,w',rfl,(hsame u j _ hj).symm.trans hb,hj⟩
      · cases hx
        obtain rfl : b = b' := Option.some.inj (hbuf.symm.trans hb)
        exact .inr ⟨rfl,rfl⟩
  · intro u b' j w' e' hb hput
    rw [p.nodes]
    rcases (Slots.put_one_iff slot t hfree).mp hput with hj | ⟨rfl,rfl,hx⟩
    · have hb' := (hsame u j _ hj).symm.trans hb
      have hne : ¬(b' = b ∧ j = i) := by
        rintro ⟨rfl,rfl⟩
        obtain rfl := hother u hb'
        simp [hfree j le_rfl] at hj
      rw [← h.content u b' j w' e' hb' hj]
      by_cases hbb : b' = b
      · subst hbb
        have hji : j ≠ i := fun hji => hne ⟨rfl,hji⟩
        simp [hji]
      · simp [hbb]
    · cases hx
      obtain rfl : b = b' := Option.some.inj (hbuf.symm.trans hb)
      simp
  · intro u j x hput
    rcases (Slots.put_one_iff slot t hfree).mp hput with hj | ⟨rfl,rfl,-⟩
    · obtain ⟨v',b',hv',hb',hlt⟩ := h.within u j x hj
      by_cases hu : u = t
      · subst hu
        refine ⟨v,b,p.own,p.buffer,?_⟩
        have hji : j < i := by
          by_contra hji
          simp [hfree j (by omega)] at hj
        rw [p.size]
        omega
      · exact ⟨v',b',(p.others u hu).trans hv',hb',hlt⟩
    · exact ⟨v,b,p.own,p.buffer,by rw [p.size]; omega⟩

end Registry

theorem Vectors.congr {s s' : State} {cells : List ListenerAddr} (hv : Vectors s cells)
    (hthreads : s'.threads = s.threads) (hnext : s'.nextBuffer = s.nextBuffer)
    (hcount : s'.cellCount = s.cellCount) : Vectors s' cells := by
  have hvec : s'.vectorOf = s.vectorOf := by
    funext t
    simp [State.vectorOf,hthreads]
  have hbuf : s'.bufferOf = s.bufferOf := by
    funext t
    simp [State.bufferOf,hvec]
  constructor
  · rw [hbuf]
    exact hv.apart
  · rw [hbuf,hnext]
    exact hv.old
  · rw [hvec]
    exact hv.fits
  · rw [hvec]
    exact hv.inside
  · rw [hcount]
    exact hv.count

theorem Vectors.placed {s s' : State} {cells cells' : List ListenerAddr} {t : Tid} {b i w : Nat}
    {e : EventId} {v : ListenerVector} (hv : Vectors s cells) (p : Placed s s' t b i w e v)
    (hother : ∀ u, s.bufferOf u = some b → u = t) (hsub : ∀ a ∈ cells, a ∈ cells')
    (hcount : cells'.length = s'.cellCount) (hcells : ∀ j, j < v.capacity → .node b j ∈ cells')
    (hb : b < s'.nextBuffer) (hmono : s.nextBuffer ≤ s'.nextBuffer) (hfits : v.size ≤ v.capacity) :
    Vectors s' cells' := by
  have hbuf : ∀ u b', s'.bufferOf u = some b' → s.bufferOf u = some b' ∨ u = t ∧ b' = b := by
    intro u b' hu
    by_cases hut : u = t
    · subst hut
      simp only [State.bufferOf,p.own,Option.bind_some,p.buffer,Option.some.injEq] at hu
      exact .inr ⟨rfl,hu.symm⟩
    · simp only [State.bufferOf,p.others u hut] at hu
      exact .inl hu
  have hvec : ∀ u v', s'.vectorOf u = some v' → u ≠ t ∧ s.vectorOf u = some v' ∨ u = t ∧ v' = v := by
    intro u v' hu
    by_cases hut : u = t
    · subst hut
      exact .inr ⟨rfl,Option.some.inj (hu.symm.trans p.own)⟩
    · exact .inl ⟨hut,(p.others u hut).symm.trans hu⟩
  refine ⟨?_,?_,?_,?_,hcount⟩
  · intro u u' b' hu hu'
    rcases hbuf u b' hu with hu | ⟨rfl,rfl⟩
    · rcases hbuf u' b' hu' with hu' | ⟨rfl,rfl⟩
      · exact hv.apart u u' b' hu hu'
      · exact hother u hu
    · rcases hbuf u' b' hu' with hu' | ⟨rfl,-⟩
      · exact (hother u' hu').symm
      · rfl
  · intro u b' hu
    rcases hbuf u b' hu with hu | ⟨-,rfl⟩
    · exact (hv.old u b' hu).trans_le hmono
    · exact hb
  · intro u v' hu
    rcases hvec u v' hu with ⟨-,hu⟩ | ⟨rfl,rfl⟩
    · exact hv.fits u v' hu
    · exact ⟨hfits,fun _ => by simp [p.buffer]⟩
  · intro u v' b' j hu hb' hj
    rcases hvec u v' hu with ⟨-,hu⟩ | ⟨rfl,rfl⟩
    · exact hsub _ (hv.inside u v' b' j hu hb' hj)
    · obtain rfl : b = b' := Option.some.inj (p.buffer.symm.trans hb')
      exact hcells j hj

namespace Registry

variable {s s' : State} {slot : Slots} {xs : EventId → List ListenerAddr}
  {cells : List ListenerAddr} {t : Tid} {thread : Thread} {b n w : Nat} {e : EventId}

theorem register (h : Registry s slot xs) (hv : Vectors s cells) (ht : s.threads t = some thread)
    (hroom : thread.listeners.size < max 1 thread.listeners.capacity)
    (hfree : ∀ j, thread.listeners.size ≤ j → slot t j = none) (w : Nat) (e : EventId) :
    ∃ s' v' cells' xs', s.register t e w = some s' ∧
      s'.threads = Function.update s.threads t (some { thread with listeners := v' }) ∧
      v'.size = thread.listeners.size + 1 ∧ v'.capacity = max 1 thread.listeners.capacity ∧
      Registry s' (slot.put t thread.listeners.size [(w,e)]) xs' ∧ Vectors s' cells' := by
  have hvec := State.vectorOf_eq ht
  obtain ⟨s₁,b,cells',hres,hthreads,hnodes,hlinks,hevents,hother,hown,hb,hmono,hcount,hsub,hcells⟩ :=
    State.reserveInternal_cases hv hvec hroom
  have hown' : s.bufferOf t = some b ∨ ∀ j, slot t j = none := by
    refine hown.imp_right fun hcap j => hfree j ?_
    have := (hv.fits t _ hvec).1
    omega
  have hout := h.unlinked (i := thread.listeners.size) hother (hfree _ le_rfl)
  obtain ⟨l',hl,-⟩ := (h.rings.update hout .null).addBefore e hout
  let v : ListenerVector := ⟨some b,thread.listeners.size + 1,max 1 thread.listeners.capacity⟩
  let s' := s₁.enlist t { thread with listeners := v } b thread.listeners.size w e l'
  have hadd : s.register t e w = some s' := by
    simp [State.register,State.emplaceBack,ht,hres,State.setThread,State.setListenerLinks,State.setNode,
      hlinks,hl,s',v,State.enlist]
  have hthreads' : s'.threads = Function.update s.threads t (some { thread with listeners := v }) := by
    rw [← hthreads]
    rfl
  have hp : Placed s s' t b thread.listeners.size w e v :=
    { links := hl
      nodes := by
        rw [← hnodes]
        rfl
      count := fun e' => by
        rw [← hevents]
        by_cases he : e' = e
        · simp [s',State.enlist,State.setEvent,he]
        · simp [s',State.enlist,State.setEvent,State.setListenerLinks,State.setThread,State.setNode,he]
      others := fun u hu => by simp [State.vectorOf,hthreads',hu]
      own := by simp [State.vectorOf,hthreads']
      buffer := rfl
      size := rfl }
  exact ⟨s',v,cells',_,hadd,hthreads',rfl,rfl,h.placed hp hother hown' hfree,
    hv.placed hp hother hsub hcount hcells hb hmono hroom⟩

theorem registerAll (h : Registry s slot xs) (hv : Vectors s cells) (ht : s.threads t = some thread)
    (events : List (Option EventId)) (w : Nat)
    (hroom : thread.listeners.size + (State.slots w events).length ≤ max 1 thread.listeners.capacity)
    (hfree : ∀ j, thread.listeners.size ≤ j → slot t j = none) :
    ∃ s' v' cells' xs', State.registerAll t w events s = some s' ∧
      s'.threads = Function.update s.threads t (some { thread with listeners := v' }) ∧
      v'.size = thread.listeners.size + (State.slots w events).length ∧
      Registry s' (slot.put t thread.listeners.size (State.slots w events)) xs' ∧
      Vectors s' cells' := by
  induction events generalizing s thread slot xs cells w with
  | nil =>
    refine ⟨s,thread.listeners,cells,xs,rfl,?_,rfl,?_,hv⟩
    · rw [← ht,Function.update_eq_self]
    · rw [State.slots,Slots.put_nil _ _ hfree]
      exact h
  | cons e events ih =>
    cases e with
    | none => exact ih h hv ht (w + 1) hroom hfree
    | some e =>
      simp only [State.slots,List.length_cons] at hroom
      obtain ⟨s₁,v₁,cells₁,xs₁,h₁,hthreads₁,hsize₁,hcap₁,hr₁,hv₁⟩ := h.register hv ht (by omega) hfree w e
      have ht₁ : s₁.threads t = some { thread with listeners := v₁ } := by simp [hthreads₁]
      obtain ⟨s',v',cells',xs',h',hthreads',hsize',hr',hv'⟩ :=
        ih hr₁ hv₁ ht₁ (w + 1) (by dsimp only; omega) (by
          dsimp only
          intro j hj
          rw [Slots.put_self _ _ _ (by omega)]
          exact List.getElem?_eq_none (by simp; omega))
      refine ⟨s',v',cells',xs',?_,?_,?_,?_,hv'⟩
      · simpa [State.registerAll,h₁] using h'
      · rw [hthreads',hthreads₁,Function.update_idem]
      · rw [hsize']
        dsimp only
        rw [hsize₁,State.slots,List.length_cons]
        omega
      · dsimp only at hr'
        rw [hsize₁,Slots.put_put] at hr'
        exact hr'

theorem clearOne (h : Registry s (slot.drop t n) xs) (hv : Vectors s cells)
    (hb : s.bufferOf t = some b) (hs : slot t n = some (w,e)) :
    ∃ s' xs', s.clearOne b n = some s' ∧ s'.threads = s.threads ∧ s'.nextBuffer = s.nextBuffer ∧
      s'.cellCount = s.cellCount ∧ Registry s' (slot.drop t (n + 1)) xs' := by
  have hn : slot.drop t n t n = some (w,e) := by simpa [Slots.drop] using hs
  have hnode := h.content t b n w e hb hn
  have hm : .node b n ∈ xs e := (h.listed e _).mpr ⟨t,b,n,w,rfl,hb,hn⟩
  have hnd := (List.nodup_cons.mp (h.rings.ring e).nodup).2
  obtain ⟨ys,zs,hx⟩ := List.append_of_mem hm
  obtain ⟨l',hl,hrings⟩ := h.rings.remove hx
  have hclear : s.clearOne b n = some (((s.setListenerLinks l').setEvent e
      { s.events e with numListeners := (s.events e).numListeners - 1 }).setNode b n
      { s.nodes b n with event := none }) := by
    simp [State.clearOne,hnode,hl,State.setListenerLinks,State.setEvent,State.setNode]
  refine ⟨_,_,hclear,rfl,rfl,rfl,hrings,?_,?_,?_,?_⟩
  · intro e'
    by_cases he : e' = e
    · subst he
      have hc := h.count e'
      simp only [hx,List.length_append,List.length_cons] at hc
      simp only [State.setNode,State.setEvent,State.setListenerLinks,Function.update_self,hc,
        List.length_append]
      omega
    · simpa [State.setNode,State.setEvent,State.setListenerLinks,he] using h.count e'
  · intro e' a
    have hmem : a ∈ Function.update xs e (ys ++ zs) e' ↔ a ∈ xs e' ∧ a ≠ .node b n := by
      by_cases he : e' = e
      · subst he
        rw [hx] at hnd ⊢
        have hnot := (List.nodup_cons.mp (List.nodup_middle.mp hnd)).1
        simp only [Function.update_self,List.mem_append,List.mem_cons] at hnot ⊢
        constructor
        · rintro ha
          refine ⟨ha.imp_right .inr,?_⟩
          rintro rfl
          exact hnot ha
        · rintro ⟨ha | rfl | ha,hne⟩
          · exact .inl ha
          · exact absurd rfl hne
          · exact .inr ha
      · rw [Function.update_of_ne he]
        refine (and_iff_left_of_imp ?_).symm
        rintro ha rfl
        exact he (h.rings.once e' e _ ha hm)
    rw [hmem,h.listed]
    constructor
    · rintro ⟨⟨u,b',j,w',rfl,hb',hj⟩,hne⟩
      refine ⟨u,b',j,w',rfl,hb',(slot.drop_succ_iff t).mpr ⟨hj,?_⟩⟩
      rintro ⟨rfl,rfl⟩
      obtain rfl : b = b' := Option.some.inj (hb.symm.trans hb')
      exact hne rfl
    · rintro ⟨u,b',j,w',rfl,hb',hj⟩
      obtain ⟨hj,hne⟩ := (slot.drop_succ_iff t).mp hj
      refine ⟨⟨u,b',j,w',rfl,hb',hj⟩,?_⟩
      intro heq
      cases heq
      exact hne ⟨hv.apart u t b hb' hb,rfl⟩
  · intro u b' j w' e' hb' hj
    obtain ⟨hj,hne⟩ := (slot.drop_succ_iff t).mp hj
    rw [← h.content u b' j w' e' hb' hj]
    by_cases hbb : b' = b
    · subst hbb
      have hjn : j ≠ n := fun hjn => hne ⟨hv.apart u t b' hb' hb,hjn⟩
      simp [State.setNode,State.setEvent,State.setListenerLinks,hjn]
    · simp [State.setNode,State.setEvent,State.setListenerLinks,hbb]
  · intro u j x hj
    exact h.within u j x ((slot.drop_succ_iff t).mp hj).1

theorem clearLoop (h : Registry s (slot.drop t n) xs) (hv : Vectors s cells)
    (hb : s.bufferOf t = some b) (m : Nat) (hs : ∀ i, i < n + m → (slot t i).isSome) :
    ∃ s' xs', State.clearLoop b n m s = some s' ∧ s'.threads = s.threads ∧
      Registry s' (slot.drop t (n + m)) xs' ∧ Vectors s' cells := by
  induction m generalizing s n xs with
  | zero => exact ⟨s,xs,rfl,rfl,h,hv⟩
  | succ m ih =>
    obtain ⟨⟨w,e⟩,hn⟩ := Option.isSome_iff_exists.mp (hs n (by omega))
    obtain ⟨s₁,xs₁,h₁,hthreads,hnext,hcount,hr₁⟩ := h.clearOne hv hb hn
    have hv₁ := hv.congr hthreads hnext hcount
    have hb₁ : s₁.bufferOf t = some b := by simpa [State.bufferOf,State.vectorOf,hthreads] using hb
    obtain ⟨s',xs',h',hthreads',hr',hv'⟩ := ih hr₁ hv₁ hb₁ fun i hi => hs i (by omega)
    refine ⟨s',xs',?_,hthreads'.trans hthreads,?_,hv'⟩
    · simpa [State.clearLoop,h₁] using h'
    · rwa [show n + (m + 1) = n + 1 + m by omega]

end Registry

end SabaOS.Sched
