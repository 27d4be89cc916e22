import Mathlib.Data.List.Perm.Subperm
import SabaOS.Sched.Registry

namespace SabaOS.Sched

open SabaOS.Lib

def Thread.awaken (thread : Thread) (which : Nat) : Thread :=
  let thread := { thread with whichEvent := which }
  if thread.state = .blocked then { thread with enqueuedBySignal := -1, state := .ready } else thread

def Thread.awakenAll (t : Tid) (ls : List Listener) (thread : Thread) : Thread :=
  ls.foldl (fun thread l => if l.thread = t then thread.awaken l.which else thread) thread

theorem awakenAll_nil (t : Tid) : Thread.awakenAll t [] = id := rfl

theorem awakenAll_cons (t : Tid) (l : Listener) (ls : List Listener) (thread : Thread) :
    thread.awakenAll t (l :: ls) =
      (if l.thread = t then thread.awaken l.which else thread).awakenAll t ls := rfl

def wakeLimit (maxToWake : Int) : Nat := max 1 maxToWake.toNat

namespace State

variable {s s' : State} {t : Tid}

def Rooted (s : State) : Prop := ∃ p, (s.schedLinks none).prev = some p

def listenerAt (s : State) : ListenerAddr → Listener
  | .head _ => {}
  | .node b i => s.nodes b i

def wakeAll (s : State) (ls : List Listener) : Option State := ls.foldlM wake s

theorem rooted_addBefore {links : Links (Option Tid)}
    (hl : s.schedLinks.addBefore none (some t) = some links) : ∃ p, (links none).prev = some p := by
  unfold Links.addBefore at hl
  simp only [Option.bind_eq_bind,Option.bind_eq_some_iff,Option.pure_def,Option.some.injEq] at hl
  obtain ⟨p,-,rfl⟩ := hl
  exact ⟨some t,by simp [Links.setPrev_prev]⟩

theorem Rooted.remove {links : Links (Option Tid)} (h : s.Rooted)
    (hl : s.schedLinks.remove (some t) = some links) : ∃ p, (links none).prev = some p := by
  obtain ⟨p,hp⟩ := h
  unfold Links.remove at hl
  simp only [Option.bind_eq_bind,Option.bind_eq_some_iff,Option.pure_def,Option.some.injEq] at hl
  obtain ⟨n,-,q,hq,rfl⟩ := hl
  rw [Function.update_of_ne (by simp),Links.setNext_prev,Links.setPrev_prev]
  split_ifs
  · rw [Links.setPrev_prev] at hq
    split_ifs at hq
    · exact ⟨q,hq⟩
    · exact ⟨q,hq⟩
  · exact ⟨p,hp⟩

theorem wake_eq {thread : Thread} {l : Listener} (h : s.Rooted)
    (ht : s.threads l.thread = some thread) :
    ∃ links, s.wake l = some ((s.setSched links).setThread l.thread (thread.awaken l.which)) ∧
      ∃ p, (links none).prev = some p := by
  obtain ⟨p,hp⟩ := h
  by_cases hb : thread.state = .blocked
  · obtain ⟨links,hl⟩ : ∃ links, s.schedLinks.addBefore none (some l.thread) = some links := by
      simp [Links.addBefore,hp]
    refine ⟨links,?_,rooted_addBefore hl⟩
    simp [wake,enqueueThread,ht,hb,hl,setThread,setSched,Thread.awaken]
  · refine ⟨s.schedLinks,?_,p,hp⟩
    by_cases hs : thread.state = .stopped
    · simp [wake,enqueueThread,ht,hs,setThread,setSched,Thread.awaken,sigCont]
    · simp [wake,enqueueThread,ht,hb,hs,setThread,setSched,Thread.awaken]

theorem wakeAll_eq {ls : List Listener} (h : s.Rooted) (hex : ∀ l ∈ ls, (s.threads l.thread).isSome) :
    ∃ s', s.wakeAll ls = some s' ∧ s'.Rooted ∧
      ∀ t, s'.threads t = (s.threads t).map (Thread.awakenAll t ls) := by
  induction ls generalizing s with
  | nil => exact ⟨s,rfl,h,fun t => by simp [awakenAll_nil]⟩
  | cons l ls ih =>
    obtain ⟨thread,ht⟩ := Option.isSome_iff_exists.mp (hex l List.mem_cons_self)
    obtain ⟨links,hw,hroot⟩ := wake_eq h ht
    obtain ⟨s',h',hr',hthreads⟩ := ih (s := (s.setSched links).setThread l.thread (thread.awaken l.which))
      hroot fun l' hl' => by
        by_cases hll : l'.thread = l.thread
        · simp [setThread,hll]
        · simpa [setThread,setSched,hll] using hex l' (List.mem_cons_of_mem _ hl')
    refine ⟨s',?_,hr',fun t => ?_⟩
    · simpa [wakeAll,List.foldlM_cons,hw] using h'
    · rw [hthreads t]
      by_cases htl : t = l.thread
      · subst htl
        simp [setThread,ht,awakenAll_cons]
      · have hcons : Thread.awakenAll t (l :: ls) = Thread.awakenAll t ls := by
          funext thread
          simp [awakenAll_cons,Ne.symm htl]
        simp [setThread,setSched,htl,hcons]

theorem triggerLoop_eq {e : EventId} {maxToWake : Int} {fuel woken : Nat} {pos : ListenerAddr}
    {ns : List ListenerAddr} (hnode : ∀ a ∈ ns, ∃ b i, a = .node b i)
    (hpos : (ns ++ [ListenerAddr.head e]).head? = some pos)
    (hpath : ∀ n ns', ns = n :: ns' → s.listenerLinks.Path n ns' (.head e))
    (hfuel : ns.length < fuel) (hwoken : woken < wakeLimit maxToWake) :
    triggerLoop e maxToWake fuel s pos (s.listenerLinks pos).next woken =
      (s.wakeAll ((ns.map s.listenerAt).take (wakeLimit maxToWake - woken))).map
        fun s' => (s',woken + min ns.length (wakeLimit maxToWake - woken)) := by
  induction ns generalizing s fuel woken pos with
  | nil =>
    obtain ⟨fuel,rfl⟩ := Nat.exists_eq_succ_of_ne_zero (by omega : fuel ≠ 0)
    obtain rfl : .head e = pos := by simpa using hpos
    simp [triggerLoop,wakeAll]
  | cons n ns ih =>
    obtain ⟨fuel,rfl⟩ := Nat.exists_eq_succ_of_ne_zero (by omega : fuel ≠ 0)
    obtain rfl : n = pos := by simpa using hpos
    obtain ⟨b,i,rfl⟩ := hnode n List.mem_cons_self
    obtain ⟨k,hk⟩ : ∃ k, wakeLimit maxToWake - woken = k + 1 := ⟨wakeLimit maxToWake - woken - 1,by omega⟩
    have hp := hpath _ ns rfl
    rw [hk,triggerLoop,if_neg (by simp)]
    simp only [Option.bind_eq_bind,List.map_cons,List.take_succ_cons,wakeAll,List.foldlM_cons,listenerAt]
    cases hw : s.wake (s.nodes b i) with
    | none => rfl
    | some s₁ =>
      have hstill := (wake_woken hw).still
      have hat : s₁.listenerAt = s.listenerAt := by
        funext a
        cases a <;> simp [listenerAt,hstill.nodes]
      simp only [Option.bind_some]
      by_cases hlast : (woken + 1 : Int) ≥ maxToWake
      · have hk0 : k = 0 := by
          unfold wakeLimit at hk
          omega
        subst hk0
        simp [hlast]
      · have hlim : woken + 1 < wakeLimit maxToWake := by
          unfold wakeLimit
          omega
        obtain ⟨pos',hpos'⟩ : ∃ pos', (ns ++ [ListenerAddr.head e]).head? = some pos' := by
          cases ns <;> simp
        rw [if_neg hlast,hp.next_eq,hpos',Option.bind_some,ih
          (fun a ha => hnode a (List.mem_cons_of_mem _ ha)) hpos'
          (fun n' ns' hn => by
            subst hn
            rw [hstill.listenerLinks]
            exact hp.2) (by simpa using hfuel) hlim,hat,show wakeLimit maxToWake - (woken + 1) = k by omega]
        congr 1
        funext s'
        rw [List.length_cons,Nat.add_min_add_right]
        simp only [Prod.mk.injEq,true_and]
        omega

end State

namespace Registry

variable {s s' : State} {slot : Slots} {xs : EventId → List ListenerAddr}
  {cells : List ListenerAddr} {t : Tid} {e : EventId}

theorem length_le (h : Registry s slot xs) (hv : Vectors s cells) (e : EventId) :
    (xs e).length ≤ s.cellCount := by
  rw [← hv.count]
  refine (List.subperm_of_subset (List.nodup_cons.mp (h.rings.ring e).nodup).2 ?_).length_le
  intro a ha
  obtain ⟨t,b,i,w,rfl,hb,hi⟩ := (h.listed e a).mp ha
  obtain ⟨v,b',hvec,hb',hlt⟩ := h.within t i _ hi
  obtain rfl : b = b' := by
    rw [State.bufferOf,hvec] at hb
    exact Option.some.inj (hb.symm.trans hb')
  exact hv.inside t v b i hvec hb' (hlt.trans_le (hv.fits t v hvec).1)

theorem listenerAt_mem (h : Registry s slot xs) {l : Listener} (hl : l ∈ (xs e).map s.listenerAt) :
    ∃ t i w, slot t i = some (w,e) ∧ l = ⟨t,some e,w⟩ ∧ (s.threads t).isSome := by
  obtain ⟨a,ha,rfl⟩ := List.mem_map.mp hl
  obtain ⟨t,b,i,w,rfl,hb,hi⟩ := (h.listed e a).mp ha
  refine ⟨t,i,w,hi,h.content t b i w e hb hi,?_⟩
  obtain ⟨v,hvec,-⟩ := State.bufferOf_some.mp hb
  simp only [State.vectorOf,Option.map_eq_some_iff] at hvec
  obtain ⟨thread,ht,-⟩ := hvec
  simp [ht]

theorem trigger (h : Registry s slot xs) (hv : Vectors s cells) (hroot : s.Rooted) (e : EventId)
    (drop : Bool) (maxToWake : Int) :
    ∃ s', s.trigger e drop maxToWake = some (s',min (xs e).length (wakeLimit maxToWake)) ∧ s'.Rooted ∧
      ∀ t, s'.threads t = (s.threads t).map
        (Thread.awakenAll t (((xs e).map s.listenerAt).take (wakeLimit maxToWake))) := by
  cases hx : xs e with
  | nil =>
    have hc : (s.events e).numListeners = 0 := by simp [h.count,hx]
    refine ⟨_,by simp only [State.trigger,hc,if_true]; rfl,?_,fun t => ?_⟩
    · split_ifs <;> exact hroot
    · split_ifs <;> simp [awakenAll_nil,State.setEvent]
  | cons a as =>
    have hc : (s.events e).numListeners ≠ 0 := by
      rw [h.count,hx]
      simp
      omega
    have hring := h.rings.ring e
    rw [hx] at hring
    have hex : ∀ l ∈ ((a :: as).map s.listenerAt).take (wakeLimit maxToWake),
        (s.threads l.thread).isSome := by
      intro l hl
      rw [← hx] at hl
      obtain ⟨t,i,w,-,rfl,ht⟩ := h.listenerAt_mem (List.mem_of_mem_take hl)
      exact ht
    obtain ⟨s',hw,hr',hthreads⟩ := State.wakeAll_eq hroot hex
    refine ⟨s',?_,hr',hthreads⟩
    have hle := h.length_le hv e
    rw [hx,List.length_cons] at hle
    have hnode : ∀ n ∈ a :: as, ∃ b i, n = .node b i := by
      intro n hn
      rw [← hx] at hn
      obtain ⟨t,b,i,w,rfl,-⟩ := (h.listed e n).mp hn
      exact ⟨b,i,rfl⟩
    have hpath : ∀ n ns, a :: as = n :: ns → s.listenerLinks.Path n ns (.head e) := by
      intro n ns heq
      cases heq
      exact hring.path.2
    have hlimit : 0 < wakeLimit maxToWake := by simp [wakeLimit]
    have hloop := State.triggerLoop_eq hnode rfl hpath (Nat.lt_succ_of_le hle) hlimit
    simp only [State.trigger,hc,if_false,hring.path.next_eq,Option.bind_eq_bind,List.cons_append,
      List.head?_cons,Option.bind_some]
    rw [hloop,Nat.sub_zero,hw,Option.map_some,Nat.zero_add]

end Registry

end SabaOS.Sched
