import SabaOS.Klib.TimeSpec
import SabaOS.Lib.Iterate
import SabaOS.Lib.Ring

namespace SabaOS.Sched.Timers

open SabaOS.Klib SabaOS.Lib SabaOS.Lib.Links

section Model

inductive Node where
  | armed
  | thread (th : Nat)
  | armedLink (t : Nat)
  | threadLink (t : Nat)
deriving DecidableEq, Repr

-- `triggers` counts the calls of the event's `trigger`.
structure Timer where
  remaining : TimeSpec := {}
  interval : TimeSpec := {}
  callback : Option Nat := none
  fired : Bool := false
  triggers : Nat := 0
deriving DecidableEq, Repr

structure State where
  links : Links Node
  timers : Nat → Timer
  locked : Bool
  monotonic : TimeSpec
  realtime : TimeSpec

inductive Call where
  | arm (th t : Nat) (time : TimeSpec) (callback : Option Nat)
  | disarm (t : Nat)

def State.setTimer (s : State) (t : Nat) (x : Timer) : State :=
  { s with timers := Function.update s.timers t x }

def isInvalid (l : Links Node) (a : Node) : Bool := (l a).next.isNone || (l a).prev.isNone

def unlink (l : Links Node) (a : Node) : Option (Links Node) :=
  if isInvalid l a then some l else l.remove a

-- On the thread `th`; `none` is a lock taken twice, or a null link.
def State.arm (s : State) (th t : Nat) (time : TimeSpec) (callback : Option Nat) : Option State := do
  let timer := s.timers t
  let s := s.setTimer t { timer with
    remaining := time
    fired := false
    callback := callback.or timer.callback }
  let links ← s.links.addBefore (.thread th) (.threadLink t)
  if s.locked then none
  else do
    let links ← links.addBefore .armed (.armedLink t)
    return { s with links := links }

def State.disarm (s : State) (t : Nat) : Option State :=
  let s := s.setTimer t { s.timers t with remaining := {}, interval := {}, callback := none }
  if s.locked then none
  else do
    let links ← unlink s.links (.armedLink t)
    let links ← unlink links (.threadLink t)
    return { s with links := links }

def State.calls : List Call → State → Option State
  | [],s => some s
  | .arm th t time callback :: cs,s => (s.arm th t time callback).bind (calls cs)
  | .disarm t :: cs,s => (s.disarm t).bind (calls cs)

variable (callbacks : Nat → List Call) (interval : TimeSpec)

def Timer.ticked (timer : Timer) : Timer :=
  if timer.fired then timer
  else
    let timer := { timer with remaining := timer.remaining - interval }
    if timer.remaining.isZero then
      if timer.interval.isZero then { timer with fired := true, triggers := timer.triggers + 1 }
      else { timer with remaining := timer.interval }
    else timer

def Timer.expires (timer : Timer) : Bool := !timer.fired && (timer.remaining - interval).isZero

def Timer.leaves (timer : Timer) : Bool := timer.expires interval && timer.interval.isZero

def State.takeOff (s : State) (t : Nat) : Option (Links Node) :=
  if (s.timers t).leaves interval then s.links.remove (.armedLink t) else some s.links

def State.tick (s : State) (t : Nat) : Option State := do
  let timer := s.timers t
  let links ← s.takeOff interval t
  let s := { s.setTimer t (timer.ticked interval) with links := links }
  match timer.callback with
  | some c => if timer.expires interval then s.calls (callbacks c) else some s
  | none => some s

structure Walk where
  state : State
  pos : Node
  next : Node

-- `LIST_FOR_EACH_SAFE` over the armed timers.
def walk (w : Walk) : Turn Walk State :=
  match w.pos with
  | .armed => .stop w.state
  | .armedLink t => match w.state.tick callbacks interval t with
    | none => .stuck
    | some s => match (s.links w.next).next with
      | none => .stuck
      | some n => .again ⟨s,w.next,n⟩
  | _ => .stuck

def State.begin (s : State) : State :=
  { s with
    monotonic := s.monotonic + interval
    realtime := s.realtime + interval
    locked := true }

def State.update (s : State) (fuel : Nat) : Option State := do
  let pos ← (s.links .armed).next
  let next ← (s.links pos).next
  let s ← run (walk callbacks interval) fuel ⟨s.begin interval,pos,next⟩
  return { s with locked := false }

def Updates (s s' : State) : Prop := ∃ fuel, s.update callbacks interval fuel = some s'

inductive Op where
  | arm (th t : Nat) (time : TimeSpec) (callback : Option Nat)
  | disarm (t : Nat)
  | setInterval (t : Nat) (interval : TimeSpec)
  | update (interval : TimeSpec)

def Op.Runs (s : State) : Op → State → Prop
  | .arm th t time callback,s' => s.arm th t time callback = some s'
  | .disarm t,s' => s.disarm t = some s'
  | .setInterval t interval,s' => s' = s.setTimer t { s.timers t with interval := interval }
  | .update interval,s' => Updates callbacks interval s s'

-- `init_time`, and threads without timers.
def initial : State where
  links
    | .armed => ⟨some .armed,some .armed⟩
    | .thread th => ⟨some (.thread th),some (.thread th)⟩
    | _ => .null
  timers _ := {}
  locked := false
  monotonic := {}
  realtime := {}

end Model

section Purpose

structure Watch where
  armed : Option Nat := none
  oneShot : Bool := false
  duration : Int := 0
  elapsed : Int := 0
  due : Bool := false
  before : Nat := 0

def Watch.pass (w : Watch) (interval : TimeSpec) : Watch :=
  if w.armed.isSome then { w with
    elapsed := w.elapsed + interval.total
    due := w.due || decide (w.duration ≤ w.elapsed + interval.total) }
  else w

def watched (s : State) (w : Nat → Watch) : Op → Nat → Watch
  | .arm th t time _ => Function.update w t
      { armed := some th
        oneShot := (s.timers t).interval.isZero
        duration := time.total
        before := (s.timers t).triggers }
  | .disarm t => Function.update w t { w t with armed := none }
  | .setInterval _ _ => w
  | .update interval => fun t => (w t).pass interval

def Watch.over (w : Watch) : Bool := w.oneShot && w.due

inductive Reached (callbacks : Nat → List Call) (P : State → (Nat → Watch) → Op → Prop) :
    State → (Nat → Watch) → Prop
  | start : Reached callbacks P initial fun _ => {}
  | step {s s' : State} {w : Nat → Watch} {op : Op} : Reached callbacks P s w → P s w op →
      op.Runs callbacks s s' → Reached callbacks P s' (watched s w op)

structure Punctual (s : State) (w : Nat → Watch) : Prop where
  triggered : ∀ t, (w t).oneShot → (s.timers t).triggers = (w t).before + if (w t).due then 1 else 0
  global : ∃ xs : List Nat, Ring s.links .armed (xs.map .armedLink) ∧
    ∀ t, t ∈ xs ↔ (w t).armed.isSome ∧ (w t).over = false
  thread : ∀ th, ∃ xs : List Nat, Ring s.links (.thread th) (xs.map .threadLink) ∧
    ∀ t, t ∈ xs ↔ (w t).armed = some th

def OnTime (timer : Timer) (w : Watch) (interval : TimeSpec) : Prop :=
  w.duration ≤ w.elapsed + interval.total ∨
    interval.total < timer.remaining.total ∧
      (timer.remaining.Borrows interval → interval.total + 1 < timer.remaining.total)

def Op.Meets (callbacks : Nat → List Call) (s : State) (w : Nat → Watch) : Op → Prop
  | .arm _ t time _ => (w t).armed = none ∧ ((s.timers t).interval.isZero → time.Normalized)
  | .disarm _ => True
  | .setInterval t _ => (w t).armed = none
  | .update interval => interval.Normalized ∧ ∀ t, (w t).armed.isSome → (w t).over = false →
      ((w t).oneShot → OnTime (s.timers t) (w t) interval) ∧
        ((s.timers t).expires interval → ∀ c, (s.timers t).callback = some c → callbacks c = [])

end Purpose

section Lists

def head : Option Nat → Node
  | none => .armed
  | some th => .thread th

def link : Option Nat → Nat → Node
  | none => .armedLink
  | some _ => .threadLink

abbrev Lists (l : Links Node) (xs : Option Nat → List Nat) : Prop :=
  Tidy l head fun i => (xs i).map (link i)

variable {l : Links Node} {xs : Option Nat → List Nat} {i j : Option Nat} {t t' : Nat}

theorem link_ne_head : link i t ≠ head j := by
  cases i with
  | none => cases j <;> nofun
  | some th => cases j <;> nofun

theorem link_inj : Function.Injective (link i) := by
  intro t t' h
  cases i with
  | none => exact Node.armedLink.inj h
  | some th => exact Node.threadLink.inj h

theorem mem_nodes : link i t ∈ (xs i).map (link i) ↔ t ∈ xs i := List.mem_map_of_injective link_inj

theorem nodes_update (ys : List Nat) : (fun j => (Function.update xs i ys j).map (link j)) =
    Function.update (fun j => (xs j).map (link j)) i (ys.map (link i)) := by
  funext j
  rcases eq_or_ne j i with rfl | hne
  · rw [Function.update_self,Function.update_self]
  · rw [Function.update_of_ne hne,Function.update_of_ne hne]

theorem Lists.nodup (h : Lists l xs) (i : Option Nat) : (xs i).Nodup :=
  (List.nodup_cons.mp (h.ring i).nodup).2.of_map _

theorem free_iff : (∀ j, link i t ∉ head j :: (xs j).map (link j)) ↔
    match i with
    | none => t ∉ xs none
    | some _ => ∀ th, t ∉ xs (some th) := by
  simp only [List.mem_cons,link_ne_head,false_or]
  cases i with
  | none =>
    constructor
    · intro hno hmem
      exact hno none (mem_nodes.mpr hmem)
    · intro hno j hmem
      cases j with
      | none => exact hno (mem_nodes.mp hmem)
      | some th =>
        obtain ⟨t',-,heq⟩ := List.mem_map.mp hmem
        cases heq
  | some th0 =>
    constructor
    · intro hno th hmem
      exact hno (some th) (List.mem_map.mpr ⟨t,hmem,rfl⟩)
    · intro hno j hmem
      cases j with
      | none =>
        obtain ⟨t',-,heq⟩ := List.mem_map.mp hmem
        cases heq
      | some th => exact hno th (mem_nodes.mp hmem)

theorem Lists.append (h : Lists l xs) (hfree : ∀ j, link i t ∉ head j :: (xs j).map (link j)) :
    ∃ l', l.addBefore (head i) (link i t) = some l' ∧ Lists l' (Function.update xs i (xs i ++ [t])) := by
  obtain ⟨l',hl,htidy⟩ := h.addBefore i hfree
  refine ⟨l',hl,?_⟩
  rw [Lists,nodes_update,List.map_append]
  exact htidy

theorem Lists.erase (h : Lists l xs) (ht : t ∈ xs i) :
    ∃ l', l.remove (link i t) = some l' ∧ Lists l' (Function.update xs i ((xs i).erase t)) := by
  obtain ⟨ys,zs,hx,herase⟩ : ∃ ys zs, xs i = ys ++ t :: zs ∧ (xs i).erase t = ys ++ zs := by
    obtain ⟨ys,zs,hnot,hx,herase⟩ := List.exists_erase_eq ht
    exact ⟨ys,zs,hx,herase⟩
  have hnodes : (xs i).map (link i) = ys.map (link i) ++ link i t :: zs.map (link i) := by
    rw [hx,List.map_append,List.map_cons]
  obtain ⟨l',hl,htidy⟩ := Tidy.remove (i := i) h hnodes
  refine ⟨l',hl,?_⟩
  rw [Lists,nodes_update,herase,List.map_append]
  exact htidy

theorem Lists.unlink_mem (h : Lists l xs) (ht : t ∈ xs i) :
    ∃ l', unlink l (link i t) = some l' ∧ Lists l' (Function.update xs i ((xs i).erase t)) := by
  obtain ⟨⟨n,hn⟩,p,hp⟩ := Tidy.linked h (i := i) (mem_nodes.mpr ht)
  rw [unlink,isInvalid,hn,hp,if_neg (by nofun)]
  exact h.erase ht

theorem Lists.unlink_free (h : Lists l xs) (hfree : ∀ j, link i t ∉ head j :: (xs j).map (link j)) :
    unlink l (link i t) = some l := by
  rw [unlink,isInvalid,h.null _ hfree]
  rfl

theorem Lists.unlink_both (h : Lists l xs) (t : Nat)
    (honce : ∀ th th', t ∈ xs (some th) → t ∈ xs (some th') → th = th') :
    ∃ l1 l2, unlink l (.armedLink t) = some l1 ∧ unlink l1 (.threadLink t) = some l2 ∧
      Lists l2 fun j => (xs j).erase t := by
  obtain ⟨l1,h1,hl1⟩ : ∃ l1, unlink l (link none t) = some l1 ∧
      Lists l1 (Function.update xs none ((xs none).erase t)) := by
    by_cases ht : t ∈ xs none
    · exact h.unlink_mem ht
    · rw [List.erase_of_not_mem ht,Function.update_eq_self]
      exact ⟨l,h.unlink_free (free_iff.mpr ht),h⟩
  by_cases ht : ∃ th, t ∈ xs (some th)
  · obtain ⟨th,ht⟩ := ht
    have hmem : t ∈ Function.update xs none ((xs none).erase t) (some th) := by
      rwa [Function.update_of_ne (by nofun)]
    obtain ⟨l2,h2,hl2⟩ := hl1.unlink_mem hmem
    refine ⟨l1,l2,h1,h2,?_⟩
    convert hl2 using 1
    funext j
    cases j with
    | none => rw [Function.update_of_ne (by nofun),Function.update_self]
    | some th' =>
      rcases eq_or_ne th' th with rfl | hne
      · rw [Function.update_self,Function.update_of_ne (by nofun)]
      · rw [Function.update_of_ne (fun heq => hne (Option.some.inj heq)),Function.update_of_ne (by nofun)]
        exact List.erase_of_not_mem fun hmem => hne (honce th' th hmem ht)
  · have hno : ∀ th, t ∉ xs (some th) := fun th hmem => ht ⟨th,hmem⟩
    refine ⟨l1,l1,h1,hl1.unlink_free (i := some 0) (free_iff.mpr ?_),?_⟩
    · intro th
      rw [Function.update_of_ne (by nofun)]
      exact hno th
    · convert hl1 using 1
      funext j
      cases j with
      | none => rw [Function.update_self]
      | some th =>
        rw [Function.update_of_ne (by nofun)]
        exact List.erase_of_not_mem (hno th)

end Lists

section Kept

structure Tracks (timer : Timer) (w : Watch) : Prop where
  interval : timer.interval.isZero = w.oneShot
  fired : timer.fired = w.over
  left : w.over = false → w.oneShot → timer.remaining.Normalized ∧
    timer.remaining.total ≤ w.duration - w.elapsed

structure Kept (s : State) (w : Nat → Watch) (xs : Option Nat → List Nat) : Prop where
  lists : Lists s.links xs
  global : ∀ t, t ∈ xs none ↔ (w t).armed.isSome ∧ (w t).over = false
  thread : ∀ th t, t ∈ xs (some th) ↔ (w t).armed = some th
  unlocked : s.locked = false
  tracks : ∀ t, (w t).armed.isSome → Tracks (s.timers t) (w t)
  triggered : ∀ t, (w t).oneShot → (s.timers t).triggers = (w t).before + if (w t).due then 1 else 0

variable {callbacks : Nat → List Call} {s : State} {w : Nat → Watch} {xs : Option Nat → List Nat}
variable {th t : Nat} {time interval : TimeSpec} {callback : Option Nat}

theorem Kept.punctual (h : Kept s w xs) : Punctual s w :=
  ⟨h.triggered,⟨xs none,h.lists.ring none,h.global⟩,
    fun th => ⟨xs (some th),h.lists.ring (some th),h.thread th⟩⟩

theorem Kept.arm (h : Kept s w xs) (hm : (Op.arm th t time callback).Meets callbacks s w) :
    ∃ s' xs', s.arm th t time callback = some s' ∧
      Kept s' (watched s w (.arm th t time callback)) xs' := by
  obtain ⟨hfree,hnormal⟩ := hm
  have hnone : t ∉ xs none := by
    rw [h.global,hfree]
    nofun
  have hno : ∀ th', t ∉ xs (some th') := by
    intro th'
    rw [h.thread,hfree]
    nofun
  obtain ⟨l1,h1,hl1⟩ := h.lists.append (i := some th) (free_iff.mpr hno)
  have hnone' : t ∉ Function.update xs (some th) (xs (some th) ++ [t]) none := by
    rwa [Function.update_of_ne (by nofun)]
  obtain ⟨l2,h2,hl2⟩ := hl1.append (i := none) (free_iff.mpr hnone')
  rw [Function.update_of_ne (by nofun)] at hl2
  have h1' : s.links.addBefore (.thread th) (.threadLink t) = some l1 := h1
  have h2' : l1.addBefore .armed (.armedLink t) = some l2 := h2
  refine ⟨{ s.setTimer t { s.timers t with
    remaining := time
    fired := false
    callback := callback.or (s.timers t).callback } with links := l2 },_,?_,⟨hl2,?_,?_,h.unlocked,?_,?_⟩⟩
  · simp only [State.arm,State.setTimer,h1',h2',h.unlocked,Option.bind_eq_bind,Option.bind_some]
    rfl
  · intro t'
    rw [Function.update_self,List.mem_append,List.mem_singleton,watched]
    rcases eq_or_ne t' t with rfl | hne
    · simp [Watch.over]
    · rw [Function.update_of_ne hne,h.global]
      simp [hne]
  · intro th' t'
    rw [Function.update_of_ne (by nofun),watched]
    rcases eq_or_ne t' t with rfl | hne
    · rw [Function.update_self]
      rcases eq_or_ne th' th with rfl | hth
      · simp
      · rw [Function.update_of_ne (fun heq => hth (Option.some.inj heq))]
        simp [hno th',hth.symm]
    · rw [Function.update_of_ne hne,← h.thread]
      rcases eq_or_ne th' th with rfl | hth
      · simp [hne]
      · rw [Function.update_of_ne (fun heq => hth (Option.some.inj heq))]
  · intro t'
    rw [watched]
    rcases eq_or_ne t' t with rfl | hne
    · intro _
      rw [Function.update_self]
      dsimp only [State.setTimer]
      rw [Function.update_self]
      refine ⟨rfl,by simp [Watch.over],fun _ hone => ⟨hnormal hone,?_⟩⟩
      simp
    · rw [Function.update_of_ne hne]
      dsimp only [State.setTimer]
      rw [Function.update_of_ne hne]
      exact h.tracks t'
  · intro t'
    rw [watched]
    rcases eq_or_ne t' t with rfl | hne
    · rw [Function.update_self]
      dsimp only [State.setTimer]
      rw [Function.update_self]
      simp
    · rw [Function.update_of_ne hne]
      dsimp only [State.setTimer]
      rw [Function.update_of_ne hne]
      exact h.triggered t'

theorem Kept.disarm (h : Kept s w xs) (t : Nat) :
    ∃ s' xs', s.disarm t = some s' ∧ Kept s' (watched s w (.disarm t)) xs' := by
  have honce : ∀ th th', t ∈ xs (some th) → t ∈ xs (some th') → th = th' := by
    intro th th' hth hth'
    rw [h.thread] at hth hth'
    exact Option.some.inj (hth.symm.trans hth')
  obtain ⟨l1,l2,h1,h2,hl2⟩ := h.lists.unlink_both t honce
  refine ⟨{ s.setTimer t { s.timers t with remaining := {}, interval := {}, callback := none } with
    links := l2 },_,?_,⟨hl2,?_,?_,h.unlocked,?_,?_⟩⟩
  · simp only [State.disarm,State.setTimer,h1,h2,h.unlocked,Option.bind_eq_bind,Option.bind_some]
    rfl
  · intro t'
    rw [(h.lists.nodup none).mem_erase_iff,watched]
    rcases eq_or_ne t' t with rfl | hne
    · simp
    · rw [Function.update_of_ne hne,h.global]
      simp [hne]
  · intro th t'
    rw [(h.lists.nodup (some th)).mem_erase_iff,watched]
    rcases eq_or_ne t' t with rfl | hne
    · simp
    · rw [Function.update_of_ne hne,h.thread]
      simp [hne]
  · intro t'
    rw [watched]
    rcases eq_or_ne t' t with rfl | hne
    · rw [Function.update_self]
      nofun
    · rw [Function.update_of_ne hne]
      dsimp only [State.setTimer]
      rw [Function.update_of_ne hne]
      exact h.tracks t'
  · intro t'
    rw [watched]
    dsimp only [State.setTimer]
    rcases eq_or_ne t' t with rfl | hne
    · rw [Function.update_self,Function.update_self]
      exact h.triggered t'
    · rw [Function.update_of_ne hne,Function.update_of_ne hne]
      exact h.triggered t'

theorem Kept.setInterval (h : Kept s w xs) (hm : (Op.setInterval t interval).Meets callbacks s w) :
    Kept (s.setTimer t { s.timers t with interval := interval }) w xs := by
  have hfree : (w t).armed = none := hm
  refine ⟨h.lists,h.global,h.thread,h.unlocked,?_,?_⟩
  · intro t' ht'
    have hne : t' ≠ t := by
      rintro rfl
      rw [hfree] at ht'
      cases ht'
    dsimp only [State.setTimer]
    rw [Function.update_of_ne hne]
    exact h.tracks t' ht'
  · intro t'
    dsimp only [State.setTimer]
    rcases eq_or_ne t' t with rfl | hne
    · rw [Function.update_self]
      exact h.triggered t'
    · rw [Function.update_of_ne hne]
      exact h.triggered t'

end Kept

section Loop

variable {callbacks : Nat → List Call} {interval : TimeSpec} {s s0 : State}
variable {xs : Option Nat → List Nat} {t : Nat} {ys zs done rest : List Nat} {l : Links Node}

def first : List Nat → Node
  | [] => .armed
  | t :: _ => .armedLink t

theorem first_cons (t : Nat) (ts : List Nat) : first (t :: ts) = .armedLink t := rfl

theorem head?_first (ts : List Nat) : (ts.map Node.armedLink ++ [Node.armed]).head? = some (first ts) := by
  cases ts with
  | nil => rfl
  | cons t ts => rfl

theorem Lists.next_first (h : Lists l xs) : (l .armed).next = some (first (xs none)) := by
  have hpath := (h.ring none).path.next_eq
  exact hpath.trans (head?_first (xs none))

theorem Lists.next_link (h : Lists l xs) (hx : xs none = ys ++ t :: zs) :
    (l (.armedLink t)).next = some (first zs) := by
  have hnodes : (xs none).map (link none) = ys.map (link none) ++ .armedLink t :: zs.map (link none) := by
    rw [hx,List.map_append,List.map_cons]
    rfl
  exact (Tidy.next_eq (i := none) h hnodes).trans (head?_first zs)

def Timer.stays (interval : TimeSpec) (timers : Nat → Timer) (t : Nat) : Bool := !(timers t).leaves interval

structure Walked (interval : TimeSpec) (s0 : State) (xs : Option Nat → List Nat) (done rest : List Nat)
    (s : State) : Prop where
  lists : Lists s.links (Function.update xs none (done.filter (Timer.stays interval s0.timers) ++ rest))
  timers : ∀ t, s.timers t = if t ∈ done then (s0.timers t).ticked interval else s0.timers t

def Quiet (callbacks : Nat → List Call) (interval : TimeSpec) (timer : Timer) : Prop :=
  timer.expires interval → ∀ c, timer.callback = some c → callbacks c = []

theorem tick_quiet (hq : Quiet callbacks interval (s.timers t))
    (hl : s.takeOff interval t = some l) :
    s.tick callbacks interval t = some { s.setTimer t ((s.timers t).ticked interval) with links := l } := by
  simp only [State.tick,hl,Option.bind_eq_bind,Option.bind_some]
  cases hc : (s.timers t).callback with
  | none => rfl
  | some c =>
    dsimp only
    split_ifs with hexp
    · rw [hq hexp c hc]
      rfl
    · rfl

theorem Walked.tick (h : Walked interval s0 xs done (t :: rest) s) (hnd : (done ++ t :: rest).Nodup)
    (hq : Quiet callbacks interval (s0.timers t)) : ∃ s', s.tick callbacks interval t = some s' ∧
      Walked interval s0 xs (done ++ [t]) rest s' ∧ s'.locked = s.locked := by
  have hnot : t ∉ done := by
    intro hmem
    exact (List.nodup_append.mp hnd).2.2 t hmem t List.mem_cons_self rfl
  have htimer : s.timers t = s0.timers t := by
    rw [h.timers,if_neg hnot]
  have htimers : ∀ t', Function.update s.timers t ((s0.timers t).ticked interval) t' =
      if t' ∈ done ++ [t] then (s0.timers t').ticked interval else s0.timers t' := by
    intro t'
    rcases eq_or_ne t' t with rfl | hne
    · rw [Function.update_self,if_pos (by simp)]
    · rw [Function.update_of_ne hne,h.timers]
      simp [hne]
  have hfilter : (done ++ [t]).filter (Timer.stays interval s0.timers) =
      done.filter (Timer.stays interval s0.timers) ++
        if (s0.timers t).leaves interval then [] else [t] := by
    rw [List.filter_append]
    cases hleaves : (s0.timers t).leaves interval with
    | true => simp [Timer.stays,hleaves]
    | false => simp [Timer.stays,hleaves]
  cases hleaves : (s0.timers t).leaves interval with
  | true =>
    have hnodup := h.lists.nodup none
    rw [Function.update_self] at hnodup
    have hself : t ∉ done.filter (Timer.stays interval s0.timers) := fun hmem =>
      hnot (List.mem_of_mem_filter hmem)
    obtain ⟨l',hl',hlists⟩ := h.lists.erase (i := none) (t := t) (by
      rw [Function.update_self]
      exact List.mem_append_right _ List.mem_cons_self)
    rw [Function.update_self,Function.update_idem,List.erase_append_right _ hself,List.erase_cons_head] at hlists
    refine ⟨_,tick_quiet (htimer.symm ▸ hq) (l := l') ?_,⟨?_,?_⟩,rfl⟩
    · rw [State.takeOff,htimer,hleaves,if_pos rfl]
      exact hl'
    · rw [hfilter,hleaves,if_pos rfl,List.append_nil]
      exact hlists
    · dsimp only [State.setTimer]
      rw [htimer]
      exact htimers
  | false =>
    refine ⟨_,tick_quiet (htimer.symm ▸ hq) (l := s.links) ?_,⟨?_,?_⟩,rfl⟩
    · rw [State.takeOff,htimer,hleaves]
      rfl
    · rw [hfilter,hleaves,if_neg nofun,List.append_assoc]
      exact h.lists
    · dsimp only [State.setTimer]
      rw [htimer]
      exact htimers

theorem walk_ends (h : Walked interval s0 xs done rest s) (hnd : (done ++ rest).Nodup)
    (hq : ∀ t ∈ rest, Quiet callbacks interval (s0.timers t)) {next : Node}
    (hnext : ∀ t ts, rest = t :: ts → next = first ts) : ∃ s',
      Lib.Ends (walk callbacks interval) ⟨s,first rest,next⟩ s' ∧
        Walked interval s0 xs (done ++ rest) [] s' ∧ s'.locked = s.locked := by
  induction rest generalizing s done next with
  | nil =>
    rw [List.append_nil]
    exact ⟨s,.stop rfl,h,rfl⟩
  | cons t ts ih =>
    obtain rfl := hnext t ts rfl
    obtain ⟨s1,h1,hw,hlock⟩ := h.tick hnd (hq t List.mem_cons_self)
    obtain ⟨n,hn,hfollow⟩ : ∃ n, (s1.links (first ts)).next = some n ∧
        ∀ t' ts', ts = t' :: ts' → n = first ts' := by
      cases ts with
      | nil => exact ⟨_,hw.lists.next_first,nofun⟩
      | cons t' ts' =>
        refine ⟨_,hw.lists.next_link (Function.update_self ..),?_⟩
        rintro _ _ ⟨rfl,rfl⟩
        rfl
    have hnd' : ((done ++ [t]) ++ ts).Nodup := by
      rwa [List.append_assoc]
    obtain ⟨s',hends,hw',hlock'⟩ := ih hw hnd' (fun t' ht' => hq t' (List.mem_cons_of_mem t ht')) hfollow
    refine ⟨s',?_,?_,hlock'.trans hlock⟩
    · refine (ends_again ?_).mpr hends
      simp only [walk,first_cons,h1,hn]
    · rwa [List.append_assoc] at hw'

end Loop

section Time

variable {interval : TimeSpec} {timer : Timer} {w : Watch}

theorem over_false_oneShot (hover : w.over = false) (hone : w.oneShot) : w.due = false := by
  simpa [Watch.over,hone] using hover

theorem zero_iff (hnormal : timer.remaining.Normalized) (hi : interval.Normalized)
    (hleft : timer.remaining.total ≤ w.duration - w.elapsed) (hon : OnTime timer w interval) :
    (timer.remaining - interval).isZero = true ↔ w.duration ≤ w.elapsed + interval.total := by
  obtain ⟨hdiff,hlost,hexact⟩ := TimeSpec.sub_spec hnormal hi
  rw [TimeSpec.isZero_iff hdiff]
  constructor
  · intro hzero
    rcases hon with hdue | ⟨hmore,hborrow⟩
    · exact hdue
    · by_cases hb : timer.remaining.Borrows interval
      · have := hlost hb
        have := hborrow hb
        omega
      · have := hexact hb
        omega
  · intro hdue
    have hb : ¬timer.remaining.Borrows interval := by
      rintro ⟨-,hseconds⟩
      have := hnormal.nanoseconds
      have := hi.carried
      simp only [TimeSpec.total,TimeSpec.perSecond] at *
      omega
    have := hexact hb
    omega

theorem Tracks.leaves_iff (h : Tracks timer w) (hover : w.over = false) (hi : interval.Normalized)
    (hon : w.oneShot → OnTime timer w interval) (harmed : w.armed.isSome) :
    timer.leaves interval = (w.pass interval).over := by
  have hfired : timer.fired = false := h.fired.trans hover
  rw [Timer.leaves,Timer.expires,hfired,h.interval,Watch.pass,if_pos harmed,Watch.over]
  cases hone : w.oneShot with
  | false => simp
  | true =>
    obtain ⟨hnormal,hleft⟩ := h.left hover hone
    have hzero := zero_iff hnormal hi hleft (hon hone)
    have hsame : (timer.remaining - interval).isZero =
        decide (w.duration ≤ w.elapsed + interval.total) := by
      rw [Bool.eq_iff_iff,hzero,decide_eq_true_iff]
    rw [over_false_oneShot hover hone,hsame]
    simp

theorem ticked_interval : (timer.ticked interval).interval = timer.interval := by
  rw [Timer.ticked]
  dsimp only
  split_ifs <;> rfl

theorem ticked_fired (hfired : timer.fired = false) :
    (timer.ticked interval).fired = timer.leaves interval ∧ (timer.ticked interval).triggers =
      timer.triggers + if timer.leaves interval then 1 else 0 := by
  rw [Timer.ticked,Timer.leaves,Timer.expires,hfired,if_neg nofun]
  dsimp only
  cases hzero : (timer.remaining - interval).isZero with
  | false => simp
  | true =>
    cases timer.interval.isZero with
    | false => simp
    | true => simp

theorem ticked_remaining (hfired : timer.fired = false) (hint : timer.interval.isZero)
    (hstay : timer.leaves interval = false) :
    (timer.ticked interval).remaining = timer.remaining - interval := by
  have hzero : (timer.remaining - interval).isZero = false := by
    simpa [Timer.leaves,Timer.expires,hfired,hint] using hstay
  rw [Timer.ticked,hfired,if_neg nofun]
  dsimp only
  rw [hzero,if_neg nofun]

theorem remaining_le (hnormal : timer.remaining.Normalized) (hi : interval.Normalized)
    (hleft : timer.remaining.total ≤ w.duration - w.elapsed)
    (hmore : w.elapsed + interval.total < w.duration) : (timer.remaining - interval).Normalized ∧
      (timer.remaining - interval).total ≤ w.duration - (w.elapsed + interval.total) := by
  obtain ⟨hdiff,hlost,hexact⟩ := TimeSpec.sub_spec hnormal hi
  refine ⟨hdiff,?_⟩
  by_cases hb : timer.remaining.Borrows interval
  · have := hlost hb
    omega
  · have := hexact hb
    omega

theorem pass_armed : (w.pass interval).armed = w.armed := by
  rw [Watch.pass]
  split_ifs <;> rfl

theorem pass_oneShot : (w.pass interval).oneShot = w.oneShot := by
  rw [Watch.pass]
  split_ifs <;> rfl

theorem pass_before : (w.pass interval).before = w.before := by
  rw [Watch.pass]
  split_ifs <;> rfl

theorem over_pass (hover : w.over = true) : (w.pass interval).over = true := by
  simp only [Watch.over,Bool.and_eq_true] at hover ⊢
  rw [pass_oneShot,Watch.pass]
  split_ifs
  · simp [hover]
  · exact hover

end Time

section Update

variable {callbacks : Nat → List Call} {s : State} {w : Nat → Watch} {xs : Option Nat → List Nat}
variable {interval : TimeSpec}

theorem Tracks.pass {timer : Timer} {w : Watch} (h : Tracks timer w) (hover : w.over = false)
    (harmed : w.armed.isSome) (hi : interval.Normalized) (hon : w.oneShot → OnTime timer w interval) :
    Tracks (timer.ticked interval) (w.pass interval) := by
  have hfired : timer.fired = false := h.fired.trans hover
  have hleaves := h.leaves_iff hover hi hon harmed
  refine ⟨?_,?_,?_⟩
  · rw [ticked_interval,pass_oneShot]
    exact h.interval
  · rw [(ticked_fired hfired).1,hleaves]
  · intro hover' hone
    rw [pass_oneShot] at hone
    rw [ticked_remaining hfired (h.interval.trans hone) (hleaves.trans hover')]
    obtain ⟨hnormal,hleft⟩ := h.left hover hone
    rw [Watch.pass,if_pos harmed] at hover' ⊢
    have hmore : w.elapsed + interval.total < w.duration := by
      simpa [Watch.over,hone,over_false_oneShot hover hone] using hover'
    exact remaining_le hnormal hi hleft hmore

theorem updates_of_ends {s' : State} {pos next : Node} (hpos : (s.links .armed).next = some pos)
    (hnext : (s.links pos).next = some next)
    (hends : Lib.Ends (walk callbacks interval) ⟨s.begin interval,pos,next⟩ s') :
    Updates callbacks interval s { s' with locked := false } := by
  obtain ⟨fuel,hrun⟩ := hends
  refine ⟨fuel,?_⟩
  simp only [State.update,hpos,hnext,hrun,Option.bind_eq_bind,Option.bind_some]
  rfl

theorem updates_unique {s1 s2 : State} (h1 : Updates callbacks interval s s1)
    (h2 : Updates callbacks interval s s2) : s1 = s2 := by
  obtain ⟨n,hn⟩ := h1
  obtain ⟨m,hm⟩ := h2
  obtain ⟨pos,hpos,hn⟩ := Option.bind_eq_some_iff.mp hn
  obtain ⟨next,hnext,hn⟩ := Option.bind_eq_some_iff.mp hn
  obtain ⟨u1,hu1,hn⟩ := Option.bind_eq_some_iff.mp hn
  simp only [State.update,hpos,hnext,Option.bind_eq_bind,Option.bind_some] at hm
  obtain ⟨u2,hu2,hm⟩ := Option.bind_eq_some_iff.mp hm
  obtain rfl : u1 = u2 := Lib.Ends.unique ⟨n,hu1⟩ ⟨m,hu2⟩
  exact Option.some.inj (hn.symm.trans hm)

theorem Kept.update (h : Kept s w xs) (hm : (Op.update interval).Meets callbacks s w) :
    ∃ s' xs', Updates callbacks interval s s' ∧ Kept s' (watched s w (.update interval)) xs' := by
  obtain ⟨hi,hall⟩ := hm
  have hmem : ∀ t, t ∈ xs none → (w t).armed.isSome ∧ (w t).over = false := fun t => (h.global t).mp
  have hstart : Walked interval (s.begin interval) xs [] (xs none) (s.begin interval) := by
    refine ⟨?_,fun t => ?_⟩
    · rw [List.filter_nil,List.nil_append,Function.update_eq_self]
      exact h.lists
    · rw [if_neg List.not_mem_nil]
  have hquiet : ∀ t ∈ xs none, Quiet callbacks interval ((s.begin interval).timers t) := fun t ht =>
    (hall t (hmem t ht).1 (hmem t ht).2).2
  obtain ⟨next,hnext,hfollow⟩ : ∃ next, (s.links (first (xs none))).next = some next ∧
      ∀ t ts, xs none = t :: ts → next = first ts := by
    cases hx : xs none with
    | nil => exact ⟨_,h.lists.next_first,nofun⟩
    | cons t ts =>
      have hx' : xs none = [] ++ t :: ts := hx
      refine ⟨_,h.lists.next_link hx',?_⟩
      rintro _ _ ⟨rfl,rfl⟩
      rfl
  obtain ⟨s',hends,hw,-⟩ := walk_ends hstart (h.lists.nodup none) hquiet hfollow
  rw [List.nil_append] at hw
  have htimers : ∀ t, s'.timers t = if t ∈ xs none then (s.timers t).ticked interval else s.timers t :=
    hw.timers
  have hlists := hw.lists
  rw [List.append_nil] at hlists
  refine ⟨{ s' with locked := false },_,updates_of_ends h.lists.next_first hnext hends,hlists,?_,?_,rfl,?_,?_⟩
  · intro t
    rw [Function.update_self,List.mem_filter,watched,pass_armed]
    by_cases ht : t ∈ xs none
    · obtain ⟨harmed,hover⟩ := hmem t ht
      have hleaves := (h.tracks t harmed).leaves_iff hover hi (hall t harmed hover).1 harmed
      have hstays : Timer.stays interval (s.begin interval).timers t = !(s.timers t).leaves interval := rfl
      rw [hstays,hleaves]
      simp [ht,harmed]
    · refine iff_of_false (fun hc => ht hc.1) ?_
      rintro ⟨harmed,hover⟩
      rw [h.global] at ht
      have hover0 : (w t).over = true := by
        simpa [harmed] using ht
      rw [over_pass hover0] at hover
      cases hover
  · intro th t
    rw [Function.update_of_ne (by nofun),h.thread,watched,pass_armed]
  · intro t harmed
    rw [watched,pass_armed] at harmed
    rw [watched]
    dsimp only
    rw [htimers]
    cases hover : (w t).over with
    | true =>
      have hnot : t ∉ xs none := by
        rw [h.global,hover]
        nofun
      have htracks := h.tracks t harmed
      rw [if_neg hnot]
      refine ⟨?_,?_,?_⟩
      · rw [pass_oneShot]
        exact htracks.interval
      · rw [over_pass hover]
        exact htracks.fired.trans hover
      · rw [over_pass hover]
        nofun
    | false =>
      rw [if_pos ((h.global t).mpr ⟨harmed,hover⟩)]
      exact (h.tracks t harmed).pass hover harmed hi (hall t harmed hover).1
  · intro t hone
    rw [watched,pass_oneShot] at hone
    rw [watched,pass_before]
    dsimp only
    rw [htimers]
    by_cases ht : t ∈ xs none
    · obtain ⟨harmed,hover⟩ := hmem t ht
      have htracks := h.tracks t harmed
      have hleaves := htracks.leaves_iff hover hi (hall t harmed hover).1 harmed
      have hdue : ((w t).pass interval).due = ((w t).pass interval).over := by
        rw [Watch.over,pass_oneShot,hone,Bool.true_and]
      rw [if_pos ht,(ticked_fired (htracks.fired.trans hover)).2,h.triggered t hone,
        over_false_oneShot hover hone,hleaves,hdue]
      simp
    · rw [if_neg ht,h.triggered t hone]
      have hsame : ((w t).pass interval).due = (w t).due := by
        rw [Watch.pass]
        split_ifs with harmed
        · rw [h.global] at ht
          have hover : (w t).over = true := by
            simpa [harmed] using ht
          have hdue : (w t).due = true := (Bool.and_eq_true _ _ ▸ hover).2
          simp [hdue]
        · rfl
      rw [hsame]

end Update

section Main

variable {callbacks : Nat → List Call} {s s' : State} {w : Nat → Watch} {xs : Option Nat → List Nat}
variable {op : Op}

theorem runs_unique {s1 s2 : State} (h1 : op.Runs callbacks s s1) (h2 : op.Runs callbacks s s2) :
    s1 = s2 := by
  cases op with
  | arm th t time callback => exact Option.some.inj (h1.symm.trans h2)
  | disarm t => exact Option.some.inj (h1.symm.trans h2)
  | setInterval t interval => exact h1.trans h2.symm
  | update interval => exact updates_unique h1 h2

theorem Kept.runs (h : Kept s w xs) (hm : op.Meets callbacks s w) :
    ∃ s' xs', op.Runs callbacks s s' ∧ Kept s' (watched s w op) xs' := by
  cases op with
  | arm th t time callback => exact h.arm hm
  | disarm t => exact h.disarm t
  | setInterval t interval => exact ⟨_,xs,rfl,h.setInterval hm⟩
  | update interval => exact h.update hm

theorem kept_initial : Kept initial (fun _ => {}) fun _ => [] := by
  refine ⟨⟨⟨?_,?_,?_,?_⟩,?_⟩,?_,?_,rfl,?_,?_⟩
  · intro i
    cases i with
    | none => exact ⟨⟨rfl,rfl⟩,List.nodup_singleton _⟩
    | some th => exact ⟨⟨rfl,rfl⟩,List.nodup_singleton _⟩
  · intro i j hij
    cases i with
    | none =>
      cases j with
      | none => rfl
      | some th' => cases hij
    | some th =>
      cases j with
      | none => cases hij
      | some th' => exact congrArg some (Node.thread.inj hij)
  · nofun
  · nofun
  · intro a ha
    cases a with
    | armed => exact absurd List.mem_cons_self (ha none)
    | thread th => exact absurd List.mem_cons_self (ha (some th))
    | armedLink t => rfl
    | threadLink t => rfl
  · simp
  · simp
  · nofun
  · nofun

theorem timers_punctual
    (h : Reached callbacks (fun s w op => op.Meets callbacks s w) s w) :
    Punctual s w ∧ ∀ op : Op, op.Meets callbacks s w → ∃ s', op.Runs callbacks s s' := by
  have hkept : ∃ xs, Kept s w xs := by
    induction h with
    | start => exact ⟨_,kept_initial⟩
    | step _ hm hruns ih =>
      obtain ⟨xs,hk⟩ := ih
      obtain ⟨s1,xs',hruns',hk'⟩ := hk.runs hm
      obtain rfl := runs_unique hruns' hruns
      exact ⟨xs',hk'⟩
  obtain ⟨xs,hk⟩ := hkept
  refine ⟨hk.punctual,fun op hm => ?_⟩
  obtain ⟨s',-,hruns,-⟩ := hk.runs hm
  exact ⟨s',hruns⟩

def firedRun : Option State :=
  (initial.arm 0 0 ⟨1,0⟩ none).bind fun s => (s.update (fun _ => []) ⟨0,400000000⟩ 2).bind fun s =>
    s.update (fun _ => []) ⟨0,600000000⟩ 2

theorem timers_punctual_fired : ∃ s w, (w 0).armed = some 0 ∧ (w 0).duration = 1000000000 ∧
    (w 0).elapsed = 1000000000 ∧ (s.timers 0).triggers = 1 ∧ Punctual s w := by
  have htriggers : firedRun.map (fun s => (s.timers 0).triggers) = some 1 := by decide +kernel
  have harmed : (initial.arm 0 0 ⟨1,0⟩ none).map (fun s => s.timers 0) =
      some { remaining := ⟨1,0⟩ } := by decide +kernel
  have hpassed : ((initial.arm 0 0 ⟨1,0⟩ none).bind fun s => s.update (fun _ => []) ⟨0,400000000⟩ 2).map
      (fun s => s.timers 0) = some { remaining := ⟨0,599999999⟩ } := by decide +kernel
  obtain ⟨s,hs,htrig⟩ := Option.map_eq_some_iff.mp htriggers
  obtain ⟨s1,h1,hs⟩ := Option.bind_eq_some_iff.mp hs
  obtain ⟨s2,h2,h3⟩ := Option.bind_eq_some_iff.mp hs
  rw [h1,Option.map_some,Option.some_inj] at harmed
  rw [h1,Option.bind_some,h2,Option.map_some,Option.some_inj] at hpassed
  have hmeets : (Op.arm 0 0 ⟨1,0⟩ none).Meets (fun _ => []) initial fun _ => {} :=
    ⟨rfl,fun _ => ⟨by decide,by decide,by decide⟩⟩
  have hfirst : (Op.update ⟨0,400000000⟩).Meets (fun _ => []) s1
      (watched initial (fun _ => {}) (.arm 0 0 ⟨1,0⟩ none)) := by
    refine ⟨⟨by decide,by decide,by decide⟩,fun t ht _ => ?_⟩
    by_cases h0 : t = 0
    · subst h0
      rw [harmed]
      exact ⟨fun _ => .inr ⟨by decide,fun _ => by decide⟩,fun _ c hc => by cases hc⟩
    · rw [watched,Function.update_of_ne h0] at ht
      cases ht
  have hsecond : (Op.update ⟨0,600000000⟩).Meets (fun _ => []) s2
      (watched s1 (watched initial (fun _ => {}) (.arm 0 0 ⟨1,0⟩ none)) (.update ⟨0,400000000⟩)) := by
    refine ⟨⟨by decide,by decide,by decide⟩,fun t ht _ => ?_⟩
    by_cases h0 : t = 0
    · subst h0
      rw [hpassed]
      exact ⟨fun _ => .inl le_rfl,fun _ c hc => by cases hc⟩
    · simp only [watched,Function.update_of_ne h0] at ht
      cases ht
  have hreached := ((Reached.start.step hmeets h1).step hfirst ⟨2,h2⟩).step hsecond ⟨2,h3⟩
  exact ⟨s,_,rfl,rfl,rfl,htrig,(timers_punctual hreached).1⟩

def earlyRun : Option State :=
  (initial.arm 0 0 ⟨1,1⟩ none).bind fun s => (s.update (fun _ => []) ⟨0,1000⟩ 2).bind fun s =>
    s.update (fun _ => []) ⟨0,999999000⟩ 2

theorem timer_early : ∃ s w, Reached (fun _ => []) (fun _ _ _ => True) s w ∧
    (w 0).duration = 1000000001 ∧ (w 0).elapsed = 1000000000 ∧ ¬Punctual s w := by
  have htriggers : earlyRun.map (fun s => (s.timers 0).triggers) = some 1 := by decide +kernel
  obtain ⟨s,hs,htrig⟩ := Option.map_eq_some_iff.mp htriggers
  obtain ⟨s1,h1,hs⟩ := Option.bind_eq_some_iff.mp hs
  obtain ⟨s2,h2,h3⟩ := Option.bind_eq_some_iff.mp hs
  have harm : (Op.arm 0 0 ⟨1,1⟩ none).Runs (fun _ => []) initial s1 := h1
  have hfirst : (Op.update ⟨0,1000⟩).Runs (fun _ => []) s1 s2 := ⟨2,h2⟩
  have hsecond : (Op.update ⟨0,999999000⟩).Runs (fun _ => []) s2 s := ⟨2,h3⟩
  refine ⟨s,_,((Reached.start.step trivial harm).step trivial hfirst).step trivial hsecond,rfl,rfl,?_⟩
  intro hp
  have hcount := hp.triggered 0 rfl
  rw [htrig] at hcount
  change 1 = 0 + (if false = true then 1 else 0) at hcount
  cases hcount

end Main

end SabaOS.Sched.Timers
