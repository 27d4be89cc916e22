import SabaOS.Lib.LittleEndian
import SabaOS.Lib.Tracking
import SabaOS.Userland.Epoll
import SabaOS.Userland.EpollSlots

namespace SabaOS.Userland.Epoll

open SabaOS.Klib SabaOS.Lib

-- `poll` is what the descriptions answer now. `pending` holds, for each slot, the conditions that have
-- become true, or were true at an `EPOLL_CTL_MOD`, since the slot last reported them.
structure Watch (D E : Type) where
  epoll : EPoll D E
  poll : D → UInt32 → UInt32
  pending : Nat → UInt32

inductive WatchStep (D : Type) where
  | change (poll : D → UInt32 → UInt32)
  | ctl (op : Int) (key : UInt64) (target : D) (userEvent : EpollEvent)
  | wait (maxevents : Int)

namespace Watch

variable {D E : Type}

def start (poll : D → UInt32 → UInt32) : Watch D E := ⟨EPoll.new,poll,fun _ => 0⟩

def conditions (w : Watch D E) (i : Nat) : UInt32 := (w.epoll.slot i).conditions w.poll

def reported (w : Watch D E) (maxevents i : Nat) : UInt32 :=
  if rank w.poll w.epoll.events i < maxevents then ((w.epoll.slot i).report w.poll).elim 0 (·.events) else 0

def afterCtl (w : Watch D E) (epoll : EPoll D E) (op : Int) (key : UInt64) (i : Nat) : UInt32 :=
  let index := if op = epollCtlDel then w.epoll.keyToEventsIndex.get key else epoll.keyToEventsIndex.get key
  if index ≠ some i then w.pending i
  else if op = epollCtlMod then w.pending i ||| (epoll.slot i).conditions w.poll
  else 0

def next (event : D → Option E) (w : Watch D E) : WatchStep D → Watch D E
  | .change poll =>
    { w with
      poll := poll
      pending := fun i => w.pending i ||| ((w.epoll.slot i).conditions poll &&& ~~~w.conditions i) }
  | .ctl op key target userEvent =>
    let (epoll,ret) := w.epoll.ctl op key target (event target) userEvent
    { w with epoll := epoll, pending := if ret ≠ 0 then w.pending else w.afterCtl epoll op key }
  | .wait maxevents =>
    if maxevents ≤ 0 then w
    else
      let events := (pass w.poll maxevents.toNat 0 w.epoll.events).events
      { w with
        epoll := { w.epoll with events := events }
        pending := fun i => w.pending i &&& ~~~w.reported maxevents.toNat i }

def Steps (event : D → Option E) (w : Watch D E) (step : WatchStep D) (w' : Watch D E) : Prop :=
  w.next event step = w'

structure Reports (w : Watch D E) : Prop where
  edge : ∀ i ∈ w.epoll.occupied, (w.epoll.slot i).edgeTriggered →
    ∀ maxevents, rank w.poll w.epoll.events i < maxevents →
    ∀ b, Has (w.pending i) b → Has (w.conditions i) b →
    ∃ r, (w.epoll.slot i).report w.poll = some r ∧
      (pass w.poll maxevents 0 w.epoll.events).reports[rank w.poll w.epoll.events i]? = some r ∧
      Has r.events b
  level : ∀ i ∈ w.epoll.occupied, ¬(w.epoll.slot i).edgeTriggered →
    ∀ maxevents, rank w.poll w.epoll.events i < maxevents → w.conditions i ≠ 0 →
    (pass w.poll maxevents 0 w.epoll.events).reports[rank w.poll w.epoll.events i]? =
      some ⟨w.conditions i,(w.epoll.slot i).userEvents.data⟩

def Good (_ : Watch D E) (_ : WatchStep D) (w' : Watch D E) : Prop := w'.Reports

def Safe (w : Watch D E) (step : WatchStep D) (_ : Watch D E) : Prop :=
  match step with
  | .change poll => ∀ i ∈ w.epoll.occupied, (w.epoll.slot i).edgeTriggered →
      ∀ b, Has ((w.epoll.slot i).conditions poll) b → ¬Has (w.conditions i) b →
      ¬Has (w.epoll.slot i).oldRevents b
  | .ctl op key _ userEvent => op = epollCtlMod → ∀ i, w.epoll.keyToEventsIndex.get key = some i →
      let registered := (w.epoll.slot i).setUser userEvent
      registered.edgeTriggered → ∀ b, Has (registered.conditions w.poll) b → ¬Has registered.oldRevents b
  | .wait _ => True

def Unseen (w : Watch D E) : Prop :=
  ∀ i ∈ w.epoll.occupied, (w.epoll.slot i).edgeTriggered →
    ∀ b, Has (w.pending i) b → Has (w.conditions i) b → ¬Has (w.epoll.slot i).oldRevents b

structure Inv (event : D → Option E) (w : Watch D E) : Prop where
  sane : w.epoll.Sane event
  unseen : w.Unseen

theorem afterCtl_eq {w : Watch D E} {epoll : EPoll D E} {op : Int} {key : UInt64} {j : Nat}
    (hindex : (if op = epollCtlDel then w.epoll.keyToEventsIndex.get key
      else epoll.keyToEventsIndex.get key) = some j) (i : Nat) :
    w.afterCtl epoll op key i = if j = i then
      (if op = epollCtlMod then w.pending i ||| (epoll.slot i).conditions w.poll else 0)
      else w.pending i := by
  rw [afterCtl,hindex]
  rcases eq_or_ne j i with rfl | hij
  · rw [if_neg (not_not_intro rfl),if_pos rfl]
  · rw [if_pos (by simpa using hij),if_neg hij]

section Reports

variable {w : Watch D E} {i : Nat}

theorem lt_length (hi : i ∈ w.epoll.occupied) : i < w.epoll.events.length := EPoll.lt_of_occupied hi

theorem report_of_ne_zero (hi : i ∈ w.epoll.occupied)
    (hne : (w.epoll.slot i).revents (w.conditions i) ≠ 0) : (w.epoll.slot i).report w.poll =
      some ⟨(w.epoll.slot i).revents (w.conditions i),(w.epoll.slot i).userEvents.data⟩ := by
  have hsome : (w.epoll.slot i).description.isSome := hi
  rw [RegisteredEvent.report]
  refine if_neg (not_or.mpr ⟨?_,hne⟩)
  rwa [Bool.not_eq_true,Option.isNone_eq_false_iff]

theorem edge_revents (he : (w.epoll.slot i).edgeTriggered) (x : UInt32) :
    (w.epoll.slot i).revents x = x &&& ~~~(w.epoll.slot i).oldRevents := if_pos he

theorem reports_iff_unseen : w.Reports ↔ w.Unseen := by
  constructor
  · intro h i hi he b hpending hcond hold
    obtain ⟨r,hr,-,hb⟩ := h.edge i hi he _ (Nat.lt_succ_self _) b hpending hcond
    obtain ⟨-,-,rfl⟩ := report_eq_some hr
    change Has ((w.epoll.slot i).revents (w.conditions i)) b at hb
    rw [edge_revents he,has_and_not] at hb
    exact hb.2 hold
  · intro h
    refine ⟨?_,?_⟩
    · intro i hi he maxevents hrank b hpending hcond
      have hb : Has ((w.epoll.slot i).revents (w.conditions i)) b := by
        rw [edge_revents he,has_and_not]
        exact ⟨hcond,h i hi he b hpending hcond⟩
      have hrep := report_of_ne_zero hi (ne_zero_of_has hb)
      exact ⟨_,hrep,pass_reported (lt_length hi) hrank hrep,hb⟩
    · intro i hi he maxevents hrank hne
      have hrev : (w.epoll.slot i).revents (w.conditions i) = w.conditions i := if_neg he
      have hrep := report_of_ne_zero hi (hrev.symm ▸ hne)
      rw [hrev] at hrep
      exact pass_reported (lt_length hi) hrank hrep

end Reports

section Steps

variable {event : D → Option E} {w w' : Watch D E} {step : WatchStep D}

theorem start_inv (poll : D → UInt32 → UInt32) : (start poll : Watch D E).Inv event :=
  ⟨EPoll.new_sane event,nofun⟩

theorem change_iff (hi : w.Inv event) (poll : D → UInt32 → UInt32) :
    (w.next event (.change poll)).Unseen ↔ w.Safe (.change poll) w' := by
  constructor
  · intro h i hocc he b hnew hold
    refine h i hocc he b ?_ hnew
    exact has_or.mpr (.inr (has_and_not.mpr ⟨hnew,hold⟩))
  · intro hsafe i hocc he b hpending hnew
    rcases has_or.mp hpending with hb | hb
    · by_cases hcond : Has (w.conditions i) b
      · exact hi.unseen i hocc he b hb hcond
      · exact hsafe i hocc he b hnew hcond
    · obtain ⟨-,hcond⟩ := has_and_not.mp hb
      exact hsafe i hocc he b hnew hcond

theorem wait_inv (hi : w.Inv event) (maxevents : Int) : (w.next event (.wait maxevents)).Inv event := by
  rw [next]
  split_ifs with hmax
  · exact hi
  have hroom : 0 < maxevents.toNat := by omega
  have hslot : ∀ i, (pass w.poll maxevents.toNat 0 w.epoll.events).events.getD i .empty =
      if rank w.poll w.epoll.events i < maxevents.toNat then (w.epoll.slot i).sample w.poll
      else w.epoll.slot i := by
    intro i
    have h := pass_slot w.poll hroom w.epoll.events i
    rwa [Nat.zero_add] at h
  have hdesc : ∀ i, ((pass w.poll maxevents.toNat 0 w.epoll.events).events.getD i .empty).description =
      (w.epoll.slot i).description := by
    intro i
    rw [hslot]
    split_ifs
    · exact RegisteredEvent.sample_description _
    · rfl
  refine ⟨hi.sane.resample (pass_length _) hdesc,?_⟩
  intro i hocc he b hpending hcond hold
  have hocc : i ∈ w.epoll.occupied := EPoll.occupied_resample hdesc ▸ hocc
  have hsome : ¬(w.epoll.slot i).description.isNone = true := by
    rw [Bool.not_eq_true,Option.isNone_eq_false_iff]
    exact hocc
  simp only [EPoll.slot,conditions] at he hcond hold
  rw [hslot] at he hcond hold
  obtain ⟨hpending,hnot⟩ := has_and_not.mp hpending
  rw [reported] at hnot
  by_cases hrank : rank w.poll w.epoll.events i < maxevents.toNat
  · rw [if_pos hrank,RegisteredEvent.sample,if_neg hsome] at he hcond hold
    rw [if_pos hrank] at hnot
    have hb : Has ((w.epoll.slot i).revents (w.conditions i)) b := by
      rw [edge_revents he,has_and_not]
      exact ⟨hcond,hi.unseen i hocc he b hpending hcond⟩
    rw [report_of_ne_zero hocc (ne_zero_of_has hb)] at hnot
    exact hnot hb
  · rw [if_neg hrank] at he hcond hold
    exact hi.unseen i hocc he b hpending hcond hold

theorem ctl_iff (hi : w.Inv event) {op : Int} {key : UInt64} {target : D} {userEvent : EpollEvent} :
    (w.next event (.ctl op key target userEvent)).Unseen ↔ w.Safe (.ctl op key target userEvent) w' := by
  obtain ⟨-,hstep⟩ := hi.sane.ctl op key target userEvent
  rw [next]
  rcases hctl : w.epoll.ctl op key target (event target) userEvent with ⟨epoll,ret⟩
  rw [hctl] at hstep
  dsimp only at hstep ⊢
  have hkept : ∀ i, epoll.slot i = w.epoll.slot i → i ∈ epoll.occupied → (epoll.slot i).edgeTriggered →
      ∀ b, Has (w.pending i) b → Has ((epoll.slot i).conditions w.poll) b →
      ¬Has (epoll.slot i).oldRevents b := by
    intro i hsame hocc he b hpending hcond
    rw [hsame] at he hcond ⊢
    rw [EPoll.occupied,Set.mem_ofPred_eq,hsame] at hocc
    exact hi.unseen i hocc he b hpending hcond
  have hsafe : op ≠ epollCtlMod → w.Safe (.ctl op key target userEvent) w' := fun hne hop => absurd hop hne
  cases hstep with
  | refused hret hnone hsame =>
    subst hsame
    rw [if_pos hret]
    refine iff_of_true hi.unseen ?_
    intro hop i hget
    cases (hnone hop).symm.trans hget
  | added j hop hret hget hj hslot hget' =>
    refine iff_of_true ?_ (hsafe (by rw [hop]; decide))
    intro i hocc he b hpending hcond
    have hindex : (if op = epollCtlDel then w.epoll.keyToEventsIndex.get key
        else epoll.keyToEventsIndex.get key) = some j := by
      rw [hop,if_neg (by decide),hget',if_pos rfl]
    dsimp only at hpending
    rw [if_neg (not_not_intro hret),afterCtl_eq hindex] at hpending
    rcases eq_or_ne j i with rfl | hij
    · rw [if_pos rfl,if_neg (by rw [hop]; decide)] at hpending
      exact absurd hpending not_has_zero
    · rw [if_neg hij] at hpending
      exact hkept i ((hslot i).trans (if_neg hij.symm)) hocc he b hpending hcond
  | deleted j hop hret hget hslot hget' =>
    refine iff_of_true ?_ (hsafe (by rw [hop]; decide))
    intro i hocc he b hpending hcond
    have hindex : (if op = epollCtlDel then w.epoll.keyToEventsIndex.get key
        else epoll.keyToEventsIndex.get key) = some j := by
      rw [if_pos hop,hget]
    dsimp only at hpending
    rw [if_neg (not_not_intro hret),afterCtl_eq hindex] at hpending
    rcases eq_or_ne j i with rfl | hij
    · rw [if_pos rfl,if_neg (by rw [hop]; decide)] at hpending
      exact absurd hpending not_has_zero
    · rw [if_neg hij] at hpending
      exact hkept i ((hslot i).trans (if_neg hij.symm)) hocc he b hpending hcond
  | modified j hop hret hget hslot hkeys =>
    have hself : epoll.slot j = (w.epoll.slot j).setUser userEvent := (hslot j).trans (if_pos rfl)
    have hindex : (if op = epollCtlDel then w.epoll.keyToEventsIndex.get key
        else epoll.keyToEventsIndex.get key) = some j := by
      rw [hop,if_neg (by decide),hkeys,hget]
    have hpend : ∀ i, (if ret ≠ 0 then w.pending else w.afterCtl epoll op key) i =
        if j = i then w.pending i ||| (epoll.slot i).conditions w.poll else w.pending i := by
      intro i
      rw [if_neg (not_not_intro hret),afterCtl_eq hindex,if_pos hop]
    constructor
    · intro h _ i hi'
      obtain rfl := Option.some.inj (hget.symm.trans hi')
      dsimp only
      rw [← hself]
      intro he b hcond
      have hocc : j ∈ epoll.occupied := by
        rw [EPoll.occupied,Set.mem_ofPred_eq,hself]
        exact hi.sane.occupied key j hget
      refine h j hocc he b ?_ hcond
      dsimp only
      rw [hpend,if_pos rfl]
      exact has_or.mpr (.inr hcond)
    · intro hmod i hocc he b hpending hcond
      dsimp only at hpending
      rw [hpend] at hpending
      rcases eq_or_ne j i with rfl | hij
      · have hgood := hmod hop j hget
        dsimp only at hgood
        rw [← hself] at hgood
        exact hgood he b hcond
      · rw [if_neg hij] at hpending
        exact hkept i ((hslot i).trans (if_neg hij.symm)) hocc he b hpending hcond

theorem good_iff_safe (hi : w.Inv event) (hstep : Steps event w step w') :
    Good w step w' ↔ Safe w step w' := by
  obtain rfl := hstep
  rw [Good,reports_iff_unseen]
  cases step with
  | change poll => exact change_iff hi poll
  | ctl op key target userEvent => exact ctl_iff hi
  | wait maxevents => exact iff_of_true (wait_inv hi maxevents).unseen trivial

theorem inv_of_good (hi : w.Inv event) (hstep : Steps event w step w') (hgood : Good w step w') :
    w'.Inv event := by
  refine ⟨?_,reports_iff_unseen.mp hgood⟩
  obtain rfl := hstep
  cases step with
  | change poll => exact hi.sane
  | ctl op key target userEvent => exact (hi.sane.ctl op key target userEvent).1
  | wait maxevents => exact (wait_inv hi maxevents).sane

end Steps

end Watch

theorem edges_run {D E : Type} (event : D → Option E) (poll : D → UInt32 → UInt32)
    (steps : List (WatchStep D)) :
    (Watch.start poll : Watch D E).Reports ∧
    (Along (Watch.Steps event) Watch.Good (.start poll) steps ↔
      Along (Watch.Steps event) Watch.Safe (.start poll) steps) := by
  have hstart : Watch.Inv event (.start poll) := Watch.start_inv poll
  exact ⟨Watch.reports_iff_unseen.mpr hstart.unseen,
    Along.iff_safe Watch.good_iff_safe Watch.inv_of_good hstart⟩

def pollIn : UInt32 := 1

def refilled : List (WatchStep Unit) :=
  [.ctl epollCtlAdd 7 () ⟨pollIn ||| epollEt,7⟩,.wait 1,.change fun _ _ => 0,.change fun _ _ => pollIn]

theorem refilled_missed : ¬Along (Watch.Steps fun _ : Unit => some ()) Watch.Good
    (.start fun _ _ => pollIn) refilled := by
  intro h
  obtain ⟨-,h⟩ := h _ rfl
  obtain ⟨-,h⟩ := h _ rfl
  obtain ⟨-,h⟩ := h _ rfl
  obtain ⟨hgood,-⟩ := h _ rfl
  obtain ⟨r,-,hr,-⟩ := hgood.edge 0 rfl (by decide) 1 (by decide) 0 (by decide) (by decide)
  exact absurd (Option.isSome_of_eq_some hr) (by decide)

end SabaOS.Userland.Epoll
