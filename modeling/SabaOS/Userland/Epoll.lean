import Mathlib.Data.List.GetD
import SabaOS.Klib.HashTable

namespace SabaOS.Userland

open SabaOS.Klib

namespace Epoll

def einval : Int := 22

def eexist : Int := 17

def enoent : Int := 2

def epollCtlAdd : Int := 1

def epollCtlDel : Int := 2

def epollCtlMod : Int := 3

def epollEt : UInt32 := 0x80000000

structure EpollEvent where
  events : UInt32
  data : UInt64
deriving DecidableEq, Repr

structure RegisteredEvent (D : Type) where
  description : Option D
  oldRevents : UInt32
  userEvents : EpollEvent
deriving DecidableEq, Repr

namespace RegisteredEvent

variable {D : Type}

def empty : RegisteredEvent D := ⟨none,0,⟨0,0⟩⟩

def edgeTriggered (event : RegisteredEvent D) : Prop := event.userEvents.events &&& epollEt ≠ 0

instance (event : RegisteredEvent D) : Decidable event.edgeTriggered :=
  inferInstanceAs (Decidable (_ ≠ _))

def revents (event : RegisteredEvent D) (newRevents : UInt32) : UInt32 :=
  if event.edgeTriggered then newRevents &&& ~~~event.oldRevents else newRevents

def setUser (event : RegisteredEvent D) (userEvents : EpollEvent) : RegisteredEvent D :=
  { event with userEvents := userEvents }

@[simp] theorem setUser_description (event : RegisteredEvent D) (userEvents : EpollEvent) :
    (event.setUser userEvents).description = event.description := rfl

end RegisteredEvent

def calculateKey (fd : Int) (description : UInt64) : UInt64 :=
  hashCombine (Klib.hash (UInt64.ofInt fd)) (Klib.hash description)

-- `D` are the file descriptions, and `E` the events that a thread waits on.
structure EPoll (D E : Type) where
  keyToEventsIndex : HashTable UInt64 Nat
  events : List (RegisteredEvent D)
  waitEvents : List (Option E)
  firstFreeEvent : Nat

namespace EPoll

variable {D E : Type}

def new : EPoll D E := ⟨HashTable.new 16,[],[none],0⟩

def slot (epoll : EPoll D E) (i : Nat) : RegisteredEvent D := epoll.events.getD i .empty

def allocateEventsIndex (epoll : EPoll D E) : EPoll D E × Nat :=
  let size := epoll.events.length
  let first := epoll.firstFreeEvent
  match (List.range' first (size - first)).find? fun i => (epoll.slot i).description.isNone with
  | some i => ({ epoll with firstFreeEvent := i + 1 },i)
  | none => ({ epoll with
      firstFreeEvent := size
      events := epoll.events ++ [.empty]
      waitEvents := epoll.waitEvents ++ [none] },size)

def setSlot (epoll : EPoll D E) (index : Nat) (registered : RegisteredEvent D) (event : Option E) :
    EPoll D E :=
  { epoll with
    events := epoll.events.set index registered
    waitEvents := epoll.waitEvents.set (index + 1) event }

def ctl (epoll : EPoll D E) (op : Int) (key : UInt64) (target : D) (event : Option E)
    (userEvent : EpollEvent) : EPoll D E × Int :=
  let indexPtr := epoll.keyToEventsIndex.get key
  if op = epollCtlAdd then
    match indexPtr with
    | some _ => (epoll,-eexist)
    | none =>
      let (epoll,index) := epoll.allocateEventsIndex
      let epoll := epoll.setSlot index ⟨some target,0,userEvent⟩ event
      ({ epoll with keyToEventsIndex := epoll.keyToEventsIndex.emplace key index },0)
  else if op = epollCtlMod then
    match indexPtr with
    | none => (epoll,-enoent)
    | some index =>
      ({ epoll with events := epoll.events.set index ((epoll.slot index).setUser userEvent) },0)
  else if op = epollCtlDel then
    match indexPtr with
    | none => (epoll,-enoent)
    | some index =>
      let epoll := epoll.setSlot index .empty none
      ({ epoll with
        keyToEventsIndex := epoll.keyToEventsIndex.remove key
        firstFreeEvent := if epoll.firstFreeEvent > index then index else epoll.firstFreeEvent },0)
  else (epoll,-einval)

end EPoll

structure Pass (D : Type) where
  events : List (RegisteredEvent D)
  reports : List EpollEvent
  polled : List D
deriving DecidableEq, Repr

def pass {D : Type} (poll : D → UInt32 → UInt32) (maxevents numReady : Nat) :
    List (RegisteredEvent D) → Pass D
  | [] => ⟨[],[],[]⟩
  | event :: events => match event.description with
    | none =>
      let rest := pass poll maxevents numReady events
      { rest with events := event :: rest.events }
    | some description =>
      let newRevents := poll description event.userEvents.events
      let revents := event.revents newRevents
      let event := { event with oldRevents := newRevents }
      if revents ≠ 0 then
        if numReady + 1 ≥ maxevents then
          ⟨event :: events,[⟨revents,event.userEvents.data⟩],[description]⟩
        else
          let rest := pass poll maxevents (numReady + 1) events
          ⟨event :: rest.events,⟨revents,event.userEvents.data⟩ :: rest.reports,
            description :: rest.polled⟩
      else
        let rest := pass poll maxevents numReady events
        ⟨event :: rest.events,rest.reports,description :: rest.polled⟩

end Epoll

end SabaOS.Userland

namespace SabaOS.Userland.Epoll

section Pass

variable {D : Type} {poll : D → UInt32 → UInt32} {maxevents numReady : Nat}

namespace RegisteredEvent

def conditions (event : RegisteredEvent D) (poll : D → UInt32 → UInt32) : UInt32 :=
  event.description.elim 0 fun description => poll description event.userEvents.events

def sample (poll : D → UInt32 → UInt32) (event : RegisteredEvent D) : RegisteredEvent D :=
  if event.description.isNone then event else { event with oldRevents := event.conditions poll }

def report (poll : D → UInt32 → UInt32) (event : RegisteredEvent D) : Option EpollEvent :=
  let revents := event.revents (event.conditions poll)
  if event.description.isNone ∨ revents = 0 then none else some ⟨revents,event.userEvents.data⟩

theorem sample_description (event : RegisteredEvent D) :
    (event.sample poll).description = event.description := by
  rw [sample]
  split_ifs
  · rfl
  · rfl

end RegisteredEvent

def rank (poll : D → UInt32 → UInt32) (events : List (RegisteredEvent D)) (i : Nat) : Nat :=
  ((events.take i).filterMap (RegisteredEvent.report poll)).length

section Slot

variable {event : RegisteredEvent D} {events : List (RegisteredEvent D)} {r : EpollEvent}

theorem rank_quiet (h : event.report poll = none) (i : Nat) :
    rank poll (event :: events) (i + 1) = rank poll events i := by
  rw [rank,List.take_succ_cons,List.filterMap_cons,h]
  rfl

theorem rank_more (h : event.report poll = some r) (i : Nat) :
    rank poll (event :: events) (i + 1) = rank poll events i + 1 := by
  rw [rank,List.take_succ_cons,List.filterMap_cons,h]
  rfl

theorem report_none_iff : event.report poll = none ↔
    event.description.isNone ∨ event.revents (event.conditions poll) = 0 := by
  rw [RegisteredEvent.report]
  split_ifs with h
  · exact iff_of_true rfl h
  · exact iff_of_false nofun h

theorem report_eq_some (h : event.report poll = some r) : event.description.isSome ∧
    event.revents (event.conditions poll) ≠ 0 ∧
    r = ⟨event.revents (event.conditions poll),event.userEvents.data⟩ := by
  rw [RegisteredEvent.report] at h
  split_ifs at h with hnone
  rw [not_or,Bool.not_eq_true,Option.isNone_eq_false_iff] at hnone
  exact ⟨hnone.1,hnone.2,(Option.some.inj h).symm⟩

theorem pass_quiet (h : event.report poll = none) :
    (pass poll maxevents numReady (event :: events)).events =
      event.sample poll :: (pass poll maxevents numReady events).events ∧
    (pass poll maxevents numReady (event :: events)).reports =
      (pass poll maxevents numReady events).reports := by
  rcases event with ⟨_ | description,old,user⟩
  · exact ⟨rfl,rfl⟩
  · rcases report_none_iff.mp h with hnone | hzero
    · cases hnone
    · change RegisteredEvent.revents ⟨some description,old,user⟩ (poll description user.events) = 0 at hzero
      simp only [pass]
      rw [if_neg (not_not_intro hzero)]
      exact ⟨rfl,rfl⟩

theorem pass_last (h : event.report poll = some r) (hlast : numReady + 1 ≥ maxevents) :
    (pass poll maxevents numReady (event :: events)).events = event.sample poll :: events ∧
    (pass poll maxevents numReady (event :: events)).reports = [r] := by
  obtain ⟨hsome,hne,rfl⟩ := report_eq_some h
  rcases event with ⟨_ | description,old,user⟩
  · cases hsome
  · change RegisteredEvent.revents ⟨some description,old,user⟩ (poll description user.events) ≠ 0 at hne
    simp only [pass]
    rw [if_pos hne,if_pos hlast]
    exact ⟨rfl,rfl⟩

theorem pass_more (h : event.report poll = some r) (hroom : numReady + 1 < maxevents) :
    (pass poll maxevents numReady (event :: events)).events =
      event.sample poll :: (pass poll maxevents (numReady + 1) events).events ∧
    (pass poll maxevents numReady (event :: events)).reports =
      r :: (pass poll maxevents (numReady + 1) events).reports := by
  obtain ⟨hsome,hne,rfl⟩ := report_eq_some h
  rcases event with ⟨_ | description,old,user⟩
  · cases hsome
  · change RegisteredEvent.revents ⟨some description,old,user⟩ (poll description user.events) ≠ 0 at hne
    simp only [pass]
    rw [if_pos hne,if_neg (Nat.not_le_of_lt hroom)]
    exact ⟨rfl,rfl⟩

end Slot

theorem pass_length (events : List (RegisteredEvent D)) :
    (pass poll maxevents numReady events).events.length = events.length := by
  induction events generalizing numReady with
  | nil => rfl
  | cons event events ih =>
    cases h : event.report poll with
    | none => rw [(pass_quiet h).1,List.length_cons,ih,List.length_cons]
    | some r =>
      rcases Nat.lt_or_ge (numReady + 1) maxevents with hroom | hlast
      · rw [(pass_more h hroom).1,List.length_cons,ih,List.length_cons]
      · rw [(pass_last h hlast).1,List.length_cons,List.length_cons]

theorem pass_slot (poll : D → UInt32 → UInt32) (hroom : numReady < maxevents) (events : List (RegisteredEvent D)) (i : Nat) :
    (pass poll maxevents numReady events).events.getD i .empty =
      if numReady + rank poll events i < maxevents then (events.getD i .empty).sample poll
      else events.getD i .empty := by
  induction events generalizing numReady i with
  | nil => exact (ite_self _).symm
  | cons event events ih =>
    cases i with
    | zero =>
      rw [rank,List.take_zero,List.filterMap_nil,List.length_nil,Nat.add_zero,if_pos hroom]
      cases h : event.report poll with
      | none => rw [(pass_quiet h).1,List.getD_cons_zero,List.getD_cons_zero]
      | some r =>
        rcases Nat.lt_or_ge (numReady + 1) maxevents with hmore | hlast
        · rw [(pass_more h hmore).1,List.getD_cons_zero,List.getD_cons_zero]
        · rw [(pass_last h hlast).1,List.getD_cons_zero,List.getD_cons_zero]
    | succ i =>
      rw [List.getD_cons_succ]
      cases h : event.report poll with
      | none => rw [(pass_quiet h).1,List.getD_cons_succ,ih hroom,rank_quiet h]
      | some r =>
        rw [rank_more h]
        rcases Nat.lt_or_ge (numReady + 1) maxevents with hmore | hlast
        · rw [(pass_more h hmore).1,List.getD_cons_succ,ih hmore,Nat.add_right_comm,Nat.add_assoc]
        · rw [(pass_last h hlast).1,List.getD_cons_succ,if_neg]
          omega

theorem pass_reports (hroom : numReady < maxevents) (events : List (RegisteredEvent D)) :
    (pass poll maxevents numReady events).reports =
      (events.filterMap (RegisteredEvent.report poll)).take (maxevents - numReady) := by
  induction events generalizing numReady with
  | nil => exact List.take_nil.symm
  | cons event events ih =>
    rw [List.filterMap_cons]
    cases h : event.report poll with
    | none => rw [(pass_quiet h).2,ih hroom]
    | some r =>
      obtain ⟨n,hn⟩ : ∃ n, maxevents - numReady = n + 1 := ⟨maxevents - numReady - 1,by omega⟩
      dsimp only
      rw [hn,List.take_succ_cons]
      rcases Nat.lt_or_ge (numReady + 1) maxevents with hmore | hlast
      · rw [(pass_more h hmore).2,ih hmore,show maxevents - (numReady + 1) = n by omega]
      · rw [(pass_last h hlast).2,show n = 0 by omega,List.take_zero]

theorem pass_reported {events : List (RegisteredEvent D)} {i : Nat} {r : EpollEvent}
    (hi : i < events.length) (hrank : rank poll events i < maxevents)
    (hr : (events.getD i .empty).report poll = some r) :
    (pass poll maxevents 0 events).reports[rank poll events i]? = some r := by
  have hsplit : events = events.take i ++ events.getD i .empty :: events.drop (i + 1) := by
    rw [List.getD_eq_getElem _ _ hi,← List.drop_eq_getElem_cons hi,List.take_append_drop]
  have hmap : events.filterMap (RegisteredEvent.report poll) =
      (events.take i).filterMap (RegisteredEvent.report poll) ++
        r :: (events.drop (i + 1)).filterMap (RegisteredEvent.report poll) := by
    conv_lhs => rw [hsplit]
    rw [List.filterMap_append,List.filterMap_cons,hr]
  rw [pass_reports (Nat.zero_lt_of_lt hrank),Nat.sub_zero,List.getElem?_take_of_lt hrank,hmap]
  exact (List.getElem?_append_right (Nat.le_refl _)).trans (by rw [Nat.sub_self]; rfl)

end Pass

end SabaOS.Userland.Epoll
