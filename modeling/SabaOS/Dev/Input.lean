import SabaOS.Klib.WrappingRing
import SabaOS.Lib.Thin

namespace SabaOS.Dev.Input

open Klib Lib

structure Timeval where
  sec : Int64
  usec : Int64
deriving DecidableEq, Repr

structure InputEvent where
  time : Timeval
  type : UInt16
  code : UInt16
  value : UInt32
deriving DecidableEq, Repr

def evSyn : UInt16 := 0
def synReport : UInt16 := 0
def synDropped : UInt16 := 3

def InputEvent.IsDropped (e : InputEvent) : Prop := e.type = evSyn ∧ e.code = synDropped

abbrev EventBuffer : Type := RingBuffer InputEvent 128

def noEvents : EventBuffer where
  readIndex := 0
  writeIndex := 0
  data := fun _ => ⟨⟨0,0⟩,0,0,0⟩

-- `sent` records what the device has flushed since the listener was created, and `got` what the
-- listener has read.
structure InputListener where
  eventBuffer : EventBuffer := noEvents
  sent : List InputEvent := []
  got : List InputEvent := []

-- `pending` records what was pushed since the last flush.
structure InputDevice where
  eventBuffer : EventBuffer := noEvents
  listeners : List InputListener := []
  pending : List InputEvent := []

def InputListener.read (l : InputListener) (count : Nat) : InputListener :=
  let (buffer,events) := l.eventBuffer.read count
  { l with eventBuffer := buffer, got := l.got ++ events }

-- The part of `flush_events` for one listener: it loses what it has not read where there is no room
-- for all of the events.
def InputListener.makeRoom (l : InputListener) (count : Nat) (now : Timeval) : EventBuffer :=
  if l.eventBuffer.freeCount < count then
    ((l.eventBuffer.truncate l.eventBuffer.dataCount).write [⟨now,evSyn,synDropped,0⟩]).1
  else l.eventBuffer

def InputListener.receive (l : InputListener) (events : List InputEvent) (now : Timeval) :
    InputListener :=
  { l with eventBuffer := ((l.makeRoom events.length now).write events).1 }

namespace InputDevice

def pushEvent (d : InputDevice) (now : Timeval) (type code : UInt16) (value : UInt32) : InputDevice :=
  let inputEvent : InputEvent := ⟨now,type,code,value⟩
  { d with
    eventBuffer := (d.eventBuffer.writeTruncate [inputEvent]).1
    pending := d.pending ++ [inputEvent] }

-- The clock is read for SYN_REPORT, and again for every listener that loses events.
def flushEvents (d : InputDevice) (now : Timeval) (later : Nat → Timeval) : InputDevice :=
  let d := if d.eventBuffer.isEmpty then d else d.pushEvent now evSyn synReport 0
  let (buffer,events) := d.eventBuffer.read 128
  { eventBuffer := buffer
    listeners := d.listeners.mapIdx fun k l =>
      { l.receive events (later k) with sent := l.sent ++ d.pending }
    pending := [] }

end InputDevice

inductive Op where
  | push (now : Timeval) (type code : UInt16) (value : UInt32)
  | flush (now : Timeval) (later : Nat → Timeval)
  | read (k count : Nat)
  | createListener
  | removeListener (k : Nat)

namespace InputDevice

def step (d : InputDevice) : Op → InputDevice
  | .push now type code value => d.pushEvent now type code value
  | .flush now later => d.flushEvents now later
  | .read k count => { d with listeners := d.listeners.modify k (·.read count) }
  | .createListener => { d with listeners := d.listeners ++ [{}] }
  | .removeListener k => { d with listeners := d.listeners.eraseIdx k }

def run (d : InputDevice) : List Op → InputDevice
  | [] => d
  | op :: ops => (d.step op).run ops

def Spares (d : InputDevice) : Op → Prop
  | .push _ _ _ _ => d.eventBuffer.dataCount < 128
  | .flush _ _ => d.eventBuffer.dataCount < 127 ∨
      (d.eventBuffer.dataCount = 127 ∧ ∀ l ∈ d.listeners, l.eventBuffer.isEmpty = true)
  | _ => True

instance (d : InputDevice) (op : Op) : Decidable (d.Spares op) := match op with
  | .push _ _ _ _ => inferInstanceAs (Decidable (d.eventBuffer.dataCount < 128))
  | .flush _ _ => inferInstanceAs (Decidable (d.eventBuffer.dataCount < 127 ∨
      (d.eventBuffer.dataCount = 127 ∧ ∀ l ∈ d.listeners, l.eventBuffer.isEmpty = true)))
  | .read _ _ => inferInstanceAs (Decidable True)
  | .createListener => inferInstanceAs (Decidable True)
  | .removeListener _ => inferInstanceAs (Decidable True)

def SparesAll (d : InputDevice) : List Op → Prop
  | [] => True
  | op :: ops => d.Spares op ∧ (d.step op).SparesAll ops

instance decidableSparesAll (d : InputDevice) : (ops : List Op) → Decidable (d.SparesAll ops)
  | [] => inferInstanceAs (Decidable True)
  | op :: ops =>
    have := decidableSparesAll (d.step op) ops
    inferInstanceAs (Decidable (d.Spares op ∧ (d.step op).SparesAll ops))

end InputDevice

def InputListener.Accounts (l : InputListener) : Prop :=
  Marked InputEvent.IsDropped l.sent (l.got ++ l.eventBuffer.queue)

structure InputListener.Sound (l : InputListener) : Prop where
  wrapping : l.eventBuffer.Wrapping
  accounts : l.Accounts

structure InputDevice.Sound (d : InputDevice) : Prop where
  wrapping : d.eventBuffer.Wrapping
  pending : d.eventBuffer.queue = d.pending
  listeners : ∀ l ∈ d.listeners, l.Sound

theorem noEvents_wrapping : noEvents.Wrapping :=
  ⟨by decide,by decide,by decide,by decide,by decide,by decide⟩

variable {d : InputDevice} {l : InputListener} {events : List InputEvent} {now : Timeval}

theorem InputListener.Sound.read (h : l.Sound) (count : Nat) : (l.read count).Sound := by
  obtain ⟨hgot,hleft,hwrapping⟩ := h.wrapping.read_spec count
  refine ⟨hwrapping,?_⟩
  have haccounts := h.accounts
  rw [Accounts] at haccounts ⊢
  simp only [InputListener.read,hgot,hleft,List.append_assoc,List.take_append_drop]
  exact haccounts

theorem write_all {buffer : EventBuffer} (h : buffer.Wrapping) (events : List InputEvent)
    (hroom : buffer.queue.length + events.length ≤ 128) :
    (buffer.write events).1.queue = buffer.queue ++ events ∧ (buffer.write events).1.Wrapping := by
  obtain ⟨hn,hqueue,hwrapping⟩ := h.write_spec events
  rw [RingBuffer.queue_length] at hroom
  refine ⟨?_,hwrapping⟩
  rw [hqueue,hn,Nat.min_eq_left (by omega),List.take_length]

theorem InputListener.Sound.makeRoom (h : l.Sound) {count : Nat}
    (hfit : count < 128 ∨ (count = 128 ∧ l.eventBuffer.isEmpty = true)) (now : Timeval) :
    (l.makeRoom count now).Wrapping ∧ (l.makeRoom count now).queue.length + count ≤ 128 ∧
      Marked InputEvent.IsDropped l.sent (l.got ++ (l.makeRoom count now).queue) := by
  have hcl := h.wrapping.count_le
  rw [← RingBuffer.queue_length] at hcl
  rw [InputListener.makeRoom,h.wrapping.freeCount_eq,← RingBuffer.queue_length]
  by_cases hroom : l.eventBuffer.queue.length + count ≤ 128
  · rw [if_neg (by omega)]
    exact ⟨h.wrapping,hroom,h.accounts⟩
  · have hwaiting : l.eventBuffer.queue ≠ [] := by
      intro hnil
      rw [hnil,List.length_nil] at hroom
      omega
    have hshort : count < 128 := by
      rcases hfit with hlt | ⟨-,hempty⟩
      · exact hlt
      · exact absurd (RingBuffer.isEmpty_iff_queue.mp hempty) hwaiting
    obtain ⟨-,hleft,hempty⟩ := h.wrapping.read_spec l.eventBuffer.queue.length
    rw [List.drop_length,← h.wrapping.truncate_eq_read] at hleft
    rw [← h.wrapping.truncate_eq_read] at hempty
    obtain ⟨hmarked,hwrapping⟩ := write_all hempty [⟨now,evSyn,synDropped,0⟩]
      (by rw [hleft]; simp)
    rw [hleft,List.nil_append] at hmarked
    rw [if_pos (by omega),hmarked]
    refine ⟨hwrapping,?_,h.accounts.lose hwaiting ⟨rfl,rfl⟩⟩
    rw [List.length_singleton]
    omega

theorem InputListener.Sound.receive (h : l.Sound)
    (hfit : events.length < 128 ∨ (events.length = 128 ∧ l.eventBuffer.isEmpty = true)) (now : Timeval) :
    InputListener.Sound { l.receive events now with sent := l.sent ++ events } := by
  obtain ⟨hwrapping,hroom,haccounts⟩ := h.makeRoom hfit now
  obtain ⟨hqueue,hwrapping'⟩ := write_all hwrapping events hroom
  refine ⟨hwrapping',?_⟩
  simp only [InputListener.Accounts,InputListener.receive]
  rw [hqueue,← List.append_assoc]
  exact haccounts.append (.refl events)

theorem InputDevice.Sound.pushEvent (h : d.Sound) (hroom : d.eventBuffer.dataCount < 128)
    (now : Timeval) (type code : UInt16) (value : UInt32) :
    (d.pushEvent now type code value).Sound := by
  obtain ⟨hqueue,hwrapping⟩ :=
    h.wrapping.writeTruncate_spec [⟨now,type,code,value⟩] (by simp)
  rw [List.length_singleton,if_pos (Nat.succ_le_of_lt hroom),h.pending] at hqueue
  exact ⟨hwrapping,hqueue,h.listeners⟩

theorem InputDevice.Sound.report (h : d.Sound) (now : Timeval) {later : Nat → Timeval}
    (hroom : d.Spares (.flush now later)) : ∃ d' : InputDevice, d'.Sound ∧
    d' = (if d.eventBuffer.isEmpty then d else d.pushEvent now evSyn synReport 0) ∧
      ∀ l ∈ d'.listeners, d'.pending.length < 128 ∨
        (d'.pending.length = 128 ∧ l.eventBuffer.isEmpty = true) := by
  have hlen : d.pending.length = d.eventBuffer.dataCount := by
    rw [← h.pending,RingBuffer.queue_length]
  simp only [InputDevice.Spares] at hroom
  by_cases hempty : d.eventBuffer.isEmpty = true
  · refine ⟨d,h,(if_pos hempty).symm,fun l _ => .inl ?_⟩
    rw [← h.pending,RingBuffer.isEmpty_iff_queue.mp hempty]
    decide
  · refine ⟨_,h.pushEvent (by omega) now evSyn synReport 0,(if_neg hempty).symm,fun l hl => ?_⟩
    simp only [InputDevice.pushEvent,List.length_append,List.length_singleton,hlen]
    rcases hroom with hlt | ⟨heq,hall⟩
    · exact .inl (by omega)
    · exact .inr ⟨by omega,hall l hl⟩

theorem InputDevice.Sound.flushEvents (h : d.Sound) (now : Timeval) (later : Nat → Timeval)
    (hroom : d.Spares (.flush now later)) : (d.flushEvents now later).Sound := by
  obtain ⟨d',hsound,hd',hfit⟩ := h.report now hroom
  simp only [InputDevice.flushEvents]
  rw [← hd']
  have hcount := hsound.wrapping.count_le
  obtain ⟨hevents,hleft,hwrapping⟩ := hsound.wrapping.read_spec 128
  rw [List.take_of_length_le (by rw [RingBuffer.queue_length]; exact hcount),hsound.pending] at hevents
  rw [List.drop_eq_nil_of_le (by rw [RingBuffer.queue_length]; exact hcount)] at hleft
  refine ⟨hwrapping,hleft,fun l hl => ?_⟩
  obtain ⟨k,hk,rfl⟩ := List.exists_of_mem_mapIdx hl
  rw [hevents]
  have hmem := List.getElem_mem hk
  exact (hsound.listeners _ hmem).receive (hfit _ hmem) (later k)

theorem InputDevice.Sound.step (h : d.Sound) {op : Op} (hop : d.Spares op) : (d.step op).Sound := by
  cases op with
  | push now type code value => exact h.pushEvent hop now type code value
  | flush now later => exact h.flushEvents now later hop
  | read k count =>
    refine ⟨h.wrapping,h.pending,fun l hl => ?_⟩
    obtain ⟨j,hj,rfl⟩ := List.mem_iff_getElem.mp hl
    simp only [InputDevice.step,List.length_modify] at hj
    simp only [InputDevice.step,List.getElem_modify]
    have hsound := h.listeners _ (List.getElem_mem hj)
    split_ifs
    · exact hsound.read count
    · exact hsound
  | createListener =>
    refine ⟨h.wrapping,h.pending,fun l hl => ?_⟩
    rcases List.mem_append.mp hl with hl | hl
    · exact h.listeners l hl
    · rw [List.mem_singleton.mp hl]
      exact ⟨noEvents_wrapping,.nil⟩
  | removeListener k =>
    exact ⟨h.wrapping,h.pending,fun l hl => h.listeners l (List.mem_of_mem_eraseIdx hl)⟩

theorem InputDevice.Sound.run (h : d.Sound) {ops : List Op} (hops : d.SparesAll ops) :
    (d.run ops).Sound := by
  induction ops generalizing d with
  | nil => exact h
  | cons op ops ih => exact ih (h.step hops.1) hops.2

theorem sound_init : InputDevice.Sound {} :=
  ⟨noEvents_wrapping,rfl,fun _ hl => absurd hl List.not_mem_nil⟩

theorem input_delivered (ops : List Op) (hops : InputDevice.SparesAll {} ops) :
    ∀ l ∈ (InputDevice.run {} ops).listeners, l.Accounts :=
  fun l hl => ((sound_init.run hops).listeners l hl).accounts

def midnight : Timeval := ⟨0,0⟩

def keyPress : Op := .push midnight 1 30 1

def keyEvent : InputEvent := ⟨midnight,1,30,1⟩

def tapped : List Op := [.createListener,keyPress,.flush midnight fun _ => midnight,.read 0 1]

theorem input_delivered_key : ∃ l, (InputDevice.run {} tapped).listeners = [l] ∧ l.Accounts :=
  ⟨_,rfl,input_delivered tapped (by decide) _ List.mem_cons_self⟩

theorem presses_spec (h : d.Sound) {n : Nat} (hn : d.eventBuffer.dataCount + n ≤ 128) :
    (d.run (List.replicate n keyPress)).Sound ∧
      (d.run (List.replicate n keyPress)).pending = d.pending ++ List.replicate n keyEvent ∧
        (d.run (List.replicate n keyPress)).listeners = d.listeners := by
  induction n generalizing d with
  | zero => exact ⟨h,(List.append_nil _).symm,rfl⟩
  | succ n ih =>
    have hnext := h.pushEvent (by omega) midnight 1 30 1
    have hcount : (d.pushEvent midnight 1 30 1).eventBuffer.dataCount = d.eventBuffer.dataCount + 1 := by
      rw [← RingBuffer.queue_length,← RingBuffer.queue_length,hnext.pending,h.pending]
      exact List.length_append
    obtain ⟨hsound,hpending,hlisteners⟩ := ih hnext (by omega)
    refine ⟨hsound,hpending.trans ?_,hlisteners⟩
    rw [List.replicate_succ]
    exact List.append_assoc _ [keyEvent] _

theorem run_append (d : InputDevice) (ops ops' : List Op) : d.run (ops ++ ops') = (d.run ops).run ops' := by
  induction ops generalizing d with
  | nil => rfl
  | cons op ops ih => exact ih (d.step op)

theorem flush_full (h : d.Sound) (hfull : d.eventBuffer.dataCount = 128) (now : Timeval)
    (later : Nat → Timeval) : (d.flushEvents now later).listeners = d.listeners.mapIdx fun k l =>
      { l.receive (d.pending.drop 1 ++ [⟨now,evSyn,synReport,0⟩]) (later k) with
        sent := l.sent ++ (d.pending ++ [⟨now,evSyn,synReport,0⟩]) } := by
  have hempty : d.eventBuffer.isEmpty = false := by
    rw [RingBuffer.isEmpty,hfull]
    rfl
  obtain ⟨hqueue,hwrapping⟩ :=
    h.wrapping.writeTruncate_spec [⟨now,evSyn,synReport,0⟩] (by simp)
  rw [hfull,List.length_singleton,if_neg (by decide),h.pending] at hqueue
  obtain ⟨hevents,-,-⟩ := hwrapping.read_spec 128
  have hcount := hwrapping.count_le
  rw [← RingBuffer.queue_length] at hcount
  rw [List.take_of_length_le hcount,hqueue] at hevents
  simp only [InputDevice.flushEvents,hempty,Bool.false_eq_true,if_false,InputDevice.pushEvent]
  rw [hevents]

def overfill : List Op :=
  .createListener :: (List.replicate 128 keyPress ++ [.flush midnight fun _ => midnight])

theorem overfill_listeners : (InputDevice.run {} overfill).listeners =
    [{ InputListener.receive {} (List.replicate 127 keyEvent ++ [⟨midnight,evSyn,synReport,0⟩]) midnight with
      sent := List.replicate 128 keyEvent ++ [⟨midnight,evSyn,synReport,0⟩] }] := by
  obtain ⟨hsound,hpending,hlisteners⟩ :=
    presses_spec (n := 128) (sound_init.step (show InputDevice.Spares {} .createListener from trivial)) (by decide)
  have hfull : (InputDevice.run (InputDevice.step {} .createListener)
      (List.replicate 128 keyPress)).eventBuffer.dataCount = 128 := by
    rw [← RingBuffer.queue_length,hsound.pending,hpending]
    exact List.length_replicate
  have hflush := flush_full hsound hfull midnight fun _ => midnight
  rw [hpending,hlisteners] at hflush
  rw [overfill,InputDevice.run,run_append]
  exact hflush

theorem input_lost : ¬∀ ops : List Op, ∀ l ∈ (InputDevice.run {} ops).listeners, l.Accounts := by
  intro hall
  have haccounts := hall overfill
  rw [overfill_listeners] at haccounts
  have hmarked := haccounts _ List.mem_cons_self
  obtain ⟨events,hevents⟩ : ∃ events, events = List.replicate 127 keyEvent ++
    [(⟨midnight,evSyn,synReport,0⟩ : InputEvent)] := ⟨_,rfl⟩
  have hlen : events.length = 128 := by simp [hevents]
  have hnone : ∀ e ∈ events, ¬e.IsDropped := by
    rw [hevents]
    intro e he
    rcases List.mem_append.mp he with he | he
    · rw [List.eq_of_mem_replicate he]
      exact fun h => absurd h.1 (by decide)
    · rw [List.mem_singleton.mp he]
      exact fun h => absurd h.2 (by decide)
  have hempty : noEvents.queue = [] := rfl
  obtain ⟨hqueue,-⟩ := write_all noEvents_wrapping events (by rw [hempty,hlen]; decide)
  have hroom : InputListener.makeRoom {} events.length midnight = noEvents := by
    rw [hlen]
    exact if_neg (by decide)
  rw [← hevents] at hmarked
  simp only [InputListener.Accounts,InputListener.receive,hroom,hqueue,hempty,List.nil_append] at hmarked
  have hsame := congrArg List.length (hmarked.eq_of_unmarked hnone)
  simp [hlen] at hsame

end SabaOS.Dev.Input
