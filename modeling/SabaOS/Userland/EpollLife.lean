import SabaOS.Fs.DescriptorMoves
import SabaOS.Lib.Tracking
import SabaOS.Userland.Epoll
import SabaOS.Userland.EpollSlots

namespace SabaOS.Userland.Epoll

open SabaOS.Fs SabaOS.Klib SabaOS.Lib

def epollCloexec : UInt64 := 0x80000

inductive Node where
  | epoll (n : Nat)
  | other (n : Nat)
deriving DecidableEq, Repr

-- An instance stays in memory when its last description goes.
structure Instances (E : Type) where
  epolls : Nat → EPoll Nat E
  nextEpoll : Nat

namespace Instances

variable {E : Type}

def set (w : Instances E) (n : Nat) (epoll : EPoll Nat E) : Instances E :=
  { w with epolls := Function.update w.epolls n epoll }

-- Neither `EPoll` nor what it watches hears of it.
def vclose (_ : FileDescription Node) (w : Instances E) : Instances E := w

end Instances

abbrev EpollFiles (E : Type) : Type := Files Node (Instances E)

section Calls

variable {E : Type}

def epollCreate1Impl (f : EpollFiles E) (pid : Nat) (flags : UInt64) : EpollFiles E × Int :=
  if flags &&& ~~~epollCloexec ≠ 0 then (f,-einval)
  else
    let n := f.world.nextEpoll
    let f := { f with world := { f.world.set n EPoll.new with nextEpoll := n + 1 } }
    let (f,epfd) := f.openDescription pid (.epoll n) oRdonly (flags &&& epollCloexec ≠ 0)
    (f,epfd)

def getEpoll (f : EpollFiles E) (pid : Nat) (epfd : Int) : Except Int Nat :=
  match (f.processes pid).lookup epfd with
  | none => .error (-ebadf)
  | some (_,description) => match (f.descriptions description).map (·.vnode) with
    | some (Node.epoll n) => .ok n
    | _ => .error (-einval)

def epollCtl (address : Nat → UInt64) (event : Nat → Option E) (f : EpollFiles E) (pid : Nat)
    (epfd op fd : Int) (userEvent : EpollEvent) : EpollFiles E × Int :=
  match getEpoll f pid epfd with
  | .error err => (f,err)
  | .ok n => match (f.processes pid).lookup fd with
    | none => (f,-ebadf)
    | some (_,target) =>
      let key := calculateKey fd (address target)
      let (epoll,ret) := (f.world.epolls n).ctl op key target (event target) userEvent
      ({ f with world := f.world.set n epoll },ret)

end Calls

def EPoll.awaited {D E : Type} (epoll : EPoll D E) : List D :=
  (List.range epoll.events.length).filterMap fun i =>
    if (epoll.waitEvents[i + 1]?.join).isSome then (epoll.slot i).description else none

structure Waiter where
  epoll : Nat
  maxevents : Nat
  awaiting : List Nat
deriving DecidableEq, Repr

structure EpollMachine (E : Type) where
  files : EpollFiles E
  waiters : Nat → Option Waiter

structure Turn where
  t : Nat
  epoll : Nat
  maxevents : Nat
  block : Bool
  poll : Nat → UInt32 → UInt32

inductive EpollStep where
  | files (call : Files.Call)
  | open (pid n : Nat) (flags : UInt64) (cloexec : Bool)
  | create (pid : Nat) (flags : UInt64)
  | ctl (pid : Nat) (epfd op fd : Int) (userEvent : EpollEvent)
  | wait (t pid : Nat) (epfd maxevents : Int) (block : Bool) (poll : Nat → UInt32 → UInt32)
  | resume (t : Nat) (poll : Nat → UInt32 → UInt32)
  | leave (t : Nat)

namespace EpollMachine

variable {E : Type}

def start : EpollMachine E := ⟨⟨fun _ => none,0,fun _ => {},⟨fun _ => EPoll.new,0⟩⟩,fun _ => none⟩

def turn (m : EpollMachine E) : EpollStep → Option Turn
  | .wait t pid epfd maxevents block poll =>
    if (m.waiters t).isSome ∨ maxevents ≤ 0 then none
    else match getEpoll m.files pid epfd with
    | .error _ => none
    | .ok n => some ⟨t,n,maxevents.toNat,block,poll⟩
  | .resume t poll => (m.waiters t).map fun w => ⟨t,w.epoll,w.maxevents,true,poll⟩
  | _ => none

def passOf (m : EpollMachine E) (turn : Turn) : Pass Nat :=
  pass turn.poll turn.maxevents 0 (m.files.world.epolls turn.epoll).events

def polled (m : EpollMachine E) (step : EpollStep) : List Nat :=
  (m.turn step).elim [] fun turn => (m.passOf turn).polled

def take (m : EpollMachine E) (turn : Turn) : EpollMachine E :=
  let epoll := { m.files.world.epolls turn.epoll with events := (m.passOf turn).events }
  let waiter :=
    if (m.passOf turn).reports ≠ [] ∨ ¬turn.block then none
    else some ⟨turn.epoll,turn.maxevents,epoll.awaited⟩
  ⟨{ m.files with world := m.files.world.set turn.epoll epoll },Function.update m.waiters turn.t waiter⟩

def next (address : Nat → UInt64) (event : Nat → Option E) (m : EpollMachine E) :
    EpollStep → EpollMachine E
  | .files call => { m with files := m.files.run Instances.vclose call }
  | .open pid n flags cloexec =>
    { m with files := (m.files.openDescription pid (.other n) flags cloexec).1 }
  | .create pid flags => { m with files := (epollCreate1Impl m.files pid flags).1 }
  | .ctl pid epfd op fd userEvent =>
    { m with files := (epollCtl address event m.files pid epfd op fd userEvent).1 }
  | .wait t pid epfd maxevents block poll =>
    (m.turn (.wait t pid epfd maxevents block poll)).elim m m.take
  | .resume t poll => (m.turn (.resume t poll)).elim m m.take
  -- a signal, or the timer
  | .leave t => { m with waiters := Function.update m.waiters t none }

def Steps (address : Nat → UInt64) (event : Nat → Option E) (m : EpollMachine E) (step : EpollStep)
    (m' : EpollMachine E) : Prop := m.next address event step = m'

def Watched (m : EpollMachine E) (d : Nat) : Prop :=
  (∃ n i, ((m.files.world.epolls n).slot i).description = some d) ∨
    ∃ t w, m.waiters t = some w ∧ d ∈ w.awaiting

def Good (m : EpollMachine E) (step : EpollStep) (m' : EpollMachine E) : Prop :=
  (∀ d ∈ m.polled step, 0 < m.files.refCount d) ∧ ∀ d, m'.Watched d → 0 < m'.files.refCount d

def Safe (m : EpollMachine E) (step : EpollStep) (_ : EpollMachine E) : Prop :=
  match step with
  | .files call => ∀ d, m.Watched d → ∃ x, m.files.slot x = some d ∧ ¬call.Closes m.files x
  | _ => True

structure Inv (event : Nat → Option E) (m : EpollMachine E) : Prop where
  sound : m.files.Sound
  sane : ∀ n, (m.files.world.epolls n).Sane event
  live : ∀ d, m.Watched d → 0 < m.files.refCount d

section Steps

variable {address : Nat → UInt64} {event : Nat → Option E} {m m' : EpollMachine E}
  {step : EpollStep} {n d : Nat}

theorem watched_slot {i : Nat} (h : ((m.files.world.epolls n).slot i).description = some d) :
    m.Watched d := .inl ⟨n,i,h⟩

theorem start_inv : (start : EpollMachine E).Inv event :=
  ⟨⟨Held.nil,nofun,fun _ _ => rfl⟩,fun _ => EPoll.new_sane event,
    fun _ h => absurd h (not_or.mpr ⟨nofun,nofun⟩)⟩

theorem inv_of_step (m : EpollMachine E) (hsound : m'.files.Sound)
    (hsane : ∀ n, (m'.files.world.epolls n).Sane event)
    (hlive : ∀ d, m.Watched d → 0 < m'.files.refCount d)
    (hnew : ∀ d, m'.Watched d → m.Watched d ∨ 0 < m'.files.refCount d) : m'.Inv event := by
  refine ⟨hsound,hsane,fun d hd => ?_⟩
  rcases hnew d hd with hold | hnew
  · exact hlive d hold
  · exact hnew

section Pass

theorem pass_polled {D : Type} {poll : D → UInt32 → UInt32} {maxevents numReady : Nat}
    {events : List (RegisteredEvent D)} {d : D} (h : d ∈ (pass poll maxevents numReady events).polled) :
    ∃ i, (events.getD i .empty).description = some d := by
  induction events generalizing numReady with
  | nil => cases h
  | cons event events ih =>
    have hrest : ∀ {numReady : Nat}, d ∈ (pass poll maxevents numReady events).polled →
        ∃ i, ((event :: events).getD i .empty).description = some d := by
      intro numReady hd
      obtain ⟨i,hi⟩ := ih hd
      exact ⟨i + 1,hi⟩
    rw [pass] at h
    split at h
    · exact hrest h
    · rename_i description hdesc
      have hself : d = description → ∃ i, ((event :: events).getD i .empty).description = some d := by
        rintro rfl
        exact ⟨0,hdesc⟩
      dsimp only at h
      split_ifs at h with hrevents hlast
      · exact hself (List.mem_singleton.mp h)
      · exact (List.mem_cons.mp h).elim hself hrest
      · exact (List.mem_cons.mp h).elim hself hrest

theorem pass_description {D : Type} (poll : D → UInt32 → UInt32) (maxevents numReady : Nat)
    (events : List (RegisteredEvent D)) (i : Nat) :
    ((pass poll maxevents numReady events).events.getD i .empty).description =
      (events.getD i .empty).description := by
  induction events generalizing numReady i with
  | nil => rfl
  | cons event events ih =>
    have hlast : ((event.sample poll :: events).getD i .empty).description =
        ((event :: events).getD i .empty).description := by
      cases i with
      | zero => exact event.sample_description
      | succ i => rfl
    have hmore : ∀ numReady, ((event.sample poll ::
        (pass poll maxevents numReady events).events).getD i .empty).description =
        ((event :: events).getD i .empty).description := by
      intro numReady
      cases i with
      | zero => exact event.sample_description
      | succ i => exact ih numReady i
    cases h : event.report poll with
    | none =>
      rw [(pass_quiet h).1]
      exact hmore numReady
    | some r =>
      rcases Nat.lt_or_ge (numReady + 1) maxevents with hroom | hfull
      · rw [(pass_more h hroom).1]
        exact hmore (numReady + 1)
      · rw [(pass_last h hfull).1]
        exact hlast

theorem awaited_slot {D : Type} {epoll : EPoll D E} {d : D} (h : d ∈ epoll.awaited) :
    ∃ i, (epoll.slot i).description = some d := by
  obtain ⟨i,-,hi⟩ := List.mem_filterMap.mp h
  split_ifs at hi
  exact ⟨i,hi⟩

end Pass

theorem polled_watched (h : d ∈ m.polled step) : m.Watched d := by
  rw [polled] at h
  cases hturn : m.turn step with
  | none =>
    rw [hturn] at h
    cases h
  | some turn =>
    rw [hturn] at h
    obtain ⟨i,hi⟩ := pass_polled h
    exact watched_slot hi

theorem take_inv (hi : m.Inv event) (turn : Turn) : (m.take turn).Inv event := by
  have hdesc := pass_description turn.poll turn.maxevents 0 (m.files.world.epolls turn.epoll).events
  have hslot : ∀ n i, (((m.take turn).files.world.epolls n).slot i).description =
      ((m.files.world.epolls n).slot i).description := by
    intro n i
    simp only [take,Instances.set]
    rcases eq_or_ne n turn.epoll with rfl | hne
    · rw [Function.update_self]
      exact hdesc i
    · rw [Function.update_of_ne hne]
  refine inv_of_step m ⟨hi.sound.held,hi.sound.known,hi.sound.fresh⟩ ?_ hi.live ?_
  · intro n
    simp only [take,Instances.set]
    rcases eq_or_ne n turn.epoll with rfl | hne
    · rw [Function.update_self]
      exact (hi.sane _).resample (pass_length _) hdesc
    · rw [Function.update_of_ne hne]
      exact hi.sane n
  · rintro d (⟨n,i,h⟩ | ⟨t,w,hw,hd⟩)
    · exact .inl (watched_slot ((hslot n i).symm.trans h))
    · left
      simp only [take] at hw
      rcases eq_or_ne t turn.t with rfl | hne
      · rw [Function.update_self] at hw
        split_ifs at hw
        obtain rfl := Option.some.inj hw
        obtain ⟨i,h⟩ := awaited_slot hd
        exact watched_slot ((hdesc i).symm.trans h)
      · rw [Function.update_of_ne hne] at hw
        exact .inr ⟨t,w,hw,hd⟩

theorem files_inv (hi : m.Inv event) (call : Files.Call)
    (hsafe : ∀ d, m.Watched d → ∃ x, m.files.slot x = some d ∧ ¬call.Closes m.files x) :
    Inv event { m with files := m.files.run Instances.vclose call } := by
  have hmoves := Files.run_moves Instances.vclose hi.sound call
  have hsound := hi.sound.moves hmoves
  have hworld : (m.files.run Instances.vclose call).world = m.files.world :=
    hmoves.world_kept fun _ _ => rfl
  generalize m.files.run Instances.vclose call = f at *
  refine inv_of_step m hsound ?_ ?_ ?_
  · intro n
    dsimp only
    rw [hworld]
    exact hi.sane n
  · intro d hd
    obtain ⟨x,hx,hc⟩ := hsafe d hd
    exact hsound.live_iff.mpr ⟨x,hmoves.slot_kept hx hc⟩
  · rintro d (⟨n,i,h⟩ | h)
    · dsimp only at h
      rw [hworld] at h
      exact .inl (watched_slot h)
    · exact .inl (.inr h)

theorem opened_inv (hi : m.Inv event) {pid : Nat} {vnode : Node} {flags : UInt64} {cloexec : Bool}
    {w : Instances E} (hw : ∀ n, w.epolls n = m.files.world.epolls n ∨ w.epolls n = EPoll.new) :
    Inv event { m with
      files := (Files.openDescription { m.files with world := w } pid vnode flags cloexec).1 } := by
  have hbefore : Files.Sound { m.files with world := w } := ⟨hi.sound.held,hi.sound.known,hi.sound.fresh⟩
  have hsound : (Files.openDescription { m.files with world := w } pid vnode flags cloexec).1.Sound :=
    hbefore.openDescription
  obtain ⟨-,-,hworld⟩ := Files.openDescription_rest { m.files with world := w } pid vnode flags cloexec
  obtain ⟨hfree,hslot⟩ := Files.openDescription_slot { m.files with world := w } pid vnode flags cloexec
  generalize Files.openDescription { m.files with world := w } pid vnode flags cloexec = opened at *
  refine inv_of_step m hsound ?_ ?_ ?_
  · intro n
    dsimp only
    rw [hworld]
    dsimp only
    rcases hw n with h | h
    · rw [h]
      exact hi.sane n
    · rw [h]
      exact EPoll.new_sane event
  · intro d hd
    obtain ⟨x,hx⟩ := hi.sound.live_iff.mp (hi.live d hd)
    refine hsound.live_iff.mpr ⟨x,?_⟩
    rw [hslot,Function.update_of_ne]
    · exact hx
    · rintro rfl
      cases hx.symm.trans hfree
  · rintro d (⟨n,i,h⟩ | h)
    · left
      dsimp only at h
      rw [hworld] at h
      dsimp only at h
      rcases hw n with hn | hn
      · rw [hn] at h
        exact watched_slot h
      · rw [hn] at h
        cases h
    · exact .inl (.inr h)

theorem ctl_inv (hi : m.Inv event) (pid : Nat) (epfd op fd : Int) (userEvent : EpollEvent) :
    Inv event { m with files := (epollCtl address event m.files pid epfd op fd userEvent).1 } := by
  rw [epollCtl]
  split
  · exact hi
  rename_i n hn
  split
  · exact hi
  rename_i x target hl
  have htarget := hi.sound.live_iff.mpr ⟨_,Files.lookup_some hl⟩
  obtain ⟨hsane,hstep⟩ := (hi.sane n).ctl op (calculateKey fd (address target)) target userEvent
  dsimp only
  generalize (m.files.world.epolls n).ctl op (calculateKey fd (address target)) target (event target)
    userEvent = result at *
  have hnew : ∀ i d, (result.1.slot i).description = some d →
      ((m.files.world.epolls n).slot i).description = some d ∨ d = target := by
    intro i d hd
    cases hstep with
    | refused hret hnone hsame =>
      rw [hsame] at hd
      exact .inl hd
    | added j hop hret hget hj hslot hget' =>
      rw [hslot] at hd
      split_ifs at hd
      · exact .inr (Option.some.inj hd).symm
      · exact .inl hd
    | modified j hop hret hget hslot hkeys =>
      rw [hslot] at hd
      split_ifs at hd with hij
      · exact .inl (hij ▸ hd)
      · exact .inl hd
    | deleted j hop hret hget hslot hget' =>
      rw [hslot] at hd
      split_ifs at hd
      · cases hd
      · exact .inl hd
  refine inv_of_step m ⟨hi.sound.held,hi.sound.known,hi.sound.fresh⟩ ?_ hi.live ?_
  · intro k
    simp only [Instances.set]
    rcases eq_or_ne k n with rfl | hne
    · rw [Function.update_self]
      exact hsane
    · rw [Function.update_of_ne hne]
      exact hi.sane k
  · rintro d (⟨k,i,h⟩ | h)
    · simp only [Instances.set] at h
      rcases eq_or_ne k n with rfl | hne
      · rw [Function.update_self] at h
        rcases hnew i d h with hold | rfl
        · exact .inl (watched_slot hold)
        · exact .inr htarget
      · rw [Function.update_of_ne hne] at h
        exact .inl (watched_slot h)
    · exact .inl (.inr h)

theorem leave_inv (hi : m.Inv event) (t : Nat) :
    Inv event { m with waiters := Function.update m.waiters t none } := by
  refine ⟨hi.sound,hi.sane,?_⟩
  rintro d (h | ⟨t',w,hw,hd⟩)
  · exact hi.live d (.inl h)
  · rcases eq_or_ne t' t with rfl | hne
    · dsimp only at hw
      rw [Function.update_self] at hw
      cases hw
    · dsimp only at hw
      rw [Function.update_of_ne hne] at hw
      exact hi.live d (.inr ⟨t',w,hw,hd⟩)

theorem turn_inv (hi : m.Inv event) (turn : Option Turn) : (turn.elim m m.take).Inv event := by
  cases turn with
  | none => exact hi
  | some turn => exact take_inv hi turn

theorem good_of_safe (hi : m.Inv event) (hstep : Steps address event m step m') (hsafe : m.Safe step m') :
    m.Good step m' ∧ m'.Inv event := by
  have hinv : m'.Inv event := by
    obtain rfl := hstep
    cases step with
    | files call => exact files_inv hi call hsafe
    | «open» pid n flags cloexec => exact opened_inv hi fun _ => .inl rfl
    | create pid flags =>
      rw [next,epollCreate1Impl]
      split_ifs
      · exact hi
      · refine opened_inv hi fun k => ?_
        rcases eq_or_ne k m.files.world.nextEpoll with rfl | hne
        · exact .inr (Function.update_self _ _ _)
        · exact .inl (Function.update_of_ne hne _ _)
    | ctl pid epfd op fd userEvent => exact ctl_inv hi pid epfd op fd userEvent
    | wait t pid epfd maxevents block poll => exact turn_inv hi _
    | resume t poll => exact turn_inv hi _
    | leave t => exact leave_inv hi t
  exact ⟨⟨fun d hd => hi.live d (polled_watched hd),hinv.live⟩,hinv⟩

end Steps

end EpollMachine

theorem epoll_life_run {E : Type} (address : Nat → UInt64) (event : Nat → Option E)
    (steps : List EpollStep)
    (hsafe : Along (EpollMachine.Steps address event) EpollMachine.Safe .start steps) :
    Along (EpollMachine.Steps address event) EpollMachine.Good .start steps :=
  Along.of_safe EpollMachine.good_of_safe EpollMachine.start_inv hsafe

-- The descriptions are 48 bytes long.
def heapAddress (d : Nat) : UInt64 := 0xffff800100000000 + 48 * d.toUInt64

def nodeEvent (d : Nat) : Option Nat := some d

def watchedNode : List EpollStep :=
  [.create 1 0,.open 1 7 0 false,.ctl 1 0 epollCtlAdd 1 ⟨1,0⟩]

def duplicated : List EpollStep :=
  watchedNode ++ [.files (.dupfd 1 1 0 false),.files (.close 1 1),.wait 0 1 0 1 false fun _ _ => 1]

theorem duplicated_live : Along (EpollMachine.Steps heapAddress nodeEvent) EpollMachine.Good .start
    duplicated := by
  apply epoll_life_run
  rintro _ rfl
  refine ⟨trivial,?_⟩
  rintro _ rfl
  refine ⟨trivial,?_⟩
  rintro _ rfl
  refine ⟨trivial,?_⟩
  rintro _ rfl
  constructor
  · rintro d (⟨_ | n,_ | i,h⟩ | ⟨t,w,hw,-⟩)
    · obtain rfl : 1 = d := Option.some.inj h
      exact ⟨(1,1),by decide,not_false⟩
    · cases h
    · cases h
    · cases h
    · cases hw
  rintro _ rfl
  constructor
  · rintro d (⟨_ | n,_ | i,h⟩ | ⟨t,w,hw,-⟩)
    · obtain rfl : 1 = d := Option.some.inj h
      exact ⟨(1,2),by decide,fun hc => absurd hc.2 (by decide)⟩
    · cases h
    · cases h
    · cases h
    · cases hw
  rintro _ rfl
  exact ⟨trivial,trivial⟩

def closedNode : List EpollStep :=
  watchedNode ++ [.files (.close 1 1),.wait 0 1 0 1 false fun _ _ => 1]

theorem closed_polled : ¬Along (EpollMachine.Steps heapAddress nodeEvent) EpollMachine.Good .start
    closedNode := by
  intro h
  obtain ⟨-,h⟩ := h _ rfl
  obtain ⟨-,h⟩ := h _ rfl
  obtain ⟨-,h⟩ := h _ rfl
  obtain ⟨-,h⟩ := h _ rfl
  obtain ⟨⟨hpolled,-⟩,-⟩ := h _ rfl
  exact absurd (hpolled 1 (by decide)) (by decide)

end SabaOS.Userland.Epoll
