import Mathlib.Data.Set.Card
import SabaOS.Fs.DescriptorMoves
import SabaOS.Klib.WrappingRing
import SabaOS.Userland.Pipe

namespace SabaOS.Userland

section Run

open SabaOS.Fs SabaOS.Klib SabaOS.Lib

def oCloexec : UInt64 := 0x80000

inductive VNode where
  | pipe (p : Nat)
  | other (n : Nat)
deriving DecidableEq, Repr

structure Pipes where
  pipes : Nat → Option Pipe
  nextPipe : Nat

namespace Pipes

def update (w : Pipes) (p : Nat) (change : Pipe → Pipe) : Pipes :=
  { w with pipes := Function.update w.pipes p ((w.pipes p).map change) }

-- `close` of the vnode
def vclose (description : FileDescription VNode) (w : Pipes) : Pipes :=
  match description.vnode with
  | .pipe p => w.update p (·.close ⟨description.canRead,description.canWrite⟩)
  | .other _ => w

def new (w : Pipes) : Pipes := ⟨Function.update w.pipes w.nextPipe (some {}),w.nextPipe + 1⟩

end Pipes

def openEnd (f : Files VNode Pipes) (pid p : Nat) (flags : UInt64) (cloexec : Bool) :
    Files VNode Pipes × Nat :=
  let (f,fdnum) := f.openDescription pid (.pipe p) flags cloexec
  let description : FileDescription VNode := ⟨.pipe p,flags,1⟩
  ({ f with world := f.world.update p (·.open ⟨description.canRead,description.canWrite⟩) },fdnum)

def pipeImpl (f : Files VNode Pipes) (pid : Nat) (flags : UInt64) :
    Files VNode Pipes × Except Int (Nat × Nat) :=
  if flags &&& ~~~(oCloexec ||| oNonblock) ≠ 0 then (f,.error (-einval))
  else
    let p := f.world.nextPipe
    let f := { f with world := f.world.new }
    let cloexec := flags &&& oCloexec ≠ 0
    let (f,readEnd) := openEnd f pid p (oRdonly ||| (flags &&& oNonblock)) cloexec
    let (f,writeEnd) := openEnd f pid p (oWronly ||| (flags &&& oNonblock)) cloexec
    (f,.ok (readEnd,writeEnd))

inductive Request where
  | read (count : Nat)
  | write (buf : List UInt8)
deriving DecidableEq, Repr

def Request.call (nonblock : Bool) : Request → PipeCall
  | .read count => .read nonblock count
  | .write buf => .write nonblock buf

-- `sent` and `got` are the bytes accepted from and returned to user space, pipe by pipe.
structure PipeMachine where
  files : Files VNode Pipes
  calls : Nat → Option (Nat × Request)
  sent : Nat → List UInt8
  got : Nat → List UInt8

namespace PipeMachine

def init : PipeMachine where
  files := ⟨fun _ => none,0,fun _ => {},⟨fun _ => none,0⟩⟩
  calls := fun _ => none
  sent := fun _ => []
  got := fun _ => []

def setCall (m : PipeMachine) (t : Nat) (call : Option (Nat × Request)) : PipeMachine :=
  { m with calls := Function.update m.calls t call }

def account (m : PipeMachine) (p : Nat) (request : Request) (a : Int × List UInt8) : PipeMachine :=
  match request with
  | .read _ => { m with got := Function.update m.got p (m.got p ++ a.2) }
  | .write buf => { m with sent := Function.update m.sent p (m.sent p ++ buf.take a.1.toNat) }

-- From the start of a call, or from the end of a wait, up to its next wait or its end.
def serve (m : PipeMachine) (t d : Nat) (request : Request) : PipeMachine :=
  match m.files.descriptions d with
  | none => m
  | some description => match description.vnode with
    | .other _ => m
    | .pipe p => match m.files.world.pipes p with
      | none => m
      | some pipe => match Pipe.attempt (request.call description.nonblock) pipe with
        | .done pipe _ a =>
          let files := { m.files with world := m.files.world.update p fun _ => pipe }
          ({ m with files := files }.account p request a).setCall t none
        | .refuse _ => m.setCall t none
        | .wait => m.setCall t (some (d,request))

inductive Event where
  | files (call : Files.Call)
  | pipe (pid : Nat) (flags : UInt64)
  | open (pid n : Nat) (flags : UInt64) (cloexec : Bool)
  | start (t pid : Nat) (fd : Int) (request : Request)
  | resume (t : Nat)
  | interrupt (t : Nat)
deriving DecidableEq, Repr

def step (m : PipeMachine) : Event → PipeMachine
  | .files call => { m with files := m.files.run Pipes.vclose call }
  | .pipe pid flags => { m with files := (pipeImpl m.files pid flags).1 }
  | .open pid n flags cloexec =>
    { m with files := (m.files.openDescription pid (.other n) flags cloexec).1 }
  | .start t pid fd request =>
    if (m.calls t).isSome then m
    else match (m.files.processes pid).lookup fd with
    | none => m
    | some (_,d) => m.serve t d request
  | .resume t => match m.calls t with
    | none => m
    | some (d,request) => m.serve t d request
  | .interrupt t => m.setCall t none

inductive Reachable : PipeMachine → Prop
  | init : Reachable .init
  | step {m : PipeMachine} (event : Event) : Reachable m → Reachable (m.step event)

theorem Reachable.run {m : PipeMachine} (h : Reachable m) (events : List Event) :
    Reachable (events.foldl PipeMachine.step m) := by
  induction events generalizing m with
  | nil => exact h
  | cons event events ih => exact ih (h.step event)

end PipeMachine

end Run

section Ends

open SabaOS.Fs SabaOS.Klib SabaOS.Lib

def endpoint (description : FileDescription VNode) : VNode × PipeEnd :=
  (description.vnode,⟨description.canRead,description.canWrite⟩)

def endpoints {W : Type} (f : Files VNode W) (d : Nat) : Option (VNode × PipeEnd) :=
  (f.descriptions d).map endpoint

structure Ends (kind : Nat → Option (VNode × PipeEnd)) (p r w : Nat) : Prop where
  reading : kind r = some (.pipe p,⟨true,false⟩)
  writing : kind w = some (.pipe p,⟨false,true⟩)
  only : ∀ d e, kind d = some (.pipe p,e) → d = r ∨ d = w

def present (n : Nat) : UInt64 := if n = 0 then 0 else 1

structure Joined (f : Files VNode Pipes) (p : Nat) (pipe : Pipe) (r w : Nat) : Prop where
  ends : Ends (endpoints f) p r w
  readers : pipe.readers = present (f.refCount r)
  writers : pipe.writers = present (f.refCount w)

structure Piped (f : Files VNode Pipes) : Prop where
  sound : f.Sound
  fresh : ∀ p, f.world.nextPipe ≤ p → f.world.pipes p = none
  known : ∀ d p e, endpoints f d = some (.pipe p,e) → p < f.world.nextPipe
  joined : ∀ p pipe, f.world.pipes p = some pipe → ∃ r w, Joined f p pipe r w

section Endpoints

variable {W : Type} {vclose : FileDescription VNode → W → W} {closes : Nat × Nat → Prop}
  {f f' : Files VNode W} {d : Nat}
  {description : FileDescription VNode}

theorem or_and_word (a b c : UInt64) : (a ||| b) &&& c = (a &&& c) ||| (b &&& c) := by
  apply UInt64.eq_of_toBitVec_eq
  simp only [UInt64.toBitVec_and,UInt64.toBitVec_or,BitVec.and_or_distrib_right]

theorem setfl_accmode (arg : UInt64) :
    (description.setfl arg).flags &&& oAccmode = description.flags &&& oAccmode := by
  have hkept : ~~~setflMask &&& oAccmode = oAccmode := by decide
  have hcleared : setflMask &&& oAccmode = 0 := by decide
  rw [FileDescription.setfl]
  dsimp only
  rw [or_and_word,UInt64.and_assoc,UInt64.and_assoc,hkept,hcleared,UInt64.and_zero,UInt64.or_zero]

theorem endpoint_setfl (arg : UInt64) : endpoint (description.setfl arg) = endpoint description := by
  rw [endpoint,FileDescription.canRead,FileDescription.canWrite,setfl_accmode]
  rfl

theorem endpoints_update (h : f'.descriptions = Function.update f.descriptions d (some description)) :
    endpoints f' = Function.update (endpoints f) d (some (endpoint description)) := by
  funext e
  rw [endpoints,h]
  rcases eq_or_ne e d with rfl | hne
  · rw [Function.update_self,Function.update_self]
    rfl
  · rw [Function.update_of_ne hne,Function.update_of_ne hne]
    rfl

theorem endpoints_kept {old : FileDescription VNode} (hd : f.descriptions d = some old)
    (h : f'.descriptions = Function.update f.descriptions d (some description))
    (hsame : endpoint description = endpoint old) : endpoints f' = endpoints f := by
  rw [endpoints_update h,hsame,Function.update_eq_self_iff,endpoints,hd]
  rfl

theorem endpoints_move (h : Files.Move vclose closes f f') : endpoints f' = endpoints f := by
  cases h with
  | tables hslot hdesc hnext hworld =>
    funext e
    rw [endpoints,endpoints,hdesc]
  | @flags d desc arg hd hslot hdesc hnext hworld => exact endpoints_kept hd hdesc (endpoint_setfl arg)
  | @dup x y d desc hx hy hd hslot hdesc hnext hworld => exact endpoints_kept hd hdesc rfl
  | @close x d desc hc hx hd hslot hdesc hnext hworld => exact endpoints_kept hd hdesc rfl

theorem Ends.extend {kind : Nat → Option (VNode × PipeEnd)} {p r w : Nat} {v : VNode} {e : PipeEnd}
    (h : Ends kind p r w) (hd : kind d = none) (hv : v ≠ .pipe p) :
    Ends (Function.update kind d (some (v,e))) p r w := by
  have hr : r ≠ d := by
    rintro rfl
    cases h.reading.symm.trans hd
  have hw : w ≠ d := by
    rintro rfl
    cases h.writing.symm.trans hd
  refine ⟨(Function.update_of_ne hr _ _).trans h.reading,(Function.update_of_ne hw _ _).trans h.writing,?_⟩
  intro d' e' hd'
  rcases eq_or_ne d' d with rfl | hne
  · rw [Function.update_self] at hd'
    exact absurd (congrArg Prod.fst (Option.some.inj hd')) hv
  · rw [Function.update_of_ne hne] at hd'
    exact h.only d' e' hd'

end Endpoints

section Counts

variable {f f' : Files VNode Pipes} {p d : Nat}

theorem present_succ {n : Nat} : present (n + 1) = 1 := if_neg (Nat.succ_ne_zero n)

theorem vclose_other {desc : FileDescription VNode} {w : Pipes} (h : desc.vnode ≠ .pipe p) :
    (Pipes.vclose desc w).pipes p = w.pipes p := by
  rw [Pipes.vclose]
  split
  · rename_i q hq
    refine Function.update_of_ne ?_ _ _
    rintro rfl
    exact h hq
  · rfl

theorem vclose_pipe {desc : FileDescription VNode} {w : Pipes} (h : desc.vnode = .pipe p) :
    (Pipes.vclose desc w).pipes p =
      (w.pipes p).map (·.close ⟨desc.canRead,desc.canWrite⟩) := by
  rw [Pipes.vclose,h]
  exact Function.update_self _ _ _

theorem vclose_count (desc : FileDescription VNode) (n : Nat) :
    Pipes.vclose { desc with refCount := n } = Pipes.vclose desc := rfl

@[simp] theorem vclose_nextPipe (desc : FileDescription VNode) (w : Pipes) :
    (Pipes.vclose desc w).nextPipe = w.nextPipe := by
  rw [Pipes.vclose]
  split
  · rfl
  · rfl

theorem Ends.ne {kind : Nat → Option (VNode × PipeEnd)} {r w : Nat} (h : Ends kind p r w) : r ≠ w := by
  rintro rfl
  cases h.reading.symm.trans h.writing

theorem Joined.last {pipe : Pipe} {r w : Nat} {e : PipeEnd} (h : Joined f p pipe r w)
    (hd : endpoints f d = some (.pipe p,e)) (hone : f.refCount d = 1)
    (hends : endpoints f' = endpoints f) (hcount : f'.refCount = Function.update f.refCount d 0) :
    Joined f' p (pipe.close e) r w := by
  have hne := h.ends.ne
  refine ⟨hends ▸ h.ends,?_,?_⟩
  · rcases h.ends.only d e hd with rfl | rfl
    · obtain rfl := congrArg Prod.snd (Option.some.inj (hd.symm.trans h.ends.reading))
      rw [hcount,Function.update_self,Pipe.close,if_pos rfl,h.readers,hone]
      rfl
    · obtain rfl := congrArg Prod.snd (Option.some.inj (hd.symm.trans h.ends.writing))
      rw [hcount,Function.update_of_ne hne]
      exact h.readers
  · rcases h.ends.only d e hd with rfl | rfl
    · obtain rfl := congrArg Prod.snd (Option.some.inj (hd.symm.trans h.ends.reading))
      rw [hcount,Function.update_of_ne hne.symm]
      exact h.writers
    · obtain rfl := congrArg Prod.snd (Option.some.inj (hd.symm.trans h.ends.writing))
      rw [hcount,Function.update_self,Pipe.close,if_pos rfl,h.writers,hone]
      rfl

theorem Joined.congr {pipe : Pipe} {r w : Nat} (h : Joined f p pipe r w)
    (hends : endpoints f' = endpoints f)
    (hcount : ∀ d e, endpoints f d = some (.pipe p,e) →
      present (f'.refCount d) = present (f.refCount d)) : Joined f' p pipe r w :=
  ⟨hends ▸ h.ends,h.readers.trans (hcount r _ h.ends.reading).symm,
    h.writers.trans (hcount w _ h.ends.writing).symm⟩

end Counts

section Moves

variable {closes : Nat × Nat → Prop} {f f' : Files VNode Pipes}

theorem vclose_none {desc : FileDescription VNode} {w : Pipes} {p : Nat} (h : w.pipes p = none) :
    (Pipes.vclose desc w).pipes p = none := by
  by_cases hv : desc.vnode = .pipe p
  · rw [vclose_pipe hv,h]
    rfl
  · rw [vclose_other hv,h]

theorem Piped.kept (hf : Piped f) (hf' : f'.Sound) (hends : endpoints f' = endpoints f)
    (hworld : f'.world = f.world)
    (hcount : ∀ d, present (f'.refCount d) = present (f.refCount d)) : Piped f' := by
  refine ⟨hf',hworld ▸ hf.fresh,hends ▸ hworld ▸ hf.known,?_⟩
  intro p pipe hp
  obtain ⟨r,w,hj⟩ := hf.joined p pipe (hworld ▸ hp)
  exact ⟨r,w,hj.congr hends fun d _ _ => hcount d⟩

theorem Piped.move (hf : Piped f) (hm : Files.Move Pipes.vclose closes f f') : Piped f' := by
  have hf' := hf.sound.move hm
  have hends := endpoints_move hm
  cases hm with
  | tables hslot hdesc hnext hworld =>
    refine hf.kept hf' hends hworld fun d => ?_
    rw [Files.refCount,Files.refCount,hdesc]
  | @flags d desc arg hd hslot hdesc hnext hworld =>
    have hsame : (desc.setfl arg).refCount = f.refCount d := (Files.refCount_of hd).symm
    have hcount := Files.refCount_update hsame hdesc
    rw [Function.update_eq_self] at hcount
    exact hf.kept hf' hends hworld fun d => by rw [hcount]
  | @dup x y d desc hx hy hd hslot hdesc hnext hworld =>
    have hcount := Files.refCount_update (n := f.refCount d + 1) (by rw [Files.refCount_of hd]) hdesc
    refine hf.kept hf' hends hworld fun e => ?_
    rw [hcount]
    rcases eq_or_ne e d with rfl | hne
    · obtain ⟨n,hn⟩ := Nat.exists_eq_succ_of_ne_zero (hf.sound.live_iff.mpr ⟨y,hy⟩).ne'
      rw [Function.update_self,hn,present_succ,present_succ]
    · rw [Function.update_of_ne hne]
  | @close x d desc hc hx hd hslot hdesc hnext hworld =>
    have hold := Files.refCount_of hd
    have hpos := hf.sound.live_iff.mpr ⟨x,hx⟩
    have hcount := Files.refCount_update (n := f.refCount d - 1) (by rw [hold]) hdesc
    by_cases hlast : desc.refCount - 1 = 0
    · rw [if_pos hlast,vclose_count] at hworld
      refine ⟨hf',?_,?_,?_⟩
      · intro p hp
        rw [hworld,vclose_nextPipe] at hp
        rw [hworld]
        exact vclose_none (hf.fresh p hp)
      · rw [hends,hworld,vclose_nextPipe]
        exact hf.known
      · intro p pipe' hp'
        rw [hworld] at hp'
        by_cases hv : desc.vnode = .pipe p
        · rw [vclose_pipe hv] at hp'
          obtain ⟨pipe,hp,rfl⟩ := Option.map_eq_some_iff.mp hp'
          obtain ⟨r,w,hj⟩ := hf.joined p pipe hp
          refine ⟨r,w,hj.last (d := d) ?_ (by omega) hends ?_⟩
          · rw [endpoints,hd,← hv]
            rfl
          · rw [hcount,hold,hlast]
        · rw [vclose_other hv] at hp'
          obtain ⟨r,w,hj⟩ := hf.joined p pipe' hp'
          refine ⟨r,w,hj.congr hends fun e k he => ?_⟩
          have hne : e ≠ d := by
            rintro rfl
            rw [endpoints,hd] at he
            exact hv (congrArg Prod.fst (Option.some.inj he))
          rw [hcount,Function.update_of_ne hne]
    · rw [if_neg hlast] at hworld
      refine hf.kept hf' hends hworld fun e => ?_
      rw [hcount]
      rcases eq_or_ne e d with rfl | hne
      · rw [Function.update_self,present,present,if_neg (by omega),if_neg (by omega)]
      · rw [Function.update_of_ne hne]

theorem Piped.moves (hf : Piped f) (hm : Files.Moves Pipes.vclose closes f f') : Piped f' := by
  induction hm with
  | refl => exact hf
  | tail _ hmove ih => exact ih.move hmove

end Moves

section Opens

variable {f : Files VNode Pipes} {pid : Nat} {flags : UInt64} {cloexec : Bool}

theorem endpoints_fresh {W : Type} {f : Files VNode W} (hf : f.Sound) :
    endpoints f f.nextDescription = none := by
  rw [endpoints,hf.fresh _ (Nat.le_refl _)]
  rfl

theorem Joined.extend {f' : Files VNode Pipes} {p : Nat} {pipe : Pipe} {r w d : Nat}
    {desc : FileDescription VNode} (h : Joined f p pipe r w) (hd : endpoints f d = none)
    (hv : desc.vnode ≠ .pipe p)
    (hdesc : f'.descriptions = Function.update f.descriptions d (some desc)) : Joined f' p pipe r w := by
  have hends := h.ends.extend (e := (endpoint desc).2) hd hv
  have hcount := Files.refCount_update rfl hdesc
  have hr : r ≠ d := by
    rintro rfl
    cases h.ends.reading.symm.trans hd
  have hw : w ≠ d := by
    rintro rfl
    cases h.ends.writing.symm.trans hd
  refine ⟨?_,?_,?_⟩
  · rw [endpoints_update hdesc]
    exact hends
  · rw [hcount,Function.update_of_ne hr]
    exact h.readers
  · rw [hcount,Function.update_of_ne hw]
    exact h.writers

theorem Piped.open (hf : Piped f) (n : Nat) :
    Piped (f.openDescription pid (.other n) flags cloexec).1 := by
  obtain ⟨hdesc,hnext,hworld⟩ := Files.openDescription_rest f pid (.other n) flags cloexec
  refine ⟨hf.sound.openDescription,hworld ▸ hf.fresh,?_,?_⟩
  · intro d p e hd
    rw [endpoints_update hdesc] at hd
    rcases eq_or_ne d f.nextDescription with rfl | hne
    · rw [Function.update_self] at hd
      cases congrArg Prod.fst (Option.some.inj hd)
    · rw [Function.update_of_ne hne] at hd
      exact hf.known d p e hd
  · intro p pipe hp
    obtain ⟨r,w,hj⟩ := hf.joined p pipe hp
    exact ⟨r,w,hj.extend (endpoints_fresh hf.sound) (by simp) hdesc⟩

theorem openEnd_rest (f : Files VNode Pipes) (pid p : Nat) (flags : UInt64) (cloexec : Bool) :
    (openEnd f pid p flags cloexec).1.descriptions =
      Function.update f.descriptions f.nextDescription (some ⟨.pipe p,flags,1⟩) ∧
    (openEnd f pid p flags cloexec).1.nextDescription = f.nextDescription + 1 ∧
    (openEnd f pid p flags cloexec).1.world = f.world.update p
      (·.open (endpoint ⟨.pipe p,flags,1⟩).2) := ⟨rfl,rfl,rfl⟩

theorem openEnd_sound (hf : f.Sound) (pid p : Nat) (flags : UInt64) (cloexec : Bool) :
    (openEnd f pid p flags cloexec).1.Sound := by
  have hs : (f.openDescription pid (.pipe p) flags cloexec).1.Sound := hf.openDescription
  exact ⟨hs.held,hs.known,hs.fresh⟩

theorem readEnd_endpoint (p : Nat) (flags : UInt64) (n : Nat) :
    endpoint ⟨.pipe p,oRdonly ||| (flags &&& oNonblock),n⟩ = (.pipe p,⟨true,false⟩) := by
  have hmode : (oRdonly ||| (flags &&& oNonblock)) &&& oAccmode = oRdonly := by
    have hnone : oNonblock &&& oAccmode = 0 := by decide
    rw [or_and_word,UInt64.and_assoc,hnone,UInt64.and_zero]
    decide
  rw [endpoint,FileDescription.canRead,FileDescription.canWrite]
  dsimp only
  rw [hmode]
  rfl

theorem writeEnd_endpoint (p : Nat) (flags : UInt64) (n : Nat) :
    endpoint ⟨.pipe p,oWronly ||| (flags &&& oNonblock),n⟩ = (.pipe p,⟨false,true⟩) := by
  have hmode : (oWronly ||| (flags &&& oNonblock)) &&& oAccmode = oWronly := by
    have hnone : oNonblock &&& oAccmode = 0 := by decide
    rw [or_and_word,UInt64.and_assoc,hnone,UInt64.and_zero]
    decide
  rw [endpoint,FileDescription.canRead,FileDescription.canWrite]
  dsimp only
  rw [hmode]
  rfl

structure Created (f f' : Files VNode Pipes) : Prop where
  sound : f'.Sound
  ends : endpoints f' = Function.update (Function.update (endpoints f) f.nextDescription
    (some (.pipe f.world.nextPipe,⟨true,false⟩))) (f.nextDescription + 1)
    (some (.pipe f.world.nextPipe,⟨false,true⟩))
  count : f'.refCount =
    Function.update (Function.update f.refCount f.nextDescription 1) (f.nextDescription + 1) 1
  pipes : f'.world.pipes =
    Function.update f.world.pipes f.world.nextPipe (some { readers := 1, writers := 1 })
  next : f'.world.nextPipe = f.world.nextPipe + 1

theorem pipeImpl_created (hf : f.Sound) (hflags : ¬ flags &&& ~~~(oCloexec ||| oNonblock) ≠ 0) :
    Created f (pipeImpl f pid flags).1 := by
  rw [pipeImpl,if_neg hflags]
  dsimp only
  generalize decide (flags &&& oCloexec ≠ 0) = cloexec
  have hnew : Files.Sound { f with world := f.world.new } := ⟨hf.held,hf.known,hf.fresh⟩
  obtain ⟨hdesc,hnext,hworld⟩ := openEnd_rest { f with world := f.world.new } pid f.world.nextPipe
    (oRdonly ||| (flags &&& oNonblock)) cloexec
  have hsound := openEnd_sound hnew pid f.world.nextPipe (oRdonly ||| (flags &&& oNonblock)) cloexec
  generalize (openEnd { f with world := f.world.new } pid f.world.nextPipe
    (oRdonly ||| (flags &&& oNonblock)) cloexec).1 = g at *
  obtain ⟨hdesc',-,hworld'⟩ := openEnd_rest g pid f.world.nextPipe
    (oWronly ||| (flags &&& oNonblock)) cloexec
  refine ⟨openEnd_sound hsound _ _ _ _,?_,?_,?_,?_⟩
  · rw [endpoints_update hdesc',endpoints_update hdesc,readEnd_endpoint,writeEnd_endpoint,hnext]
    rfl
  · rw [Files.refCount_update rfl hdesc',Files.refCount_update rfl hdesc,hnext]
    rfl
  · rw [hworld',hworld,readEnd_endpoint,writeEnd_endpoint]
    simp only [Pipes.update,Pipes.new,Function.update_self,Function.update_idem,Option.map_some]
    rfl
  · rw [hworld',hworld]
    rfl

theorem Piped.pipe (hf : Piped f) : Piped (pipeImpl f pid flags).1 := by
  by_cases hflags : flags &&& ~~~(oCloexec ||| oNonblock) ≠ 0
  · rw [pipeImpl,if_pos hflags]
    exact hf
  have h : Created f (pipeImpl f pid flags).1 := pipeImpl_created hf.sound hflags
  generalize (pipeImpl f pid flags).1 = f' at h
  have hfirst := endpoints_fresh hf.sound
  have hsecond : endpoints f (f.nextDescription + 1) = none := by
    rw [endpoints,hf.sound.fresh _ (Nat.le_succ _)]
    rfl
  have hkind : ∀ d v e, endpoints f' d = some (v,e) → v = .pipe f.world.nextPipe ∧
      (d = f.nextDescription ∨ d = f.nextDescription + 1) ∨ endpoints f d = some (v,e) := by
    intro d v e hd
    rw [h.ends] at hd
    rcases eq_or_ne d (f.nextDescription + 1) with rfl | hne
    · rw [Function.update_self] at hd
      cases hd
      exact .inl ⟨rfl,.inr rfl⟩
    · rw [Function.update_of_ne hne] at hd
      rcases eq_or_ne d f.nextDescription with rfl | hne'
      · rw [Function.update_self] at hd
        cases hd
        exact .inl ⟨rfl,.inl rfl⟩
      · rw [Function.update_of_ne hne'] at hd
        exact .inr hd
  refine ⟨h.sound,?_,?_,?_⟩
  · intro p hp
    rw [h.next] at hp
    rw [h.pipes,Function.update_of_ne (by omega)]
    exact hf.fresh p (by omega)
  · intro d p e hd
    rw [h.next]
    rcases hkind d _ e hd with ⟨hv,-⟩ | hold
    · cases hv
      exact Nat.lt_succ_self _
    · exact Nat.lt_succ_of_lt (hf.known d p e hold)
  · intro p pipe hp
    rw [h.pipes] at hp
    rcases eq_or_ne p f.world.nextPipe with rfl | hne
    · rw [Function.update_self] at hp
      cases hp
      refine ⟨f.nextDescription,f.nextDescription + 1,⟨?_,?_,?_⟩,?_,?_⟩
      · rw [h.ends,Function.update_of_ne (Nat.succ_ne_self _).symm,Function.update_self]
      · rw [h.ends,Function.update_self]
      · intro d e hd
        rcases hkind d _ e hd with ⟨-,hd⟩ | hold
        · exact hd
        · exact absurd (hf.known d _ e hold) (Nat.lt_irrefl _)
      · rw [h.count,Function.update_of_ne (Nat.succ_ne_self _).symm,Function.update_self]
        rfl
      · rw [h.count,Function.update_self]
        rfl
    · rw [Function.update_of_ne hne] at hp
      obtain ⟨r,w,hj⟩ := hf.joined p pipe hp
      have hr : ∀ {d e}, endpoints f d = some (.pipe p,e) → f'.refCount d = f.refCount d := by
        intro d e hd
        have h₁ : d ≠ f.nextDescription := by
          rintro rfl
          cases hd.symm.trans hfirst
        have h₂ : d ≠ f.nextDescription + 1 := by
          rintro rfl
          cases hd.symm.trans hsecond
        rw [h.count,Function.update_of_ne h₂,Function.update_of_ne h₁]
      refine ⟨r,w,?_,?_,?_⟩
      · rw [h.ends]
        refine (hj.ends.extend hfirst ?_).extend ?_ ?_
        · simpa using hne.symm
        · rw [Function.update_of_ne (Nat.succ_ne_self _)]
          exact hsecond
        · simpa using hne.symm
      · rw [hr hj.ends.reading]
        exact hj.readers
      · rw [hr hj.ends.writing]
        exact hj.writers

end Opens

end Ends

end SabaOS.Userland
