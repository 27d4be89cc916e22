import SabaOS.Userland.PipeEnds

namespace SabaOS.Userland

open SabaOS.Fs SabaOS.Klib SabaOS.Lib

abbrev PipeRing : Type := RingBuffer UInt8 pipeCapacity

def rings (w : Pipes) (p : Nat) : Option PipeRing := (w.pipes p).map (·.ringBuffer)

def queued (w : Pipes) (p : Nat) : List UInt8 := (rings w p).elim [] RingBuffer.queue

structure Accounts (m : PipeMachine) : Prop where
  piped : Piped m.files
  wrapping : ∀ p ring, rings m.files.world p = some ring → ring.Wrapping
  exact : ∀ p, m.sent p = m.got p ++ queued m.files.world p

section Rings

variable {closes : Nat × Nat → Prop} {f f' : Files VNode Pipes}

theorem rings_vclose (desc : FileDescription VNode) (w : Pipes) : rings (Pipes.vclose desc w) = rings w := by
  funext p
  rw [rings]
  by_cases hv : desc.vnode = .pipe p
  · rw [vclose_pipe hv,Option.map_map]
    rfl
  · rw [vclose_other hv]
    rfl

theorem rings_move (hm : Files.Move Pipes.vclose closes f f') : rings f'.world = rings f.world := by
  cases hm with
  | tables hslot hdesc hnext hworld => rw [hworld]
  | flags hd hslot hdesc hnext hworld => rw [hworld]
  | dup hx hy hd hslot hdesc hnext hworld => rw [hworld]
  | close hc hx hd hslot hdesc hnext hworld =>
    rw [hworld]
    split_ifs
    · exact rings_vclose _ _
    · rfl

theorem rings_moves (hm : Files.Moves Pipes.vclose closes f f') : rings f'.world = rings f.world := by
  induction hm with
  | refl => rfl
  | tail _ hmove ih => exact (rings_move hmove).trans ih

theorem ring_new : (({} : Pipe).ringBuffer).Wrapping ∧ ({} : Pipe).ringBuffer.queue = [] :=
  ⟨⟨by decide,by decide,by decide,by decide,by decide,by decide⟩,rfl⟩

end Rings

section Served

variable {pipe pipe' : Pipe} {nonblock drop : Bool} {a : Int × List UInt8}

theorem read_done {count : Nat} (hr : pipe.ringBuffer.Wrapping)
    (h : pipe.read nonblock count = .done pipe' drop a) :
    pipe'.ringBuffer.Wrapping ∧ pipe.ringBuffer.queue = a.2 ++ pipe'.ringBuffer.queue ∧
      pipe'.readers = pipe.readers ∧ pipe'.writers = pipe.writers := by
  rw [Pipe.read] at h
  split_ifs at h
  obtain ⟨htake,hdrop,hwrap⟩ := hr.read_spec count
  generalize pipe.ringBuffer.read count = r at *
  cases h
  dsimp only
  rw [htake,hdrop,List.take_append_drop]
  exact ⟨hwrap,rfl,rfl,rfl⟩

theorem write_done {buf : List UInt8} (hr : pipe.ringBuffer.Wrapping)
    (h : pipe.write nonblock buf = .done pipe' drop a) :
    pipe'.ringBuffer.Wrapping ∧
      pipe'.ringBuffer.queue = pipe.ringBuffer.queue ++ buf.take a.1.toNat ∧
      pipe'.readers = pipe.readers ∧ pipe'.writers = pipe.writers := by
  rw [Pipe.write] at h
  split_ifs at h
  obtain ⟨-,hqueue,hwrap⟩ := hr.write_spec buf
  generalize pipe.ringBuffer.write buf = r at *
  cases h
  exact ⟨hwrap,hqueue,rfl,rfl⟩

theorem attempt_done {request : Request} (hr : pipe.ringBuffer.Wrapping)
    (h : Pipe.attempt (request.call nonblock) pipe = .done pipe' drop a) :
    pipe'.ringBuffer.Wrapping ∧ pipe'.readers = pipe.readers ∧ pipe'.writers = pipe.writers := by
  cases request with
  | read count =>
    obtain ⟨hwrap,-,hrest⟩ := read_done hr h
    exact ⟨hwrap,hrest⟩
  | write buf =>
    obtain ⟨hwrap,-,hrest⟩ := write_done hr h
    exact ⟨hwrap,hrest⟩

end Served

section Update

variable {w : Pipes} {p : Nat} {pipe : Pipe}

theorem pipes_update (hp : w.pipes p = some pipe) (pipe' : Pipe) (q : Nat) :
    (w.update p fun _ => pipe').pipes q = if q = p then some pipe' else w.pipes q := by
  rw [Pipes.update]
  dsimp only
  rw [hp,Function.update_apply]
  rfl

theorem rings_update (hp : w.pipes p = some pipe) (pipe' : Pipe) (q : Nat) :
    rings (w.update p fun _ => pipe') q = if q = p then some pipe'.ringBuffer else rings w q := by
  rw [rings,pipes_update hp]
  split_ifs
  · rfl
  · rfl

theorem Piped.ring {f : Files VNode Pipes} {pipe' : Pipe} (hf : Piped f)
    (hp : f.world.pipes p = some pipe) (hreaders : pipe'.readers = pipe.readers)
    (hwriters : pipe'.writers = pipe.writers) :
    Piped { f with world := f.world.update p fun _ => pipe' } := by
  have hpipes := pipes_update hp pipe'
  refine ⟨⟨hf.sound.held,hf.sound.known,hf.sound.fresh⟩,?_,hf.known,?_⟩
  · intro q hq
    dsimp only
    rw [hpipes,if_neg]
    · exact hf.fresh q hq
    · rintro rfl
      cases hp.symm.trans (hf.fresh q hq)
  · intro q pipe'' hq
    dsimp only at hq
    rw [hpipes] at hq
    split_ifs at hq with heq
    · cases hq
      obtain ⟨r,w,hj⟩ := hf.joined q pipe (heq ▸ hp)
      exact ⟨r,w,hj.ends,hreaders.trans hj.readers,hwriters.trans hj.writers⟩
    · obtain ⟨r,w,hj⟩ := hf.joined q pipe'' hq
      exact ⟨r,w,hj.ends,hj.readers,hj.writers⟩

end Update

namespace Accounts

variable {m : PipeMachine}

theorem files (h : Accounts m) {f : Files VNode Pipes} (hf : Piped f)
    (hrings : rings f.world = rings m.files.world) : Accounts { m with files := f } := by
  refine ⟨hf,hrings ▸ h.wrapping,fun p => ?_⟩
  rw [queued,hrings]
  exact h.exact p

theorem setCall (h : Accounts m) (t : Nat) (call : Option (Nat × Request)) :
    Accounts (m.setCall t call) := ⟨h.piped,h.wrapping,h.exact⟩

theorem pipe (h : Accounts m) (pid : Nat) (flags : UInt64) :
    Accounts { m with files := (pipeImpl m.files pid flags).1 } := by
  by_cases hflags : flags &&& ~~~(oCloexec ||| oNonblock) ≠ 0
  · rw [pipeImpl,if_pos hflags]
    exact h
  have hnew : Created m.files (pipeImpl m.files pid flags).1 := pipeImpl_created h.piped.sound hflags
  have hold : rings m.files.world m.files.world.nextPipe = none := by
    rw [rings,h.piped.fresh _ (Nat.le_refl _)]
    rfl
  have hrings : ∀ p, rings (pipeImpl m.files pid flags).1.world p =
      if p = m.files.world.nextPipe then some ({} : Pipe).ringBuffer else rings m.files.world p := by
    intro p
    rw [rings,hnew.pipes,Function.update_apply]
    split_ifs
    · rfl
    · rfl
  refine ⟨h.piped.pipe,?_,?_⟩
  · intro p ring hp
    dsimp only at hp
    rw [hrings] at hp
    split_ifs at hp
    · cases hp
      exact ring_new.1
    · exact h.wrapping p ring hp
  · intro p
    rw [h.exact p,queued,queued]
    dsimp only
    rw [hrings]
    split_ifs with heq
    · rw [heq,hold]
      rfl
    · rfl

theorem transfer (h : Accounts m) {p : Nat} {pipe pipe' : Pipe} {nonblock drop : Bool}
    {request : Request} {a : Int × List UInt8} (hp : m.files.world.pipes p = some pipe)
    (ha : Pipe.attempt (request.call nonblock) pipe = .done pipe' drop a) :
    Accounts (({ m with files := { m.files with world := m.files.world.update p fun _ => pipe' } } :
      PipeMachine).account p request a) := by
  have hring : rings m.files.world p = some pipe.ringBuffer := by
    rw [rings,hp]
    rfl
  have hr := h.wrapping p _ hring
  have hrings := rings_update hp pipe'
  have hother : ∀ q, q ≠ p → queued (m.files.world.update p fun _ => pipe') q =
      queued m.files.world q := by
    intro q hq
    rw [queued,queued,hrings,if_neg hq]
  have hself : queued (m.files.world.update p fun _ => pipe') p = pipe'.ringBuffer.queue := by
    rw [queued,hrings,if_pos rfl]
    rfl
  have hbefore : m.sent p = m.got p ++ pipe.ringBuffer.queue := by
    rw [h.exact p,queued,hring]
    rfl
  obtain ⟨hwrap,hreaders,hwriters⟩ := attempt_done hr ha
  have hpiped := h.piped.ring hp hreaders hwriters
  have hwrapping : ∀ q ring, rings (m.files.world.update p fun _ => pipe') q = some ring →
      ring.Wrapping := by
    intro q ring hq
    rw [hrings] at hq
    split_ifs at hq
    · cases hq
      exact hwrap
    · exact h.wrapping q ring hq
  cases request with
  | read count =>
    obtain ⟨-,hqueue,-⟩ := read_done hr ha
    refine ⟨hpiped,hwrapping,fun q => ?_⟩
    simp only [PipeMachine.account,Function.update_apply]
    split_ifs with hq
    · rw [hq,hself,List.append_assoc,← hqueue,hbefore]
    · rw [hother q hq,h.exact q]
  | write buf =>
    obtain ⟨-,hqueue,-⟩ := write_done hr ha
    refine ⟨hpiped,hwrapping,fun q => ?_⟩
    simp only [PipeMachine.account,Function.update_apply]
    split_ifs with hq
    · rw [hq,hself,hqueue,hbefore,List.append_assoc]
    · rw [hother q hq,h.exact q]

theorem serve (h : Accounts m) (t d : Nat) (request : Request) : Accounts (m.serve t d request) := by
  rw [PipeMachine.serve]
  split
  · exact h
  · split
    · exact h
    · split
      · exact h
      · rename_i pipe hp
        split
        · rename_i ha
          exact (h.transfer hp ha).setCall t none
        · exact h.setCall t none
        · exact h.setCall t _

theorem step (h : Accounts m) (event : PipeMachine.Event) : Accounts (m.step event) := by
  cases event with
  | files call =>
    have hmoves := Files.run_moves Pipes.vclose h.piped.sound call
    exact h.files (h.piped.moves hmoves) (rings_moves hmoves)
  | pipe pid flags => exact h.pipe pid flags
  | «open» pid n flags cloexec => exact h.files (h.piped.open n) rfl
  | start t pid fd request =>
    rw [PipeMachine.step]
    split_ifs
    · exact h
    · split
      · exact h
      · exact h.serve t _ request
  | resume t =>
    rw [PipeMachine.step]
    split
    · exact h
    · exact h.serve t _ _
  | interrupt t => exact h.setCall t none

theorem init : Accounts .init where
  piped := {
    sound := ⟨Held.nil,nofun,fun _ _ => rfl⟩
    fresh := fun _ _ => rfl
    known := nofun
    joined := nofun }
  wrapping := nofun
  exact := fun _ => rfl

theorem of_reachable (h : PipeMachine.Reachable m) : Accounts m := by
  induction h with
  | init => exact init
  | step event _ ih => exact ih.step event

end Accounts

def PipeMachine.holders (m : PipeMachine) (p : Nat) (opened : FileDescription VNode → Bool) : Set Nat :=
  {d | ∃ description, m.files.descriptions d = some description ∧ description.vnode = .pipe p ∧
    0 < description.refCount ∧ opened description = true}

section Holders

variable {m : PipeMachine} {p x : Nat} {opened : FileDescription VNode → Bool} {e : PipeEnd}

theorem holders_eq (hx : endpoints m.files x = some (.pipe p,e))
    (hopened : ∀ d desc, m.files.descriptions d = some desc → desc.vnode = .pipe p →
      (opened desc = true ↔ d = x)) :
    m.holders p opened = if m.files.refCount x = 0 then ∅ else {x} := by
  obtain ⟨desc,hd,hdesc⟩ := Option.map_eq_some_iff.mp hx
  have hv : desc.vnode = .pipe p := congrArg Prod.fst hdesc
  have hcount := Files.refCount_of hd
  apply Set.ext
  intro d
  constructor
  · rintro ⟨desc',hd',hv',hpos,hopen⟩
    obtain rfl := (hopened d desc' hd' hv').mp hopen
    rw [Files.refCount_of hd',if_neg hpos.ne']
    exact Set.mem_singleton d
  · intro hmem
    split_ifs at hmem with h0
    · exact absurd hmem (Set.notMem_empty d)
    · obtain rfl := Set.mem_singleton_iff.mp hmem
      exact ⟨desc,hd,hv,by omega,(hopened d desc hd hv).mpr rfl⟩

theorem holders_card (h : m.holders p opened = if m.files.refCount x = 0 then ∅ else {x}) :
    ((present (m.files.refCount x)).toNat : ℕ∞) = (m.holders p opened).encard ∧
      (present (m.files.refCount x) = 0 ↔ m.holders p opened = ∅) := by
  rw [h,present]
  split_ifs
  · rw [Set.encard_empty]
    exact ⟨rfl,iff_of_true rfl rfl⟩
  · rw [Set.encard_singleton]
    exact ⟨rfl,iff_of_false (by decide) (Set.singleton_ne_empty x)⟩

theorem Joined.opened_iff {f : Files VNode Pipes} {pipe : Pipe} {r w d : Nat} {desc : FileDescription VNode}
    (h : Joined f p pipe r w) (hd : f.descriptions d = some desc) (hv : desc.vnode = .pipe p) :
    (desc.canRead = true ↔ d = r) ∧ (desc.canWrite = true ↔ d = w) := by
  have hkind : endpoints f d = some (.pipe p,⟨desc.canRead,desc.canWrite⟩) := by
    rw [endpoints,hd,← hv]
    rfl
  have hne := h.ends.ne
  rcases h.ends.only d _ hkind with rfl | rfl
  · have he := congrArg Prod.snd (Option.some.inj (hkind.symm.trans h.ends.reading))
    injection he with hread hwrite
    rw [hread,hwrite]
    exact ⟨iff_of_true rfl rfl,iff_of_false Bool.false_ne_true hne⟩
  · have he := congrArg Prod.snd (Option.some.inj (hkind.symm.trans h.ends.writing))
    injection he with hread hwrite
    rw [hread,hwrite]
    exact ⟨iff_of_false Bool.false_ne_true hne.symm,iff_of_true rfl rfl⟩

end Holders

section Replies

variable {pipe : Pipe}

theorem read_zero_iff (hr : pipe.ringBuffer.Wrapping) (nonblock : Bool) {count : Nat} (hc : count ≠ 0) :
    answer (pipe.read nonblock count) = .ret 0 ↔
      pipe.ringBuffer.isEmpty = true ∧ pipe.writers = 0 := by
  rw [Pipe.read]
  split_ifs with hempty hwriters hnonblock
  · exact iff_of_true rfl ⟨hempty,hwriters⟩
  · exact iff_of_false (by decide) fun h => hwriters h.2
  · exact iff_of_false (by decide) fun h => hwriters h.2
  · refine iff_of_false ?_ fun h => hempty h.1
    obtain ⟨htake,-⟩ := hr.read_spec count
    have hsome : pipe.ringBuffer.queue ≠ [] := fun h => hempty (RingBuffer.isEmpty_iff_queue.mpr h)
    have hlen := List.length_pos_of_ne_nil hsome
    simp only [answer,Reply.ret.injEq]
    rw [htake,List.length_take]
    omega

theorem write_epipe_iff (nonblock : Bool) (buf : List UInt8) :
    answer (pipe.write nonblock buf) = .ret (-epipe) ↔ pipe.readers = 0 := by
  rw [Pipe.write]
  split_ifs with hreaders hfull hnonblock
  · exact iff_of_true rfl hreaders
  · exact iff_of_false (by decide) hreaders
  · exact iff_of_false (by decide) hreaders
  · refine iff_of_false ?_ hreaders
    simp only [answer,Reply.ret.injEq,epipe]
    omega

end Replies

theorem pipe_fifo {m : PipeMachine} (h : PipeMachine.Reachable m) {p : Nat} {pipe : Pipe}
    (hp : m.files.world.pipes p = some pipe) :
    m.got p <+: m.sent p ∧
    (pipe.readers.toNat : ℕ∞) = (m.holders p (·.canRead)).encard ∧
    (pipe.writers.toNat : ℕ∞) = (m.holders p (·.canWrite)).encard ∧
    (∀ nonblock count, count ≠ 0 → (answer (pipe.read nonblock count) = .ret 0 ↔
      pipe.ringBuffer.isEmpty = true ∧ m.holders p (·.canWrite) = ∅)) ∧
    ∀ nonblock buf, answer (pipe.write nonblock buf) = .ret (-epipe) ↔
      m.holders p (·.canRead) = ∅ := by
  have hm := Accounts.of_reachable h
  obtain ⟨r,w,hj⟩ := hm.piped.joined p pipe hp
  have hring : rings m.files.world p = some pipe.ringBuffer := by
    rw [rings,hp]
    rfl
  have hread := holders_eq hj.ends.reading fun d desc hd hv => (hj.opened_iff hd hv).1
  have hwrite := holders_eq hj.ends.writing fun d desc hd hv => (hj.opened_iff hd hv).2
  obtain ⟨hreaders,hreader⟩ := holders_card hread
  obtain ⟨hwriters,hwriter⟩ := holders_card hwrite
  rw [← hj.readers] at hreaders hreader
  rw [← hj.writers] at hwriters hwriter
  refine ⟨⟨queued m.files.world p,(hm.exact p).symm⟩,hreaders,hwriters,?_,?_⟩
  · intro nonblock count hc
    rw [read_zero_iff (hm.wrapping p _ hring) nonblock hc,hwriter]
  · intro nonblock buf
    rw [write_epipe_iff,hreader]

def exchange : List PipeMachine.Event :=
  [.pipe 1 0,.files (.fork 1 2),.start 1 2 1 (.write [1,2,3]),.start 2 1 0 (.read 2),
    .files (.close 1 1)]

theorem exchange_fifo : ∃ pipe,
    (exchange.foldl PipeMachine.step .init).files.world.pipes 0 = some pipe ∧
    (exchange.foldl PipeMachine.step .init).got 0 = [1,2] ∧
    [1,2] <+: (exchange.foldl PipeMachine.step .init).sent 0 ∧
    (answer (pipe.read true 1) = .ret 0 ↔ pipe.ringBuffer.isEmpty = true ∧
      (exchange.foldl PipeMachine.step .init).holders 0 (·.canWrite) = ∅) := by
  have hp : ∃ pipe, (exchange.foldl PipeMachine.step .init).files.world.pipes 0 = some pipe := ⟨_,rfl⟩
  have hgot : (exchange.foldl PipeMachine.step .init).got 0 = [1,2] := by decide
  obtain ⟨pipe,hp⟩ := hp
  obtain ⟨hfifo,-,-,hread,-⟩ := pipe_fifo (PipeMachine.Reachable.run .init exchange) hp
  exact ⟨pipe,hp,hgot,hgot ▸ hfifo,hread true 1 (by decide)⟩

end SabaOS.Userland
