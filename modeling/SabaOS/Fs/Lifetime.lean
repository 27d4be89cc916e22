import SabaOS.Fs.DescriptorMoves
import SabaOS.Fs.Getcwd
import SabaOS.Fs.Upkeep
import SabaOS.Lib.Tracking

namespace SabaOS.Vfs

open SabaOS.Fs SabaOS.Lib

def oCreat : UInt64 := 0x40

def oExcl : UInt64 := 0x80

def oTrunc : UInt64 := 0x200

def oDirectory : UInt64 := 0x10000

def oNofollow : UInt64 := 0x20000

def oCloexec : UInt64 := 0x80000

namespace State

def hold (s : State) (v : Nat) : State := s.setVNode v fun x => { x with refCount := x.refCount + 1 }

def release (s : State) (v : Nat) : State := s.setVNode v fun x => { x with refCount := x.refCount - 1 }

-- `openat_impl` up to the new description: the vnode, and whether it is to be truncated.
def openable (s : State) (p : Process) (e mode : Nat) (flags : UInt64) :
    Option (State × Except Errno (Nat × Bool)) :=
  match (s.entry e).vnode with
  | none =>
    if flags &&& oCreat = 0 then some (s,.error .enoent)
    else if (s.entry e).parent = none then some (s,.error .enoent)
    else do
      let s ← s.create e .regular p.uid p.gid (some (clear mode p.umask))
      let v ← (s.entry e).vnode
      return (s,.ok (v,false))
  | some v =>
    let nodeType := (s.vnode v).nodeType
    if nodeType = .symlink then if flags &&& oNofollow = 0 then none else some (s,.error .eloop)
    else if flags &&& oExcl ≠ 0 then some (s,.error .eexist)
    else if nodeType = .directory then
      if flags &&& oAccmode = oRdwr ∨ flags &&& oAccmode = oWronly ∨ flags &&& oCreat ≠ 0 then
        some (s,.error .eisdir)
      else some (s,.ok (v,false))
    else if flags &&& oDirectory ≠ 0 then some (s,.error .enotdir)
    else some (s,.ok (v,flags &&& oTrunc ≠ 0 ∧ nodeType = .regular))

-- `new FileDescription`, and `truncate`. The `open` of a tmpfs node does nothing.
def described (s : State) (v : Nat) (truncate : Bool) : State :=
  if truncate then (s.hold v).setVNode v fun x => { x with contents := [] } else s.hold v

end State

structure Ids where
  uid : Nat
  gid : Nat
  umask : Nat
deriving DecidableEq, Repr

-- `dropped` is not part of the system: it holds the vnodes whose count has come down to zero.
structure System where
  files : Files Description State
  cwd : Nat → Nat
  ids : Nat → Ids
  dropped : Nat → Bool

inductive Call where
  | mkdir (dirfd : Int) (path : Path) (mode : Nat)
  | symlink (target : Path) (dirfd : Int) (path : Path)
  | link (oldDirfd : Int) (old : Path) (dirfd : Int) (path : Path)
  | rename (oldDirfd : Int) (old : Path) (dirfd : Int) (path : Path)
  | unlink (dirfd : Int) (path : Path) (flags : Nat)
  | open (dirfd : Int) (path : Path) (flags : UInt64) (mode : Nat)
  | close (fd : Int)
  | chdir (path : Path)

structure Act where
  pid : Nat
  env : Env
  call : Call

def releaseVNode (d : FileDescription Description) (s : State) : State := s.release d.vnode.vnode

namespace System

def tree (sys : System) : State := sys.files.world

def setTree (sys : System) (s : State) : System := { sys with files := { sys.files with world := s } }

-- The process as the calls see it: `get_file_description` finds its descriptions.
def process (sys : System) (pid : Nat) : Process where
  cwd := sys.cwd pid
  description fd := ((sys.files.processes pid).lookup fd).bind fun x =>
    (sys.files.descriptions x.2).map (·.vnode)
  uid := (sys.ids pid).uid
  gid := (sys.ids pid).gid
  umask := (sys.ids pid).umask

def holds (sys : System) (d : Nat) : Option Nat :=
  (sys.files.descriptions d).bind fun desc => if desc.refCount = 0 then none else some desc.vnode.vnode

def request (sys : System) (r : Result) : Option System := r.map fun (s,_) => sys.setTree s

def openat (sys : System) (env : Env) (fuel pid : Nat) (dirfd : Int) (path : Path) (flags : UInt64)
    (mode : Nat) : Option System :=
  match sys.tree.getStartingPoint (sys.process pid) dirfd path with
  | .error _ => some sys
  | .ok start => do
    let (e,s) ← sys.tree.pathToEntry env.frame fuel path start (decide (flags &&& oNofollow = 0))
    let (s,ret) ← s.openable (sys.process pid) e mode flags
    match ret with
    | .error _ => return sys.setTree s
    | .ok (v,truncate) =>
      let files := (sys.setTree (s.described v truncate)).files
      return { sys with files := (files.openDescription pid ⟨e,v⟩ (flags &&& ~~~oCloexec)
                                    (decide (flags &&& oCloexec ≠ 0))).1 }

def call (sys : System) (env : Env) (fuel pid : Nat) : Call → Option System
  | .mkdir dirfd path mode =>
    sys.request (sys.tree.perform env (sys.process pid) fuel dirfd path (.mkdir mode))
  | .symlink target dirfd path =>
    sys.request (sys.tree.perform env (sys.process pid) fuel dirfd path (.symlink target))
  | .link oldDirfd old dirfd path =>
    sys.request (sys.tree.perform env (sys.process pid) fuel dirfd path (.link oldDirfd old))
  | .rename oldDirfd old dirfd path =>
    sys.request (sys.tree.perform env (sys.process pid) fuel dirfd path (.rename oldDirfd old))
  | .unlink dirfd path flags =>
    sys.request (sys.tree.performName env (sys.process pid) fuel dirfd path (.unlink flags))
  | .open dirfd path flags mode => sys.openat env fuel pid dirfd path flags mode
  | .close fd => some { sys with files := (sys.files.close releaseVNode pid fd).1 }
  | .chdir path => (sys.tree.chdir env (sys.process pid) fuel path).map fun (s,p,_) =>
      { sys.setTree s with cwd := Function.update sys.cwd pid p.cwd }

def settle (old sys : System) : System :=
  { sys with dropped := fun v => decide ((sys.tree.vnode v).refCount ≤ 0) &&
      (old.dropped v || decide (0 < (old.tree.vnode v).refCount)) }

def Step (sys : System) (act : Act) (sys' : System) : Prop :=
  ∃ fuel t, sys.call act.env fuel act.pid act.call = some t ∧ sys' = sys.settle t

structure Booted (sys : System) : Prop where
  tree : sys.tree = boot
  cwd : ∀ pid, sys.cwd pid = root
  processes : ∀ pid, sys.files.processes pid = {}
  descriptions : ∀ d, sys.files.descriptions d = none
  dropped : ∀ v, sys.dropped v = false

inductive Reaches (sys : System) : Nat → Prop where
  | root : sys.Reaches root
  | cwd (pid : Nat) : sys.Reaches (sys.cwd pid)
  | child {d c} (hd : sys.Reaches d) (hc : c ∈ (sys.tree.entry d).children) : sys.Reaches c
  | redirect {e r} (he : sys.Reaches e) (hr : (sys.tree.entry e).redirect = some r) : sys.Reaches r

structure Good (sys : System) : Prop where
  names : ∀ d, ((sys.tree.entry d).children.map fun c => (sys.tree.entry c).name).Nodup
  parents : ∀ d, ∀ c ∈ (sys.tree.entry d).children, (sys.tree.entry c).parent = some d
  counted : sys.tree.Counted sys.holds
  alive : ∀ e, sys.Reaches e → ∀ v, (sys.tree.entry e).vnode = some v → sys.dropped v = false

def Above (sys : System) (y : Nat) : Prop :=
  ∃ c, (c = root ∨ ∃ pid, c = sys.cwd pid) ∧
    Relation.ReflTransGen (fun e p => (sys.tree.entry e).parent = some p) c y

def Stood (sys : System) (v : Nat) : Prop := ∃ y, sys.Above y ∧ (sys.tree.entry y).vnode = some v

-- What the code does not check: that a name is not that of `.`, `..` or the root, that a new name is
-- not that of a directory, that the last count of a vnode is not that of a directory in use.
def Safe (sys : System) (act : Act) : Prop :=
  match act.call with
  | .unlink dirfd path flags => ∀ fuel e s v,
      sys.tree.locate act.env (sys.process act.pid) fuel dirfd path = some (.ok (e,s)) →
      (s.entry e).vnode = some v →
      ¬((s.vnode v).nodeType = .directory ∧ flags &&& atRemovedir = 0) →
      e ≠ root ∧ ¬IsDots (s.entry e).name ∧ ((s.vnode v).refCount = 1 → ¬sys.Stood v)
  | .rename oldDirfd old dirfd path => ∀ fuel o s e t,
      sys.tree.locate act.env (sys.process act.pid) fuel oldDirfd old = some (.ok (o,s)) →
      (s.entry o).vnode ≠ none →
      s.locate act.env (sys.process act.pid) fuel dirfd path = some (.ok (e,t)) →
      o ≠ root ∧ ¬IsDots (t.entry o).name ∧ ¬t.IsDir e
  | .close fd => ∀ x desc, (sys.files.processes act.pid).lookup fd = some x →
      sys.files.descriptions x.2 = some desc → desc.refCount = 1 →
      (sys.tree.vnode desc.vnode.vnode).refCount = 1 → ¬sys.Stood desc.vnode.vnode
  | _ => True

end System

theorem Whole.openable {s s' : State} {opened : Nat → Option Nat} {p : Process} {e mode : Nat}
    {flags : UInt64} {ret : Except Errno (Nat × Bool)} (h : Whole s opened) (hfound : FoundAt s e)
    (hs : s.openable p e mode flags = some (s',ret)) : Whole s' opened ∧ Rises s s' ∧
      ∀ v truncate, ret = .ok (v,truncate) → (s'.entry e).vnode = some v := by
  simp only [State.openable] at hs
  cases hv : (s.entry e).vnode with
  | none =>
    simp only [hv] at hs
    split_ifs at hs with hcreat hpar
    · cases hs
      exact ⟨h,.refl,fun _ _ hret => by cases hret⟩
    · cases hs
      exact ⟨h,.refl,fun _ _ hret => by cases hret⟩
    · simp only [Option.bind_eq_bind,Option.bind_eq_some_iff] at hs
      obtain ⟨t,ht,v,hvt,⟨⟩⟩ := hs
      obtain ⟨hwhole,hrises,-⟩ := h.created hfound hv hpar (by decide) ht
      refine ⟨hwhole,hrises,?_⟩
      rintro _ _ ⟨⟩
      exact hvt
  | some v =>
    have hfail : ∀ err, (s,Except.error err) = (s',ret) → Whole s' opened ∧ Rises s s' ∧
        ∀ v truncate, ret = .ok (v,truncate) → (s'.entry e).vnode = some v := by
      rintro err ⟨⟩
      exact ⟨h,.refl,fun _ _ hret => by cases hret⟩
    have hdone : ∀ truncate, (s,Except.ok (v,truncate)) = (s',ret) → Whole s' opened ∧ Rises s s' ∧
        ∀ v truncate, ret = .ok (v,truncate) → (s'.entry e).vnode = some v := by
      rintro truncate ⟨⟩
      refine ⟨h,.refl,?_⟩
      rintro _ _ ⟨⟩
      exact hv
    simp only [hv] at hs
    split_ifs at hs
    · exact hfail _ (Option.some.inj hs)
    · exact hfail _ (Option.some.inj hs)
    · exact hfail _ (Option.some.inj hs)
    · exact hdone _ (Option.some.inj hs)
    · exact hfail _ (Option.some.inj hs)
    · exact hdone _ (Option.some.inj hs)

namespace System

structure Sound (sys : System) : Prop where
  files : sys.files.Sound
  whole : Whole sys.tree sys.holds
  described : ∀ d desc, sys.files.descriptions d = some desc →
    desc.vnode.entry < sys.tree.numEntries ∧ desc.vnode.vnode < sys.tree.numVNodes
  cwds : ∀ pid, sys.tree.IsDir (sys.cwd pid)
  settled : ∀ v, sys.dropped v = true → (sys.tree.vnode v).refCount ≤ 0
  spared : ∀ v, sys.Stood v → sys.dropped v = false

variable {sys t : System} {s : State} {e v pid : Nat} {env : Env} {fuel : Nat} {act : Act}

namespace Sound

variable (h : sys.Sound)

include h

theorem above_isDir {y : Nat} (hy : sys.Above y) : sys.tree.IsDir y := by
  obtain ⟨c,hc,hchain⟩ := hy
  induction hchain with
  | refl =>
    rcases hc with rfl | ⟨pid,rfl⟩
    · exact h.whole.proper.root_vnode
    · exact h.cwds pid
  | tail _ hp _ => exact h.whole.neat.parents _ _ hp

theorem within (pid : Nat) : Within sys.tree (sys.process pid) := by
  refine ⟨h.whole.neat.lt_of_isDir (h.cwds pid),fun fd d hd => ?_⟩
  obtain ⟨x,-,hx⟩ := Option.bind_eq_some_iff.mp hd
  obtain ⟨desc,hdesc,rfl⟩ := Option.map_eq_some_iff.mp hx
  exact (h.described x.2 desc hdesc).1

theorem reaches_spared (he : sys.Reaches e) :
    ∀ y, Relation.ReflTransGen (fun e p => (sys.tree.entry e).parent = some p) e y →
      ∀ v, (sys.tree.entry y).vnode = some v → sys.dropped v = false := by
  have hn := h.whole.neat
  induction he with
  | root => exact fun y hy v hv => h.spared v ⟨y,⟨root,.inl rfl,hy⟩,hv⟩
  | cwd pid => exact fun y hy v hv => h.spared v ⟨y,⟨_,.inr ⟨pid,rfl⟩,hy⟩,hv⟩
  | @child d c _ hc ih =>
    have hp := hn.proper.linked d c hc
    intro y hy v hv
    rcases hy.cases_head with rfl | ⟨q,hq,hy⟩
    · by_cases hdots : IsDots (sys.tree.entry c).name
      · obtain ⟨r,hr⟩ := Option.ne_none_iff_exists'.mp (hn.dotted c hdots)
        obtain ⟨z,hz,hrz,hsame⟩ := hn.aliases c r hr
        obtain rfl : d = z := Option.some.inj (hp.symm.trans hz)
        refine ih r ?_ v (hsame ▸ hv)
        rcases hrz with rfl | hrz
        · exact .refl
        · exact .single hrz
      · have hpos := h.whole.counted.pos ((naming_linked hp hc hdots).trans hv)
        cases hdrop : sys.dropped v with
        | false => rfl
        | true =>
          have hle := h.settled v hdrop
          omega
    · obtain rfl : d = q := Option.some.inj (hp.symm.trans hq)
      exact ih y hy v hv
  | @redirect e r _ hr ih =>
    obtain ⟨d,hd,hrd,-⟩ := hn.aliases e r hr
    intro y hy
    refine ih y (.head hd ?_)
    rcases hrd with rfl | hrd
    · exact hy
    · exact .head hrd hy

theorem good : sys.Good where
  names d := (h.whole.proper.nodup d).map_on fun c hc c' hc' heq => h.whole.neat.names d c hc c' hc' heq
  parents := h.whole.proper.linked
  counted := h.whole.counted
  alive e he v hv := h.reaches_spared he e .refl v hv

theorem above_onward (ho : Onward sys.tree s) {c y : Nat} (hc : sys.Above c)
    (hy : Relation.ReflTransGen (fun e p => (s.entry e).parent = some p) c y) : sys.Above y := by
  induction hy with
  | refl => exact hc
  | tail _ hp ih =>
    obtain ⟨c,hc,hchain⟩ := ih
    have hlt := h.whole.neat.lt_of_isDir (h.above_isDir ⟨c,hc,hchain⟩)
    rw [ho.grows.parent _ hlt] at hp
    exact ⟨c,hc,hchain.tail hp⟩

omit h in
theorem settle_dropped (hdropped : sys.dropped v = false)
    (hcount : 0 < (sys.tree.vnode v).refCount → 0 < (t.tree.vnode v).refCount) :
    (sys.settle t).dropped v = false := by
  simp only [settle,hdropped,Bool.false_or,Bool.and_eq_false_iff,decide_eq_false_iff_not]
  omega

omit h in
theorem settle_settled (hv : (sys.settle t).dropped v = true) : (t.tree.vnode v).refCount ≤ 0 := by
  simp only [settle,Bool.and_eq_true,decide_eq_true_eq] at hv
  exact hv.1

theorem advance (hfiles : t.files.Sound) (hwhole : Whole t.tree t.holds)
    (hdescribed : ∀ d desc, t.files.descriptions d = some desc →
      desc.vnode.entry < t.tree.numEntries ∧ desc.vnode.vnode < t.tree.numVNodes)
    (ho : Onward sys.tree t.tree) (hcwd : t.cwd = sys.cwd)
    (hspared : ∀ v, sys.Stood v → 0 < (sys.tree.vnode v).refCount → 0 < (t.tree.vnode v).refCount) :
    (sys.settle t).Sound := by
  refine ⟨hfiles,hwhole,hdescribed,fun pid => ?_,fun v => settle_settled,?_⟩
  · exact ho.isDir h.whole.proper ((congrFun hcwd pid).symm ▸ h.cwds pid)
  · rintro v ⟨y,⟨c,hc,hchain⟩,hv⟩
    have hbase : sys.Above c := by
      refine ⟨c,?_,.refl⟩
      exact hc.imp id fun ⟨pid,hpid⟩ => ⟨pid,hpid.trans (congrFun hcwd pid)⟩
    have hy := h.above_onward ho hbase hchain
    have hstood : sys.Stood v := ⟨y,hy,(ho.dirs y (h.above_isDir hy)).symm.trans hv⟩
    exact settle_dropped (h.spared v hstood) (hspared v hstood)

theorem count_le (hr : Rises sys.tree s) (hv : sys.Stood v)
    (hpos : 0 < (sys.tree.vnode v).refCount) : 0 < (s.vnode v).refCount := by
  obtain ⟨y,hy,hvy⟩ := hv
  exact Int.lt_of_lt_of_le hpos (hr.counts y v (h.above_isDir hy) hvy)

theorem setTree (hwhole : Whole s sys.holds) (ho : Onward sys.tree s)
    (hspared : ∀ v, sys.Stood v → 0 < (sys.tree.vnode v).refCount → 0 < (s.vnode v).refCount) :
    (sys.settle (sys.setTree s)).Sound := by
  refine h.advance ⟨h.files.held,h.files.known,h.files.fresh⟩ hwhole (fun d desc hd => ?_) ho rfl hspared
  obtain ⟨he,hv⟩ := h.described d desc hd
  exact ⟨Nat.lt_of_lt_of_le he ho.grows.entries,Nat.lt_of_lt_of_le hv ho.grows.vnodes⟩

theorem request {r : Result} (hr : ∀ s' ret, r = some (s',ret) → Whole s' sys.holds ∧ Rises sys.tree s')
    (ht : sys.request r = some t) : (sys.settle t).Sound := by
  obtain ⟨⟨s',ret⟩,hs,rfl⟩ := Option.map_eq_some_iff.mp ht
  obtain ⟨hwhole,hrises⟩ := hr s' ret hs
  exact h.setTree hwhole hrises.onward fun v => h.count_le hrises

theorem atPath {dirfd : Int} {path : Path} {k : Nat → State → Result}
    (hk : ∀ e s s' ret, Whole s sys.holds → FoundAt s e → k e s = some (s',ret) →
      Whole s' sys.holds ∧ Rises s s')
    (ht : sys.request (sys.tree.locateThen env (sys.process pid) fuel dirfd path k) = some t) :
    (sys.settle t).Sound := by
  refine h.request (fun s' ret hs => ?_) ht
  refine h.whole.locateThen (Q := fun x => Whole x sys.holds ∧ Rises sys.tree x) (h.within pid)
    ⟨h.whole,.refl⟩ ?_ hs
  intro e s _ hl hret
  obtain ⟨hwhole,hrises⟩ := hk e s s' ret hl.whole hl.found hret
  exact ⟨hwhole,hl.rises h.whole.proper hrises⟩

theorem link {oldDirfd dirfd : Int} {old path : Path} (ht : sys.request (sys.tree.perform env
    (sys.process pid) fuel dirfd path (.link oldDirfd old)) = some t) : (sys.settle t).Sound := by
  refine h.request (fun s' ret hs => ?_) ht
  refine h.whole.locateBoth (h.within pid) ?_ hs
  intro o t e u v _ _ _ hwhole _ hfound hv hret
  exact hwhole.linkAt hfound hv hret

theorem rename {oldDirfd dirfd : Int} {old path : Path}
    (hsafe : sys.Safe ⟨pid,env,.rename oldDirfd old dirfd path⟩) (ht : sys.request (sys.tree.perform env
      (sys.process pid) fuel dirfd path (.rename oldDirfd old)) = some t) : (sys.settle t).Sound := by
  refine h.request (fun s' ret hs => ?_) ht
  refine h.whole.locateBoth (h.within pid) ?_ hs
  intro o t e u v hold hlive hnew hwhole hfoundOld hfound hv hret
  obtain ⟨hroot,hdots,hfile⟩ := hsafe fuel o t e u hold hlive hnew
  exact hwhole.renameAt hfoundOld hroot hdots hv hfound hfile hret

theorem unlink {dirfd : Int} {path : Path} {flags : Nat}
    (hsafe : sys.Safe ⟨pid,env,.unlink dirfd path flags⟩) (ht : sys.request (sys.tree.performName env
      (sys.process pid) fuel dirfd path (.unlink flags)) = some t) : (sys.settle t).Sound := by
  obtain ⟨⟨s',ret⟩,hs,rfl⟩ := Option.map_eq_some_iff.mp ht
  refine h.whole.locateThen (Q := fun x => (sys.settle (sys.setTree x)).Sound) (h.within pid) ?_ ?_ hs
  · exact h.setTree h.whole .refl fun v _ => id
  · intro e s hloc hl hret
    have hsafe' := fun v hv hrefused => hsafe fuel e s v hloc hv hrefused
    obtain ⟨hwhole,honward,hcounts⟩ := hl.whole.unlinkAt hl.found
      (fun v hv hrefused => ⟨(hsafe' v hv hrefused).1,(hsafe' v hv hrefused).2.1⟩) hret
    refine h.setTree hwhole (hl.onward.trans h.whole.proper honward) fun v hstood hpos => ?_
    rw [← hl.vnodes] at hpos
    rcases hcounts v with heq | ⟨hv,hrefused,heq⟩
    · omega
    · have hne : (s.vnode v).refCount ≠ 1 := fun hone => (hsafe' v hv hrefused).2.2 hone hstood
      omega

omit h in
theorem holds_none (hd : sys.files.descriptions e = none) : sys.holds e = none := by
  rw [holds,hd]
  rfl

omit h in
theorem holds_update {files : Files Description State} {d : Nat} {desc : FileDescription Description}
    (hdesc : files.descriptions = Function.update sys.files.descriptions d (some desc)) (x : Nat) :
    ({ sys with files := files } : System).holds x =
      Function.update sys.holds d (if desc.refCount = 0 then none else some desc.vnode.vnode) x := by
  rw [holds,hdesc]
  rcases eq_or_ne x d with rfl | hx
  · rw [Function.update_self,Function.update_self]
    rfl
  · rw [Function.update_of_ne hx,Function.update_of_ne hx]
    rfl

theorem withFiles {files : Files Description State} {d : Nat} {desc : FileDescription Description}
    (hfiles : files.Sound) (hworld : files.world = s)
    (hdesc : files.descriptions = Function.update sys.files.descriptions d (some desc))
    (hnew : desc.vnode.entry < s.numEntries ∧ desc.vnode.vnode < s.numVNodes)
    (hwhole : Whole s ({ sys with files := files } : System).holds) (ho : Onward sys.tree s)
    (hspared : ∀ v, sys.Stood v → 0 < (sys.tree.vnode v).refCount → 0 < (s.vnode v).refCount) :
    (sys.settle { sys with files := files }).Sound := by
  subst hworld
  refine h.advance hfiles hwhole (fun x other hx => ?_) ho rfl hspared
  simp only [hdesc] at hx
  rcases eq_or_ne x d with rfl | hne
  · rw [Function.update_self,Option.some.injEq] at hx
    exact hx ▸ hnew
  · rw [Function.update_of_ne hne] at hx
    obtain ⟨he,hv⟩ := h.described x other hx
    exact ⟨Nat.lt_of_lt_of_le he ho.grows.entries,Nat.lt_of_lt_of_le hv ho.grows.vnodes⟩

theorem close {fd : Int} (hsafe : sys.Safe ⟨pid,env,.close fd⟩) :
    (sys.settle { sys with files := (sys.files.close releaseVNode pid fd).1 }).Sound := by
  rw [Files.close]
  cases hl : (sys.files.processes pid).lookup fd with
  | none => exact h.advance h.files h.whole h.described .refl rfl fun _ _ => id
  | some x =>
    obtain ⟨fdnum,d⟩ := x
    dsimp only
    have hslot : sys.files.slot (pid,fdnum) = some d := Files.lookup_some hl
    obtain ⟨desc,hdesc,hpos⟩ := h.files.description hslot
    obtain ⟨-,hdescs,-,hworld⟩ := Files.closeDescriptor_spec releaseVNode hslot hdesc
    have hmoves : Files.Moves releaseVNode (fun _ => True) sys.files
        (sys.files.closeDescriptor releaseVNode pid fdnum) :=
      Files.closeDescriptor_moves releaseVNode h.files trivial
    have hsound := h.files.moves hmoves
    have hlive : sys.holds d = some desc.vnode.vnode := by
      rw [holds,hdesc,Option.bind_some,if_neg (Nat.ne_of_gt hpos)]
    have hopened : ∀ x, ({ sys with files := sys.files.closeDescriptor releaseVNode pid fdnum } :
        System).holds x = Function.update sys.holds d
          (if desc.refCount - 1 = 0 then none else some desc.vnode.vnode) x := holds_update hdescs
    by_cases hlast : desc.refCount = 1
    · have hzero : desc.refCount - 1 = 0 := by omega
      simp only [hzero,if_true] at hopened
      rw [if_pos hzero] at hworld
      obtain ⟨hwhole,ho⟩ := h.whole.release hlive hopened
      refine h.withFiles hsound hworld hdescs (h.described d desc hdesc) hwhole ho fun v hstood hvpos => ?_
      have hone := fun heq => hsafe (fdnum,d) desc hl hdesc hlast heq
      rw [releaseVNode,State.release,State.setVNode]
      rcases eq_or_ne v desc.vnode.vnode with rfl | hne
      · have hne : (sys.tree.vnode desc.vnode.vnode).refCount ≠ 1 := fun heq => hone heq hstood
        simp only [Function.update_self]
        show 0 < (sys.tree.vnode desc.vnode.vnode).refCount - 1
        omega
      · simp only [Function.update_of_ne hne]
        exact hvpos
    · have hmore : desc.refCount - 1 ≠ 0 := by omega
      rw [if_neg hmore] at hworld
      have hsame : ({ sys with files := sys.files.closeDescriptor releaseVNode pid fdnum } :
          System).holds = sys.holds := by
        funext x
        rw [hopened,if_neg hmore]
        rcases eq_or_ne x d with rfl | hne
        · rw [Function.update_self,hlive]
        · rw [Function.update_of_ne hne]
      refine h.withFiles hsound hworld hdescs (h.described d desc hdesc) ?_ .refl fun _ _ => id
      rw [hsame]
      exact h.whole

theorem opened (hwhole : Whole s sys.holds) (hr : Rises sys.tree s) {truncate : Bool}
    (hv : (s.entry e).vnode = some v) {flags : UInt64} {cloexec : Bool} :
    (sys.settle { sys with files := ((sys.setTree (s.described v truncate)).files.openDescription pid
      ⟨e,v⟩ flags cloexec).1 }).Sound := by
  let files := (sys.setTree (s.described v truncate)).files
  have hsound : (files.openDescription pid ⟨e,v⟩ flags cloexec).1.Sound :=
    Files.Sound.openDescription ⟨h.files.held,h.files.known,h.files.fresh⟩
  obtain ⟨hdescs,-,hworld⟩ := Files.openDescription_rest files pid ⟨e,v⟩ flags cloexec
  have hnone : sys.holds sys.files.nextDescription = none :=
    holds_none (h.files.fresh _ (Nat.le_refl _))
  have hopened : ∀ x, ({ sys with files := (files.openDescription pid ⟨e,v⟩ flags cloexec).1 } :
      System).holds x = Function.update sys.holds sys.files.nextDescription (some v) x :=
    holds_update hdescs
  have hvlt := hwhole.proper.vnode_lt e v hv
  obtain ⟨hheld,hrises⟩ := hwhole.hold hvlt hnone hopened
  have hdone : Whole (s.described v truncate) ({ sys with files :=
      (files.openDescription pid ⟨e,v⟩ flags cloexec).1 } : System).holds ∧
        Rises s (s.described v truncate) := by
    cases truncate with
    | false => exact ⟨hheld,hrises⟩
    | true =>
      obtain ⟨hcut,hrises'⟩ := hheld.setContents (v := v) (List.not_mem_nil (a := 0))
      exact ⟨hcut,hrises.trans hwhole.proper hrises'⟩
  have hall := hr.trans h.whole.proper hdone.2
  refine h.withFiles hsound hworld hdescs ⟨?_,?_⟩ hdone.1 hall.onward fun v => h.count_le hall
  · exact Nat.lt_of_lt_of_le (hwhole.proper.tree.lt_of_vnode hv) hdone.2.onward.grows.entries
  · exact Nat.lt_of_lt_of_le hvlt hdone.2.onward.grows.vnodes

theorem openat {dirfd : Int} {path : Path} {flags : UInt64} {mode : Nat}
    (ht : sys.openat env fuel pid dirfd path flags mode = some t) : (sys.settle t).Sound := by
  simp only [System.openat] at ht
  cases hstart : sys.tree.getStartingPoint (sys.process pid) dirfd path with
  | error err =>
    simp only [hstart,Option.some.injEq] at ht
    exact ht ▸ h.advance h.files h.whole h.described .refl rfl fun _ _ => id
  | ok start =>
    simp only [hstart,Option.bind_eq_bind,Option.bind_eq_some_iff] at ht
    obtain ⟨⟨e,s⟩,hpath,⟨s',ret⟩,hopen,ht⟩ := ht
    have hl : Located sys.tree s sys.holds e :=
      h.whole.located (getStartingPoint_lt (h.within pid) hstart) hpath
    obtain ⟨hwhole,hrises,hv⟩ := hl.whole.openable hl.found hopen
    have hall : Rises sys.tree s' := hl.rises h.whole.proper hrises
    cases ret with
    | error err => exact Option.some.inj ht ▸ h.setTree hwhole hall.onward fun v => h.count_le hall
    | ok vt =>
      obtain ⟨v,truncate⟩ := vt
      exact Option.some.inj ht ▸ h.opened hwhole hall (hv v truncate rfl)

omit h in
theorem reaches_reduce (he : sys.Reaches e) : sys.Reaches (sys.tree.reduce e) := by
  rw [State.reduce]
  generalize sys.tree.numEntries = n
  induction n generalizing e with
  | zero => exact he
  | succ n ih =>
    rw [State.reduceWithin]
    cases hr : (sys.tree.entry e).redirect with
    | none => exact he
    | some r => exact ih (he.redirect hr)

theorem reaches_path {path : Path} {follow : Bool} {frame : Walk → List UInt8}
    (hr : sys.tree.pathToEntry frame fuel path (some (sys.cwd pid)) follow = some (e,s))
    (hv : (s.entry e).vnode = some v) : s = sys.tree ∧ sys.Reaches e := by
  have ht := h.whole.proper.tree
  have hs : s = sys.tree := ht.pathToEntry_live hr hv
  have harrives : Arrives sys.tree sys.Reaches (e,s) := by
    refine ht.pathToEntry_arrives .root ?_ (fun d c hd hc => reaches_reduce (hd.child hc))
      (fun d hd => reaches_reduce hd) hr
    rintro x ⟨⟩
    exact reaches_reduce (.cwd pid)
  subst hs
  refine ⟨rfl,?_⟩
  cases harrives with
  | fixed _ he =>
    rcases he with rfl | rfl
    · simp only [ht.null_vnode] at hv
      cases hv
    · exact .root
  | child d hd _ he => exact hd.child he
  | fresh d name hd _ _ _ hs =>
    have hnum := congrArg State.numEntries hs
    simp only [lookupNew_numEntries] at hnum
    omega

theorem entered (he : sys.Reaches e) (hdir : sys.tree.IsDir e) :
    (sys.settle { sys with cwd := Function.update sys.cwd pid e }).Sound := by
  refine ⟨h.files,h.whole,h.described,fun other => ?_,fun v => settle_settled,?_⟩
  · show sys.tree.IsDir (Function.update sys.cwd pid e other)
    rcases eq_or_ne other pid with rfl | hne
    · rwa [Function.update_self]
    · rw [Function.update_of_ne hne]
      exact h.cwds other
  · rintro v ⟨y,⟨c,hc,hchain⟩,hv⟩
    have hreaches : sys.Reaches c := by
      rcases hc with rfl | ⟨other,rfl⟩
      · exact .root
      · show sys.Reaches (Function.update sys.cwd pid e other)
        rcases eq_or_ne other pid with rfl | hne
        · rwa [Function.update_self]
        · rw [Function.update_of_ne hne]
          exact .cwd other
    exact settle_dropped (h.reaches_spared hreaches y hchain v hv) id

theorem chdir {path : Path} (ht : (sys.tree.chdir env (sys.process pid) fuel path).map (fun r =>
    { sys.setTree r.1 with cwd := Function.update sys.cwd pid r.2.1.cwd }) = some t) :
    (sys.settle t).Sound := by
  obtain ⟨⟨s',p,ret⟩,hs,rfl⟩ := Option.map_eq_some_iff.mp ht
  obtain ⟨⟨e,s⟩,hpath,hret⟩ := Option.map_eq_some_iff.mp hs
  have hstart : ∀ x, some (sys.cwd pid) = some x → x < sys.tree.numEntries := by
    rintro x ⟨⟩
    exact (h.within pid).cwd
  have hl : Located sys.tree s sys.holds e := h.whole.located hstart hpath
  have hstay : (sys.settle { sys.setTree s with
      cwd := Function.update sys.cwd pid (sys.process pid).cwd }).Sound := by
    rw [show Function.update sys.cwd pid (sys.process pid).cwd = sys.cwd from
      Function.update_eq_self pid sys.cwd]
    exact h.setTree hl.whole hl.onward fun v => h.count_le (.of_same hl.onward hl.vnodes)
  cases hv : (s.entry e).vnode with
  | none =>
    simp only [hv,Prod.mk.injEq] at hret
    obtain ⟨rfl,rfl,-⟩ := hret
    exact hstay
  | some v =>
    simp only [hv] at hret
    split_ifs at hret with hdir
    · obtain ⟨rfl,rfl,-⟩ := Prod.mk.inj hret
      exact hstay
    · obtain ⟨rfl,hp⟩ := Prod.mk.inj hret
      obtain ⟨rfl,he⟩ := h.reaches_path hpath hv
      rw [← (Prod.mk.inj hp).1]
      exact h.entered he ⟨v,hv,not_not.mp hdir⟩

theorem step (hs : sys.Step act t) (hsafe : sys.Safe act) : t.Sound := by
  obtain ⟨fuel,u,hu,rfl⟩ := hs
  obtain ⟨pid,env,call⟩ := act
  cases call with
  | mkdir dirfd path mode =>
    exact h.atPath (fun e s s' ret hwhole hfound hret => hwhole.mkdirAt hfound hret) hu
  | symlink target dirfd path =>
    exact h.atPath (fun e s s' ret hwhole hfound hret => hwhole.symlinkAt hfound hret) hu
  | link oldDirfd old dirfd path => exact h.link hu
  | rename oldDirfd old dirfd path => exact h.rename hsafe hu
  | unlink dirfd path flags => exact h.unlink hsafe hu
  | «open» dirfd path flags mode => exact h.openat hu
  | close fd =>
    obtain rfl := Option.some.inj hu
    exact h.close hsafe
  | chdir path => exact h.chdir hu

end Sound

end System

-- The root holds its two dots.
example : (boot.entry root).children = [3,2] := by decide +kernel

theorem boot_entries {P : Nat → Entry → Prop} (hold : ∀ e < 4, P e (boot.entry e))
    (hblank : ∀ e, P e .blank) (e : Nat) : P e (boot.entry e) := by
  rcases Nat.lt_or_ge e 4 with hlt | hge
  · exact hold e hlt
  · exact Proper.boot.tree.blank e hge ▸ hblank e

theorem Neat.boot : Neat boot := by
  have hroot : Vfs.boot.IsDir root := ⟨0,rfl,rfl⟩
  refine ⟨.boot,?_,?_,?_,?_⟩
  · refine boot_entries (P := fun _ x => ∀ c ∈ x.children, ∀ c' ∈ x.children,
      (Vfs.boot.entry c).name = (Vfs.boot.entry c').name → c = c') ?_ ?_
    · decide +kernel
    · rintro e c ⟨⟩
  · intro e p hp
    have hcase : (Vfs.boot.entry e).parent = none ∨ (Vfs.boot.entry e).parent = some root :=
      boot_entries (P := fun _ x => x.parent = none ∨ x.parent = some root) (by decide +kernel)
        (fun _ => .inl rfl) e
    rcases hcase with hnone | hsome
    · rw [hp] at hnone
      cases hnone
    · exact Option.some.inj (hp.symm.trans hsome) ▸ hroot
  · refine boot_entries (P := fun _ x => IsDots x.name → x.redirect ≠ none) ?_ ?_
    · decide +kernel
    · rintro _ (hdots | hdots)
      · cases hdots
      · cases hdots
  · intro c r hr
    have hcase : (Vfs.boot.entry c).redirect = none ∨ (Vfs.boot.entry c).redirect = some root ∧
        (Vfs.boot.entry c).parent = some root ∧ (Vfs.boot.entry c).vnode = some 0 :=
      boot_entries (P := fun _ x => x.redirect = none ∨ x.redirect = some root ∧
        x.parent = some root ∧ x.vnode = some 0) (by decide +kernel) (fun _ => .inl rfl) c
    rcases hcase with hnone | ⟨hred,hp,hv⟩
    · rw [hr] at hnone
      cases hnone
    · obtain rfl : r = root := Option.some.inj (hr.symm.trans hred)
      exact ⟨root,hp,.inl rfl,hv⟩

theorem Furnished.boot : Furnished boot := by
  intro e hdir hred n hn
  have hcase : (Vfs.boot.entry e).vnode = none ∨ (Vfs.boot.entry e).redirect ≠ none ∨
      (Vfs.boot.entry e).children = [3,2] :=
    boot_entries (P := fun _ x => x.vnode = none ∨ x.redirect ≠ none ∨ x.children = [3,2])
      (by decide +kernel) (fun _ => .inl rfl) e
  rcases hcase with hnone | hne | hch
  · exact absurd hdir (not_isDir hnone)
  · exact absurd hred hne
  · rw [hch]
    rcases hn with rfl | rfl
    · exact ⟨2,by decide,by decide +kernel⟩
    · exact ⟨3,by decide,by decide +kernel⟩

theorem boot_refCount (v : Nat) : (boot.vnode v).refCount = 0 := by
  rcases Nat.eq_zero_or_pos v with rfl | hv
  · rfl
  · have hne : v ≠ 0 := Nat.ne_of_gt hv
    simp [boot,State.setVNode,State.addDots,State.newVNode,State.setEntry,State.addChild,State.new,
      VNode.fresh,hne]

theorem Whole.boot {opened : Nat → Option Nat} (hopened : ∀ d, opened d = none) :
    Whole boot opened := by
  have hnaming : ∀ e, Vfs.boot.naming e = none := by
    intro e
    rcases Nat.lt_or_ge e 4 with hlt | hge
    · have hall : ∀ e < 4, Vfs.boot.naming e = none := by decide +kernel
      exact hall e hlt
    · refine naming_none ?_
      rw [Proper.boot.tree.blank e hge]
      rfl
  refine ⟨.boot,.boot,⟨fun _ => 0,fun _ => 0,Held.nil.congr hnaming,Held.nil.congr hopened,
    boot_refCount⟩,fun d v hd => ?_⟩
  rw [hopened] at hd
  cases hd

namespace System

variable {sys t : System}

theorem Booted.sound (h : sys.Booted) : sys.Sound := by
  have hslot : ∀ x, sys.files.slot x = none := by
    intro x
    rw [Files.slot,h.processes]
    rfl
  have hcount : sys.files.refCount = fun _ => 0 := by
    funext d
    rw [Files.refCount,h.descriptions]
    rfl
  refine ⟨⟨?_,?_,fun d _ => h.descriptions d⟩,?_,?_,fun pid => ?_,?_,fun v _ => h.dropped v⟩
  · rw [hcount]
    exact Held.nil.congr hslot
  · intro x d hx
    rw [hslot] at hx
    cases hx
  · rw [h.tree]
    exact .boot fun d => Sound.holds_none (h.descriptions d)
  · intro d desc hd
    rw [h.descriptions] at hd
    cases hd
  · rw [h.tree,h.cwd]
    exact ⟨0,rfl,rfl⟩
  · intro v hv
    rw [h.dropped] at hv
    cases hv

theorem lifetime_kept {acts : List Act} (hboot : sys.Booted)
    (hsafe : Along Step (fun sys act _ => sys.Safe act) sys acts) (hrun : Runs Step sys acts t) :
    t.Good := by
  have hsound : t.Sound := hsafe.runs (fun h hs hsafe => h.step hs hsafe) hboot.sound hrun
  exact hsound.good

def booted : System where
  files := ⟨fun _ => none,0,fun _ => {},boot⟩
  cwd _ := root
  ids _ := ⟨0,0,0⟩
  dropped _ := false

theorem booted_booted : booted.Booted := ⟨rfl,fun _ => rfl,fun _ => rfl,fun _ => rfl,fun _ => rfl⟩

def replay (sys : System) : List Call → Option System
  | [] => some sys
  | call :: calls => (sys.call plainEnv 4 0 call).bind fun t => (sys.settle t).replay calls

theorem runs_replay {calls : List Call} (h : sys.replay calls = some t) :
    Runs Step sys (calls.map fun call => ⟨0,plainEnv,call⟩) t := by
  induction calls generalizing sys with
  | nil => exact Option.some.inj h
  | cons call calls ih =>
    obtain ⟨u,hu,hrest⟩ := Option.bind_eq_some_iff.mp h
    exact ⟨sys.settle u,⟨4,u,hu,rfl⟩,ih hrest⟩

def pathA : Path := [47,97]

def pathB : Path := [47,98]

def kept : List Call := [.mkdir atFdcwd pathA 0o755,.chdir pathA,.open atFdcwd [102] oCreat 0o644]

example : (booted.replay [.chdir [47]]).isSome := by decide +kernel

theorem kept_isSome : (booted.replay kept).isSome := by decide +kernel

theorem lifetime_kept_file : ((booted.replay kept).get kept_isSome).Good := by
  refine lifetime_kept booted_booted ?_ (runs_replay (Option.some_get kept_isSome).symm)
  exact fun _ _ => ⟨trivial,fun _ _ => ⟨trivial,fun _ _ => ⟨trivial,trivial⟩⟩⟩

def rootRemoved : List Call := [.unlink atFdcwd [47] atRemovedir]

def directoryReplaced : List Call :=
  [.mkdir atFdcwd pathA 0o755,.mkdir atFdcwd pathB 0o755,.rename atFdcwd pathA atFdcwd pathB]

def cwdRemoved : List Call :=
  [.mkdir atFdcwd pathA 0o755,.chdir pathA,.unlink atFdcwd pathA atRemovedir]

example : (booted.replay [.mkdir atFdcwd pathA 0o755,.unlink atFdcwd pathA atRemovedir]).isSome := by
  decide +kernel

theorem rootRemoved_isSome : (booted.replay rootRemoved).isSome := by decide +kernel

theorem directoryReplaced_isSome : (booted.replay directoryReplaced).isSome := by decide +kernel

theorem cwdRemoved_isSome : (booted.replay cwdRemoved).isSome := by decide +kernel

-- The root is counted below zero, a directory has its dots twice, and a count of zero is that of
-- the working directory.
theorem lifetime_lost : booted.Booted ∧
    ∀ calls ∈ [rootRemoved,directoryReplaced,cwdRemoved],
      ∃ acts t, booted.replay calls = some t ∧ Runs Step booted acts t ∧ ¬t.Good := by
  have hbad : ∀ {calls : List Call} (hsome : (booted.replay calls).isSome),
      ¬((booted.replay calls).get hsome).Good →
      ∃ acts t, booted.replay calls = some t ∧ Runs Step booted acts t ∧ ¬t.Good := by
    intro calls hsome hnot
    have heq := (Option.some_get hsome).symm
    exact ⟨_,_,heq,runs_replay heq,hnot⟩
  refine ⟨booted_booted,?_⟩
  intro calls hcalls
  simp only [List.mem_cons,List.not_mem_nil,or_false] at hcalls
  rcases hcalls with rfl | rfl | rfl
  · refine hbad rootRemoved_isSome fun h => ?_
    obtain ⟨links,opens,-,-,hsum⟩ := h.counted
    have hcount : (((booted.replay rootRemoved).get rootRemoved_isSome).tree.vnode 0).refCount = -1 := by
      decide +kernel
    have := hsum 0
    omega
  · refine hbad directoryReplaced_isSome fun h => ?_
    have hnames := h.names 7
    exact absurd hnames (by decide +kernel)
  · refine hbad cwdRemoved_isSome fun h => ?_
    have halive := h.alive _ (.cwd 0) 1 (by decide +kernel)
    exact absurd halive (by decide +kernel)

end System

end SabaOS.Vfs
