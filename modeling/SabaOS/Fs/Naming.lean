import SabaOS.Fs.Negative

namespace SabaOS.Vfs

section Naming

open SabaOS.Fs SabaOS.Lib

structure Description where
  entry : Nat
  vnode : Nat
deriving DecidableEq, Repr

structure Process where
  cwd : Nat
  description : Int → Option Description
  uid : Nat
  gid : Nat
  umask : Nat

def atFdcwd : Int := -100

def modeTypeMask : Nat := 0o170000

-- The devices that have an initializer, and the memory that follows `new_path`.
structure Env where
  registered : NodeType → Nat → Bool
  frame : Walk → List UInt8

def mknodType (env : Env) (requested dev : Nat) : Except Errno (NodeType × Bool) :=
  if requested = 0 ∨ requested = 0o100000 then .ok (.regular,false)
  else if requested = 0o020000 ∧ env.registered .charDevice dev then .ok (.charDevice,true)
  else if requested = 0o060000 ∧ env.registered .blockDevice dev then .ok (.blockDevice,true)
  else if requested = 0o010000 then .ok (.fifo,true)
  else .error .einval

abbrev Result := Option (State × Except Errno Unit)

def fail (s : State) (err : Errno) : Result := some (s,.error err)

def done (s : State) : Result := some (s,.ok ())

def clear (bits mask : Nat) : Nat := bits - (bits &&& mask)

namespace State

def getStartingPoint (s : State) (p : Process) (dirfd : Int) (path : Path) :
    Except Errno (Option Nat) :=
  if path.headD 0 = slash then .ok none
  else if dirfd = atFdcwd then .ok (some p.cwd)
  else match p.description dirfd with
    | none => .error .ebadf
    | some d =>
      if (s.vnode d.vnode).nodeType ≠ .directory then .error .enotdir
      else .ok (some d.entry)

-- `get_starting_point` and the call of `path_to_entry` that follows it.
def locate (s : State) (env : Env) (p : Process) (fuel : Nat) (dirfd : Int) (path : Path) :
    Option (Except Errno (Nat × State)) :=
  match s.getStartingPoint p dirfd path with
  | .error err => some (.error err)
  | .ok start => (s.pathToEntry env.frame fuel path start true).map .ok

def setVnode (s : State) (e : Nat) (v : Option Nat) : State :=
  s.setEntry e fun x => { x with vnode := v }

def mkdirAt (s : State) (p : Process) (e mode : Nat) : Result :=
  if (s.entry e).vnode ≠ none then fail s .eexist
  else if (s.entry e).parent = none then fail s .enoent
  else do
    let s ← s.create e .directory p.uid p.gid (some (clear mode p.umask &&& 0o777))
    done s

def mknodAt (s : State) (env : Env) (p : Process) (e mode dev : Nat) : Result :=
  if (s.entry e).vnode ≠ none then fail s .eexist
  else if (s.entry e).parent = none then fail s .enoent
  else match mknodType env (mode &&& modeTypeMask) dev with
    | .error err => fail s err
    | .ok (nodeType,made) => do
      let s := if made then s.newVNode e (.fresh nodeType) else s
      let mode := clear (clear mode modeTypeMask) p.umask &&& 0o777
      let s ← s.create e nodeType p.uid p.gid mode
      done s

def symlinkAt (s : State) (p : Process) (e : Nat) (target : List UInt8) : Result :=
  if (s.entry e).parent = none then fail s .enoent
  else if (s.entry e).vnode ≠ none then fail s .eexist
  else do
    let s ← s.create e .symlink p.uid p.gid (some 0o777)
    let v ← (s.entry e).vnode
    done (s.setVNode v fun x => { x with contents := cstr target })

def linkAt (s : State) (v : Option Nat) (e : Nat) : Result :=
  if (s.entry e).vnode ≠ none then fail s .eexist
  else do
    let s ← (s.setVnode e v).create e .hardLink none none none
    done s

def removeIfPresent (s : State) (e : Nat) : Option State :=
  if (s.entry e).vnode = none then some s else s.remove e

def renameAt (s : State) (old e : Nat) : Result := do
  let s ← s.removeIfPresent e
  let s ← (s.setVnode e (s.entry old).vnode).create e .hardLink none none none
  let s ← s.remove old
  done s

end State

inductive Request where
  | link (oldDirfd : Int) (old : Path)
  | rename (oldDirfd : Int) (old : Path)
  | mkdir (mode : Nat)
  | mknod (mode dev : Nat)
  | symlink (target : Path)
deriving DecidableEq, Repr

namespace State

def locateThen (s : State) (env : Env) (p : Process) (fuel : Nat) (dirfd : Int) (path : Path)
    (k : Nat → State → Result) : Result :=
  match s.locate env p fuel dirfd path with
  | none => none
  | some (.error err) => fail s err
  | some (.ok (e,s')) => k e s'

def locateBoth (s : State) (env : Env) (p : Process) (fuel : Nat) (oldDirfd : Int) (old : Path)
    (dirfd : Int) (path : Path) (k : Nat → Nat → State → Result) : Result :=
  s.locateThen env p fuel oldDirfd old fun o s =>
    if (s.entry o).vnode = none then fail s .enoent
    else s.locateThen env p fuel dirfd path fun e s => k o e s

def perform (s : State) (env : Env) (p : Process) (fuel : Nat) (dirfd : Int) (path : Path) :
    Request → Result
  | .link oldDirfd old => s.locateBoth env p fuel oldDirfd old dirfd path fun o e s =>
      s.linkAt (s.entry o).vnode e
  | .rename oldDirfd old => s.locateBoth env p fuel oldDirfd old dirfd path fun o e s =>
      s.renameAt o e
  | .mkdir mode => s.locateThen env p fuel dirfd path fun e s => s.mkdirAt p e mode
  | .mknod mode dev => s.locateThen env p fuel dirfd path fun e s => s.mknodAt env p e mode dev
  | .symlink target => s.locateThen env p fuel dirfd path fun e s => s.symlinkAt p e target

end State

-- `vfs::init`: the root and the null entry, and a tmpfs mounted on the root.
def boot : State :=
  let s : State := ⟨fun _ => .blank,fun _ => .fresh .regular,2,0⟩
  ((s.newVNode root (.fresh .directory)).addDots root 0 root).setVNode 0
    fun x => { x with uid := some 0, gid := some 0, mode := 0o755 }

def plainEnv : Env := ⟨fun _ _ => false,fun _ => []⟩

def rootProcess : Process := ⟨root,fun _ => none,0,0,0⟩

end Naming

section Kept

open SabaOS.Fs SabaOS.Lib

structure Kept (P : State → Prop) : Prop where
  path : ∀ {s frame fuel path start follow r}, P s →
    s.pathToEntry frame fuel path start follow = some r → P r.2
  create : ∀ {s e nodeType uid gid mode s'}, P s →
    s.create e nodeType uid gid mode = some s' → P s'
  node : ∀ {s e parent nodeType}, P s → (s.entry e).parent = some parent →
    P (s.newVNode e (.fresh nodeType))
  target : ∀ {s v} (target : Path), P s → P (s.setVNode v fun x => { x with contents := cstr target })
  link : ∀ {s o e s'}, P s →
    (s.setVnode e (s.entry o).vnode).create e .hardLink none none none = some s' → P s'
  remove : ∀ {s e s'}, P s → s.remove e = some s' → P s'

namespace Kept

variable {P : State → Prop} {s s' : State} {env : Env} {p : Process} {e o fuel : Nat} {dirfd : Int}
variable {path : Path} {ret : Except Errno Unit} {k : Nat → State → Result}

theorem mkdirAt (hP : Kept P) (h : P s) {mode : Nat} (hs : s.mkdirAt p e mode = some (s',ret)) :
    P s' := by
  simp only [State.mkdirAt,fail,done] at hs
  split_ifs at hs
  · cases hs
    exact h
  · cases hs
    exact h
  · simp only [Option.bind_eq_bind,Option.bind_eq_some_iff,Option.some.injEq] at hs
    obtain ⟨t,ht,⟨⟩⟩ := hs
    exact hP.create h ht

theorem symlinkAt (hP : Kept P) (h : P s) {target : Path}
    (hs : s.symlinkAt p e target = some (s',ret)) : P s' := by
  simp only [State.symlinkAt,fail,done] at hs
  split_ifs at hs
  · cases hs
    exact h
  · cases hs
    exact h
  · simp only [Option.bind_eq_bind,Option.bind_eq_some_iff,Option.some.injEq] at hs
    obtain ⟨t,ht,v,-,⟨⟩⟩ := hs
    exact hP.target target (hP.create h ht)

theorem mknodAt (hP : Kept P) (h : P s) {mode dev : Nat}
    (hs : s.mknodAt env p e mode dev = some (s',ret)) : P s' := by
  simp only [State.mknodAt,fail,done] at hs
  split_ifs at hs with hv hp
  · cases hs
    exact h
  · cases hs
    exact h
  · obtain ⟨parent,hparent⟩ := Option.ne_none_iff_exists'.mp hp
    cases hm : mknodType env (mode &&& modeTypeMask) dev with
    | error err =>
      rw [hm] at hs
      cases hs
      exact h
    | ok made =>
      obtain ⟨nodeType,made⟩ := made
      simp only [hm,Option.bind_eq_bind,Option.bind_eq_some_iff,Option.some.injEq] at hs
      obtain ⟨t,ht,⟨⟩⟩ := hs
      cases made with
      | false => exact hP.create h ht
      | true => exact hP.create (hP.node h hparent) ht

theorem linkAt (hP : Kept P) (h : P s) (hs : s.linkAt (s.entry o).vnode e = some (s',ret)) :
    P s' := by
  simp only [State.linkAt,fail,done] at hs
  split_ifs at hs
  · cases hs
    exact h
  · simp only [Option.bind_eq_bind,Option.bind_eq_some_iff,Option.some.injEq] at hs
    obtain ⟨t,ht,⟨⟩⟩ := hs
    exact hP.link h ht

theorem removeIfPresent (hP : Kept P) (h : P s) (hs : s.removeIfPresent e = some s') : P s' := by
  rw [State.removeIfPresent] at hs
  split_ifs at hs
  · cases hs
    exact h
  · exact hP.remove h hs

theorem renameAt (hP : Kept P) (h : P s) (hs : s.renameAt o e = some (s',ret)) : P s' := by
  simp only [State.renameAt,done,Option.bind_eq_bind,Option.bind_eq_some_iff,
    Option.some.injEq] at hs
  obtain ⟨t,ht,u,hu,q,hq,⟨⟩⟩ := hs
  exact hP.remove (hP.link (hP.removeIfPresent h ht) hu) hq

theorem locateThen (hP : Kept P) (h : P s) (hk : ∀ {e t}, P t → k e t = some (s',ret) → P s')
    (hs : s.locateThen env p fuel dirfd path k = some (s',ret)) : P s' := by
  simp only [State.locateThen,State.locate] at hs
  cases hstart : s.getStartingPoint p dirfd path with
  | error err =>
    simp only [hstart,fail,Option.some.injEq] at hs
    cases hs
    exact h
  | ok start =>
    cases hpath : s.pathToEntry env.frame fuel path start true with
    | none => simp [hstart,hpath] at hs
    | some r =>
      simp only [hstart,hpath,Option.map_some] at hs
      exact hk (hP.path h hpath) hs

theorem locateBoth (hP : Kept P) (h : P s) {oldDirfd : Int} {old : Path}
    {k : Nat → Nat → State → Result} (hk : ∀ {o e t}, P t → k o e t = some (s',ret) → P s')
    (hs : s.locateBoth env p fuel oldDirfd old dirfd path k = some (s',ret)) : P s' := by
  refine hP.locateThen h ?_ hs
  intro o t ht hret
  split_ifs at hret
  · cases hret
    exact ht
  · exact hP.locateThen ht hk hret

theorem perform (hP : Kept P) (h : P s) {req : Request}
    (hs : s.perform env p fuel dirfd path req = some (s',ret)) : P s' := by
  cases req with
  | link oldDirfd old => exact hP.locateBoth h (fun ht hret => hP.linkAt ht hret) hs
  | rename oldDirfd old => exact hP.locateBoth h (fun ht hret => hP.renameAt ht hret) hs
  | mkdir mode => exact hP.locateThen h (fun ht hret => hP.mkdirAt ht hret) hs
  | mknod mode dev => exact hP.locateThen h (fun ht hret => hP.mknodAt ht hret) hs
  | symlink target => exact hP.locateThen h (fun ht hret => hP.symlinkAt ht hret) hs

end Kept

end Kept

end SabaOS.Vfs
