import SabaOS.Fs.Arrives

namespace SabaOS.Vfs

open SabaOS.Fs SabaOS.Lib

inductive Driver where
  | tmpfs
  | proc
deriving DecidableEq, Repr

namespace State

-- `Driver::mount`: tmpfs makes the entry's vnode its root, procfs sends the entry on to its own.
def mount (s : State) (e : Nat) : Driver → State
  | .tmpfs => s.fsCreate e .directory
  | .proc => s.setEntry e fun x => { x with redirect := some procRoot }

-- `syscall_mount`, with the driver that `get_fs_driver` has found.
def mountAt (s : State) (env : Env) (p : Process) (fuel : Nat) (target : Path) (driver : Option Driver) :
    Option (State × Int) :=
  if cstr target = [slash] then some (s,-38)
  else match driver with
    | none => some (s,-19)
    | some driver => (s.pathToEntry env.frame fuel target (some p.cwd) true).map fun (e,s) =>
      match (s.entry e).vnode with
      | none => (s,-2)
      | some v => if (s.vnode v).nodeType ≠ .directory then (s,-20) else (s.mount e driver,0)

end State

inductive Change (s : State) : State → Prop where
  | perform {env p fuel dirfd path req s' ret}
      (h : s.perform env p fuel dirfd path req = some (s',ret)) : Change s s'
  | unlink {env p fuel dirfd path flags s' ret}
      (h : s.performName env p fuel dirfd path (.unlink flags) = some (s',ret)) : Change s s'
  | mount {env p fuel target driver s' ret}
      (h : s.mountAt env p fuel target driver = some (s',ret)) : Change s s'
  | path {frame fuel path start follow e s'}
      (h : s.pathToEntry frame fuel path start follow = some (e,s')) : Change s s'
  | lookup {parent v name} (hparent : (s.entry parent).vnode = some v) (hname : CleanName name) :
      Change s (s.lookupNew parent name).1
  | node {e parent x} (hparent : (s.entry e).parent = some parent) : Change s (s.newVNode e x)
  | create {e nodeType uid gid mode s'} (h : s.create e nodeType uid gid mode = some s') : Change s s'
  | remove {e s'} (h : s.remove e = some s') : Change s s'
  | vnode {v f} (htype : (f (s.vnode v)).nodeType = (s.vnode v).nodeType) : Change s (s.setVNode v f)

variable {s s' : State} {frame : Walk → List UInt8} {follow : Bool} {w : Walk} {path : Path}
variable {start : Option Nat} {e v : Nat} {r : Nat × State}

inductive Outcome (s : State) (r : Nat × State) : Prop where
  | fixed (hs : r.2 = s) (he : r.1 = nullEntry ∨ r.1 = root)
  | child (d : Nat) (hs : r.2 = s) (he : r.1 ∈ (s.entry d).children)
  | fresh (d : Nat) (name : Name) (hd : d < s.numEntries) (hname : CleanName name)
      (hs : r.2 = (s.lookupNew d name).1) (he : r.1 = s.numEntries ∨ r.1 = nullEntry)

theorem Tree.pathToEntry_outcome (ht : Tree s) {fuel : Nat}
    (h : s.pathToEntry frame fuel path start follow = some r) : Outcome s r := by
  have harrives : Arrives s (fun _ => True) r :=
    ht.pathToEntry_arrives trivial (fun _ _ => trivial) (fun _ _ _ _ => trivial) (fun _ _ => trivial) h
  cases harrives with
  | fixed hs he => exact .fixed hs he
  | child d _ hs he => exact .child d hs he
  | fresh d name _ hdir _ hname hs he =>
    obtain ⟨v,hv,-⟩ := hdir
    exact .fresh d name (ht.lt_of_vnode hv) hname hs he

namespace Shaped

theorem pathToEntry (h : Shaped s) {fuel : Nat}
    (hr : s.pathToEntry frame fuel path start follow = some r) : Shaped r.2 := by
  cases h.tree.pathToEntry_outcome hr with
  | fixed hs _ => exact hs ▸ h
  | child _ hs _ => exact hs ▸ h
  | fresh d name hd hname hs _ => exact hs ▸ h.lookupNew hd hname

theorem ne_procRoot (h : Shaped s) {fuel : Nat}
    (hr : s.pathToEntry frame fuel path start follow = some r) (hv : vnodeOf r = some v) :
    r.1 ≠ procRoot := by
  have hnull : vnodeOf (nullEntry,s) = none := h.tree.null_vnode
  have hs : r.2 = s := h.tree.pathToEntry_live hr hv
  cases h.tree.pathToEntry_outcome hr with
  | fixed _ he =>
    rcases he with he | he
    · rw [he]
      decide
    · rw [he]
      decide
  | child d _ he =>
    intro heq
    have hp := h.linked d _ he
    rw [heq,h.proc_parent] at hp
    cases hp
  | fresh d name _ _ _ he =>
    rcases he with he | he
    · rw [he]
      exact Nat.ne_of_gt h.proc_lt
    · rw [he]
      decide

end Shaped

theorem grounded_of (hproc : (s.entry procRoot).redirect = none)
    (hred : ∀ e r, (s.entry e).redirect = some r → r < e ∨ r = procRoot) {n x : Nat} (hx : x < n) :
    (s.entry (s.reduceWithin n x)).redirect = none := by
  induction n generalizing x with
  | zero => cases hx
  | succ n ih =>
    rw [State.reduceWithin]
    cases hr : (s.entry x).redirect with
    | none => exact hr
    | some r =>
      dsimp only
      rcases hred x r hr with hlt | rfl
      · exact ih (by omega)
      · rw [reduceWithin_of_none hproc]
        exact hproc

theorem Shaped.mountProc (h : Shaped s) (he : (s.entry e).vnode = some v) (hne : e ≠ procRoot) :
    Shaped (s.mount e .proc) := by
  have hlt := h.tree.lt_of_vnode he
  have hentry : ∀ x, (s.mount e .proc).entry x =
      if x = e then { s.entry e with redirect := some procRoot } else s.entry x := by
    intro x
    rw [State.mount,setEntry_entry]
  have hsame : ∀ {α : Type} (g : Entry → α) (x : Nat),
      (∀ y : Entry, g { y with redirect := some procRoot } = g y) →
      g ((s.mount e .proc).entry x) = g (s.entry x) := by
    intro α g x hg
    rw [hentry]
    split_ifs with hx
    · rw [hg,hx]
    · rfl
  have hparent := fun x => hsame Entry.parent x fun _ => rfl
  have hchildren := fun x => hsame Entry.children x fun _ => rfl
  have hvnode := fun x => hsame Entry.vnode x fun _ => rfl
  have hname := fun x => hsame Entry.name x fun _ => rfl
  have hred : ∀ x r, ((s.mount e .proc).entry x).redirect = some r → r < x ∨ r = procRoot := by
    intro x r hr
    rw [hentry] at hr
    split_ifs at hr
    · exact .inr (Option.some.inj hr).symm
    · exact h.redirects x r hr
  have hproc : ((s.mount e .proc).entry procRoot).redirect = none := by
    rw [hentry,if_neg hne.symm]
    exact h.proc_redirect
  have hblank : ∀ x, s.numEntries ≤ x → (s.mount e .proc).entry x = .blank := by
    intro x hx
    rw [hentry,if_neg (Nat.ne_of_gt (Nat.lt_of_lt_of_le hlt hx))]
    exact h.tree.blank x hx
  have htree : Tree (s.mount e .proc) := by
    refine ⟨h.tree.null_lt,?_,?_,hblank,?_,?_,?_,?_⟩
    · exact (hvnode _).trans h.tree.null_vnode
    · exact (hparent _).trans h.tree.null_parent
    · intro x c hc
      exact h.tree.child_lt x c (hchildren x ▸ hc)
    · intro x p hp
      exact h.tree.parent_lt x p (hparent x ▸ hp)
    · intro x r hr
      rw [hentry] at hr
      split_ifs at hr
      · exact Option.some.inj hr ▸ h.proc_lt
      · exact h.tree.redirect_lt x r hr
    · intro x
      rcases Nat.lt_or_ge x s.numEntries with hx | hx
      · exact grounded_of hproc hred hx
      · have hself : (s.mount e .proc).reduce x = x := by
          refine reduceWithin_of_none ?_
          rw [hblank x hx]
          rfl
        rw [hself,hblank x hx]
        rfl
  refine ⟨htree,?_,?_,?_,hred,?_,?_,?_,h.proc_lt,?_,hproc⟩
  · intro x p hp
    exact h.down x p (hparent x ▸ hp)
  · intro d c hc
    exact (hparent c).trans (h.linked d c (hchildren d ▸ hc))
  · intro x
    exact hname x ▸ h.clean x
  · obtain ⟨d,hd,hv,hdir⟩ := h.root_vnode
    exact ⟨d,hd,(hvnode _).trans hv,hdir⟩
  · exact (hparent _).trans h.root_parent
  · exact (hname _).trans h.root_name
  · exact (hparent _).trans h.proc_parent

section Requests

variable {env : Env} {p : Process} {fuel o : Nat} {dirfd : Int} {ret : Except Errno Unit}
variable {k : Nat → State → Result}

namespace Shaped

theorem mountTmpfs (h : Shaped s) (he : (s.entry e).vnode = some v) :
    Shaped (s.mount e .tmpfs) := by
  rw [State.mount,State.fsCreate,he]
  exact h.setVNode rfl

theorem mountAt (h : Shaped s) {target : Path} {driver : Option Driver} {ret : Int}
    (hs : s.mountAt env p fuel target driver = some (s',ret)) : Shaped s' := by
  simp only [State.mountAt] at hs
  split_ifs at hs
  · cases hs
    exact h
  · cases driver with
    | none =>
      cases hs
      exact h
    | some driver =>
      obtain ⟨⟨e,t⟩,hr,hret⟩ := Option.map_eq_some_iff.mp hs
      have ht : Shaped t := h.pathToEntry hr
      cases hv : (t.entry e).vnode with
      | none =>
        simp only [hv,Prod.mk.injEq] at hret
        exact hret.1 ▸ ht
      | some v =>
        simp only [hv] at hret
        split_ifs at hret
        · exact (Prod.mk.inj hret).1 ▸ ht
        · have hne : e ≠ procRoot := h.ne_procRoot hr hv
          cases driver with
          | tmpfs => exact (Prod.mk.inj hret).1 ▸ ht.mountTmpfs hv
          | proc => exact (Prod.mk.inj hret).1 ▸ ht.mountProc hv hne

theorem kept : Kept Shaped where
  path h hr := h.pathToEntry hr
  create h hs := h.create hs
  node h hp := h.newVNode hp
  target _ h := h.setVNode rfl
  link h hs := h.setVnode_create hs
  remove h hs := h.remove hs

theorem unlinkAt (h : Shaped s) {flags : Nat} (hs : s.unlinkAt e flags = some (s',ret)) :
    Shaped s' := by
  rw [State.unlinkAt] at hs
  cases hv : (s.entry e).vnode with
  | none =>
    simp only [hv,fail,Option.some.injEq,Prod.mk.injEq] at hs
    exact hs.1 ▸ h
  | some v =>
    simp only [hv,fail,done] at hs
    split_ifs at hs
    · cases hs
      exact h
    · simp only [Option.bind_eq_bind,Option.bind_eq_some_iff,Option.some.injEq] at hs
      obtain ⟨t,ht,⟨⟩⟩ := hs
      exact h.remove ht

theorem change (h : Shaped s) (hc : Change s s') : Shaped s' := by
  cases hc with
  | perform hs => exact kept.perform h hs
  | unlink hs => exact kept.locateThen h (fun ht hret => ht.unlinkAt hret) hs
  | mount hs => exact h.mountAt hs
  | path hr => exact h.pathToEntry hr
  | lookup hparent hname => exact h.lookupNew (h.tree.lt_of_vnode hparent) hname
  | node hparent => exact h.newVNode hparent
  | create hs => exact h.create hs
  | remove hs => exact h.remove hs
  | vnode htype => exact h.setVNode htype

end Shaped

end Requests

end SabaOS.Vfs
