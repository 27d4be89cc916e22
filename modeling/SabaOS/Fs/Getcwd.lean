import SabaOS.Fs.Mount

namespace SabaOS.Vfs

open SabaOS.Fs SabaOS.Lib

namespace State

def printWithin (s : State) : Nat → Nat → Path
  | 0,_ => []
  | n + 1,e =>
    (match (s.entry e).parent with
      | some p => if (s.entry p).parent = none then [] else s.printWithin n p
      | none => []) ++ slash :: (s.entry e).name

def printPath (s : State) (e : Nat) : Path := s.printWithin s.numEntries e

def getcwd (s : State) (cwd size : Nat) : Except Int Path :=
  let written := (s.printPath cwd).take (size - 1)
  if size ≤ written.length + 1 then .error (-34) else .ok written

def chdir (s : State) (env : Env) (p : Process) (fuel : Nat) (path : Path) :
    Option (State × Process × Except Errno Unit) :=
  (s.pathToEntry env.frame fuel path (some p.cwd) true).map fun (e,s) =>
    match (s.entry e).vnode with
    | none => (s,p,.error .enoent)
    | some v =>
      if (s.vnode v).nodeType ≠ .directory then (s,p,.error .enotdir)
      else (s,{ p with cwd := e },.ok ())

def fchdir (s : State) (p : Process) (fd : Int) : Process × Except Errno Unit :=
  match p.description fd with
  | none => (p,.error .ebadf)
  | some d =>
    if (s.vnode d.vnode).nodeType ≠ .directory then (p,.error .enotdir)
    else ({ p with cwd := d.entry },.ok ())

-- `create_entry`, with the assertion that the name is free
def createEntry (s : State) (parent : Nat) (filename : Name) (vnode : VNode) (uid gid mode : Nat) :
    Option State :=
  let (s,e) := match s.findChild parent filename with
    | some e => (s,e)
    | none => s.lookupNew parent filename
  if (s.entry e).vnode ≠ none then none
  else (s.newVNode e vnode).create e vnode.nodeType uid gid mode

-- What `create_process_dir` and `create_thread_dir` do for their directories.
def createDir (s : State) (parent : Nat) (filename : Name) (uid gid : Nat) : Option State :=
  let (s,e) := match s.findChild parent filename with
    | some e => (s,e)
    | none => s.lookupNew parent filename
  if (s.entry e).vnode ≠ none then none else s.create e .directory uid gid (some 0o555)

end State

-- The vnode of the root of procfs, made by `Filesystem::create` without an entry.
def procMade : State :=
  { boot with vnode := Function.update boot.vnode 1 ⟨.directory,[],0,some 0,some 0,0o555⟩,
              numVNodes := 2 }

def booted : State := procMade.new (.construct (some 1) none [] none)

-- A run of the system, seen from one process. What another process opens or changes is a change
-- of the tree; a child of `fork` goes on with its parent's directory and descriptions.
inductive Reached : State → Process → Prop where
  | boot : Reached booted rootProcess
  | change {s s' p} (h : Reached s p) (hc : Change s s') : Reached s' p
  | chdir {s p env fuel path s' p' ret} (h : Reached s p)
      (hs : s.chdir env p fuel path = some (s',p',ret)) : Reached s' p'
  | fchdir {s p fd p' ret} (h : Reached s p) (hs : s.fchdir p fd = (p',ret)) : Reached s p'
  | opened {s p frame fuel path start follow e s' v} (fd : Int) (h : Reached s p)
      (hs : s.pathToEntry frame fuel path start follow = some (e,s'))
      (hv : (s'.entry e).vnode = some v) :
      Reached s' { p with description := Function.update p.description fd (some ⟨e,v⟩) }
  | closed {s p} (fd : Int) (h : Reached s p) :
      Reached s { p with description := Function.update p.description fd none }

inductive State.Walkable (s : State) : Nat → Prop where
  | root : s.Walkable root
  | child {d e v} (hd : s.Walkable d) (hlive : s.live d (s.entry e).name = some (e,v))
      (hdir : (s.vnode v).nodeType = .directory) (hname : (s.entry e).name ≠ [])
      (hmount : (s.entry e).redirect = none) : s.Walkable e

def State.InPlace (s : State) (c : Nat) : Prop :=
  c = root ∨ ∃ d e v, (s.entry c).parent = some d ∧ s.Walkable d ∧ (s.entry c).name ≠ [] ∧
    s.live d (s.entry c).name = some (e,v) ∧ (s.vnode v).nodeType ≠ .symlink ∧
    s.reduce e = s.reduce c

def State.NamesCwd (s : State) (frame : Walk → List UInt8) (cwd : Nat) : Prop :=
  ∀ size text, s.getcwd cwd size = .ok text → text.headD 0 = slash ∧
    ∃ fuel e s', s.pathToEntry frame fuel text (some cwd) true = some (e,s') ∧
      s'.reduce e = s'.reduce cwd

variable {s s' : State} {frame : Walk → List UInt8} {w : Walk} {e d c v : Nat}

section Print

variable (h : Shaped s)

include h

theorem printWithin_congr {n m : Nat} (hn : e < n) (hm : e < m) :
    s.printWithin n e = s.printWithin m e := by
  induction e using Nat.strongRecOn generalizing n m with
  | ind e ih =>
    obtain ⟨n,rfl⟩ : ∃ k, n = k + 1 := ⟨n - 1,by omega⟩
    obtain ⟨m,rfl⟩ : ∃ k, m = k + 1 := ⟨m - 1,by omega⟩
    simp only [State.printWithin]
    cases hp : (s.entry e).parent with
    | none => rfl
    | some p =>
      have hlt := h.down e p hp
      dsimp only
      rw [ih p hlt (show p < n by omega) (show p < m by omega)]

theorem printPath_child (hp : (s.entry e).parent = some d) : s.printPath e =
    (if (s.entry d).parent = none then [] else s.printPath d) ++ slash :: (s.entry e).name := by
  have hlt := h.tree.lt_of_parent hp
  have hde := h.down e d hp
  obtain ⟨n,hn⟩ : ∃ n, s.numEntries = n + 1 := ⟨s.numEntries - 1,by omega⟩
  rw [State.printPath,hn,State.printWithin,hp]
  dsimp only
  rw [State.printPath,printWithin_congr h (show d < n by omega) (show d < s.numEntries by omega)]

theorem printPath_root : s.printPath root = [slash] := by
  obtain ⟨n,hn⟩ : ∃ n, s.numEntries = n + 1 := ⟨s.numEntries - 1,by have := h.root_lt; omega⟩
  rw [State.printPath,hn,State.printWithin,h.root_parent,h.root_name]
  rfl

theorem zero_notMem_printWithin {n : Nat} : 0 ∉ s.printWithin n e := by
  induction n generalizing e with
  | zero => exact List.not_mem_nil
  | succ n ih =>
    rw [State.printWithin]
    refine List.not_mem_append ?_ (List.not_mem_cons_of_ne_of_not_mem (by decide) (h.clean e).2)
    cases (s.entry e).parent with
    | none => exact List.not_mem_nil
    | some p =>
      dsimp only
      split_ifs
      · exact List.not_mem_nil
      · exact ih

end Print

section Walk

variable (h : Shaped s) {follow : Bool} {rest str : List UInt8}

include h

omit h in
theorem printWithin_head (n e : Nat) : ∃ r, s.printWithin (n + 1) e = slash :: r := by
  induction n generalizing e with
  | zero =>
    rw [State.printWithin]
    cases (s.entry e).parent with
    | none => exact ⟨_,rfl⟩
    | some p => exact ⟨(s.entry e).name,by simp [State.printWithin]⟩
  | succ n ih =>
    rw [State.printWithin]
    cases (s.entry e).parent with
    | none => exact ⟨_,rfl⟩
    | some p =>
      dsimp only
      split_ifs
      · exact ⟨_,rfl⟩
      · obtain ⟨r,hr⟩ := ih p
        exact ⟨r ++ slash :: (s.entry e).name,by rw [hr]; rfl⟩

theorem printPath_head (e : Nat) : ∃ r, s.printPath e = slash :: r := by
  obtain ⟨n,hn⟩ : ∃ n, s.numEntries = n + 1 := ⟨s.numEntries - 1,by have := h.root_lt; omega⟩
  rw [State.printPath,hn]
  exact printWithin_head n e

theorem walkStep_child (hlive : s.live d (s.entry e).name = some (e,v))
    (hd : (s.entry d).vnode = some c) (hdir : (s.vnode c).nodeType = .directory)
    (hv : (s.vnode v).nodeType ≠ .symlink) (hname : (s.entry e).name ≠ []) (hrest : rest ≠ [])
    (hcur : w.cur = d) (hw : Reads w ((s.entry e).name ++ slash :: rest) 0) :
    ∃ u, s.walkStep frame follow w = .again u ∧ u.cur = s.reduce e ∧ Reads u rest 0 := by
  obtain ⟨hfind,hvnode⟩ := live_mem hlive
  have hcomp : w.component = .name (s.entry e).name.length false := by
    rw [component_split hw (h.clean e).1,if_neg fun heq => hrest heq.1,if_neg hname]
  refine ⟨⟨s.reduce e,_,_⟩,?_,rfl,reads_next hw⟩
  subst hcur
  simp only [State.walkStep,hd,hdir,hcomp,State.descend,cstr_take_split hw,hfind,hvnode]
  simp [hv]

omit h in
theorem walkStep_last {name : Name} (hname : slash ∉ name) (hlive : s.live d name = some (e,v))
    (hd : (s.entry d).vnode = some c) (hdir : (s.vnode c).nodeType = .directory)
    (hv : (s.vnode v).nodeType ≠ .symlink) (hcur : w.cur = d) (hw : Reads w name 0) :
    s.walkStep frame true w = .stop (e,s) := by
  obtain ⟨hfind,hvnode⟩ := live_mem hlive
  subst hcur
  simp only [State.walkStep,hd,hdir,component_last hw hname,State.descend,cstr_take_pathLen hw,hfind,
    hvnode]
  simp [hv]

theorem Walkable.directory (hw : s.Walkable d) :
    ∃ x, (s.entry d).vnode = some x ∧ (s.vnode x).nodeType = .directory := by
  cases hw with
  | root =>
    obtain ⟨x,-,hx,hdir⟩ := h.root_vnode
    exact ⟨x,hx,hdir⟩
  | child _ hlive hdir _ _ => exact ⟨_,(live_mem hlive).2,hdir⟩

theorem Walkable.visits (hw : s.Walkable d) (hcur : w.cur = root) (hstr : Reads w str 0)
    (hrest : rest ≠ []) (heq : slash :: str =
      (if (s.entry d).parent = none then [] else s.printPath d) ++ slash :: rest) :
    ∃ u, Visits (s.walkStep frame follow) w u ∧ u.cur = d ∧ Reads u rest 0 := by
  induction hw generalizing rest with
  | root =>
    rw [h.root_parent,if_pos rfl,List.nil_append,List.cons.injEq] at heq
    exact ⟨w,.refl,hcur,heq.2 ▸ hstr⟩
  | @child d e v hd hlive hdir hname hmount ih =>
    have hp : (s.entry e).parent = some d :=
      h.linked d e (List.mem_of_find?_eq_some (live_mem hlive).1)
    rw [hp,if_neg (by simp),printPath_child h hp,List.append_assoc,List.cons_append] at heq
    obtain ⟨u,hvisits,hu,hreads⟩ := ih (by simp) heq
    obtain ⟨x,hx,hxdir⟩ := Walkable.directory h hd
    have hlink : (s.vnode v).nodeType ≠ .symlink := by rw [hdir]; decide
    obtain ⟨u',hstep,hu',hreads'⟩ := walkStep_child h hlive hx hxdir hlink hname hrest hu hreads
    refine ⟨u',hvisits.tail hstep,hu'.trans ?_,hreads'⟩
    exact reduceWithin_of_none hmount

theorem InPlace.resolves (hc : s.InPlace c) (start : Option Nat) :
    ∃ fuel e, s.pathToEntry frame fuel (s.printPath c) start true = some (e,s) ∧
      s.reduce e = s.reduce c := by
  have hcstr : cstr (s.printPath c) = s.printPath c :=
    List.takeWhile_eq_self_iff.mpr fun x hx => by
      simpa using fun heq : x = 0 => zero_notMem_printWithin h (heq ▸ hx)
  rcases hc with rfl | ⟨d,e,v,hp,hd,hname,hlive,hlink,hred⟩
  · have henter : s.enter (s.printPath root) start = .stop (root,s) := by
      rw [enter_slash (r := []) (hcstr.trans (printPath_root h)),if_pos rfl]
    obtain ⟨fuel,hfuel⟩ := pathToEntry_iff.mpr (show EndsFrom (s.walkStep frame true)
      (s.enter (s.printPath root) start) (root,s) by rw [henter]; rfl)
    exact ⟨fuel,root,hfuel,rfl⟩
  · obtain ⟨str,hstr⟩ := printPath_head h c
    have hne : str ≠ [] := by
      rintro rfl
      rw [printPath_child h hp] at hstr
      split_ifs at hstr with hroot
      · exact hname (List.cons.inj hstr).2
      · obtain ⟨r,hr⟩ := printPath_head h d
        rw [hr] at hstr
        simp at hstr
    have henter : s.enter (s.printPath c) start = .again ⟨root,(s.printPath c).drop 1,str.length⟩ := by
      rw [enter_slash (hcstr.trans hstr),if_neg hne]
    obtain ⟨u,hvisits,hu,hreads⟩ : ∃ u, Visits (s.walkStep frame true)
        ⟨root,(s.printPath c).drop 1,str.length⟩ u ∧ u.cur = d ∧ Reads u (s.entry c).name 0 :=
      Walkable.visits h hd rfl (reads_drop_one (hcstr.trans hstr)) hname
        (hstr.symm.trans (printPath_child h hp))
    obtain ⟨x,hx,hxdir⟩ := Walkable.directory h hd
    have hlast : s.walkStep frame true u = .stop (e,s) :=
      walkStep_last (h.clean c).1 hlive hx hxdir hlink hu hreads
    obtain ⟨fuel,hfuel⟩ := pathToEntry_iff.mpr (show EndsFrom (s.walkStep frame true)
      (s.enter (s.printPath c) start) (e,s) by
        rw [henter]
        exact (ends_visits hvisits).mpr (.stop hlast))
    exact ⟨fuel,e,hfuel,hred⟩

theorem namesCwd_of_inPlace (hc : s.InPlace c) : s.NamesCwd frame c := by
  intro size text htext
  have hall : text = s.printPath c := by
    simp only [State.getcwd] at htext
    split_ifs at htext with hsize
    rw [← Except.ok.inj htext]
    rw [List.length_take] at hsize
    exact List.take_of_length_le (by omega)
  obtain ⟨r,hr⟩ := printPath_head h c
  obtain ⟨fuel,e,hpath,hred⟩ : ∃ fuel e,
      s.pathToEntry frame fuel (s.printPath c) (some c) true = some (e,s) ∧
        s.reduce e = s.reduce c := InPlace.resolves h hc (some c)
  exact ⟨by rw [hall,hr]; rfl,fuel,e,s,hall ▸ hpath,hred⟩

end Walk

section Reached

theorem Tree.booted : Tree booted := by
  have hboot : Tree procMade := Proper.boot.tree.of_entries rfl rfl
  refine hboot.new rfl ?_ ?_
  · rintro p ⟨⟩
  · rintro r ⟨⟩

theorem booted_entries {P : Nat → Entry → Prop} (hold : ∀ e < 5, P e (booted.entry e))
    (hblank : ∀ e, P e .blank) (e : Nat) : P e (booted.entry e) := by
  rcases Nat.lt_or_ge e 5 with hlt | hge
  · exact hold e hlt
  · exact Tree.booted.blank e hge ▸ hblank e

example : (booted.entry procRoot).parent = none := by decide +kernel

theorem Shaped.booted : Shaped booted := by
  refine ⟨.booted,?_,?_,?_,?_,⟨0,by decide,rfl,rfl⟩,rfl,rfl,by decide,rfl,rfl⟩
  · refine booted_entries (P := fun e x => ∀ p, x.parent = some p → p < e) ?_ ?_
    · decide +kernel
    · rintro e p ⟨⟩
  · refine booted_entries (P := fun d x => ∀ c ∈ x.children, (Vfs.booted.entry c).parent = some d) ?_ ?_
    · decide +kernel
    · rintro d c ⟨⟩
  · refine booted_entries (P := fun _ x => slash ∉ x.name ∧ 0 ∉ x.name) ?_ ?_
    · decide +kernel
    · exact fun _ => ⟨List.not_mem_nil,List.not_mem_nil⟩
  · refine booted_entries (P := fun e x => ∀ r, x.redirect = some r → r < e ∨ r = procRoot) ?_ ?_
    · decide +kernel
    · rintro e r ⟨⟩

theorem Reached.shaped {p : Process} (h : Reached s p) : Shaped s := by
  induction h with
  | boot => exact .booted
  | change _ hc ih => exact ih.change hc
  | chdir _ hs ih =>
    obtain ⟨⟨e,t⟩,hr,hret⟩ := Option.map_eq_some_iff.mp hs
    have ht : Shaped t := ih.pathToEntry hr
    cases hv : (t.entry e).vnode with
    | none =>
      simp only [hv,Prod.mk.injEq] at hret
      exact hret.1 ▸ ht
    | some v =>
      simp only [hv] at hret
      split_ifs at hret
      · exact (Prod.mk.inj hret).1 ▸ ht
      · exact (Prod.mk.inj hret).1 ▸ ht
  | fchdir _ _ ih => exact ih
  | opened _ _ hs _ ih => exact ih.pathToEntry hs
  | closed _ _ ih => exact ih

variable {p : Process} {parent : Nat} {name : Name}

theorem Reached.lookup (h : Reached s p) (hparent : (s.entry parent).vnode = some v)
    (hname : CleanName name) {r : State × Nat}
    (hr : r = match s.findChild parent name with
      | some e => (s,e)
      | none => s.lookupNew parent name) :
    Reached r.1 p ∧ (r.1.entry r.2).parent = some parent := by
  subst hr
  cases hfind : s.findChild parent name with
  | some e => exact ⟨h,h.shaped.linked parent e (List.mem_of_find?_eq_some hfind)⟩
  | none =>
    refine ⟨h.change (.lookup hparent hname),?_⟩
    have hlast : (s.lookupNew parent name).2 = s.numEntries := rfl
    rw [hlast,lookupNew_same (g := Entry.parent) (fun _ => rfl) fun _ => rfl,if_pos rfl]
    rfl

theorem Reached.createEntry (h : Reached s p) (hparent : (s.entry parent).vnode = some v)
    (hname : CleanName name) {vnode : VNode} {uid gid mode : Nat}
    (hs : s.createEntry parent name vnode uid gid mode = some s') : Reached s' p := by
  obtain ⟨ht,hp⟩ := h.lookup hparent hname rfl
  simp only [State.createEntry] at hs
  split_ifs at hs
  exact (ht.change (.node hp)).change (.create hs)

theorem Reached.createDir (h : Reached s p) (hparent : (s.entry parent).vnode = some v)
    (hname : CleanName name) {uid gid : Nat} (hs : s.createDir parent name uid gid = some s') :
    Reached s' p := by
  obtain ⟨ht,-⟩ := h.lookup hparent hname rfl
  simp only [State.createDir] at hs
  split_ifs at hs
  exact ht.change (.create hs)

end Reached

theorem getcwd_names {p : Process} (hr : Reached s p) (hc : s.InPlace p.cwd) :
    s.NamesCwd frame p.cwd :=
  namesCwd_of_inPlace hr.shaped hc

def procPath : Path := [47,112,114,111,99]

def procResult (path : Path) : Option (State × Process × Except Errno Unit) := do
  let s ← booted.createDir procRoot [49] 0 0
  let r ← s.perform plainEnv rootProcess 3 atFdcwd procPath (.mkdir 0o755)
  let r ← r.1.mountAt plainEnv rootProcess 3 procPath (some .proc)
  r.1.chdir plainEnv rootProcess 4 path

theorem procResult_reached {s : State} {p : Process} {path : Path} {ret : Except Errno Unit}
    (h : procResult path = some (s,p,ret)) : Reached s p := by
  simp only [procResult,Option.bind_eq_bind,Option.bind_eq_some_iff] at h
  obtain ⟨s₁,h₁,⟨s₂,_⟩,h₂,⟨s₃,_⟩,h₃,h₄⟩ := h
  have hdir : Reached s₁ rootProcess :=
    Reached.boot.createDir (show (booted.entry procRoot).vnode = some 1 from rfl)
      ⟨by decide,by decide⟩ h₁
  exact ((hdir.change (.perform h₂)).change (.mount h₃)).chdir h₄

example : (procResult [47]).isSome := by decide +kernel

theorem atProc_isSome : (procResult procPath).isSome := by decide +kernel

def atProc : State × Process × Except Errno Unit := (procResult procPath).get atProc_isSome

theorem getcwd_names_mounted : atProc.1.NamesCwd plainEnv.frame atProc.2.1.cwd := by
  refine getcwd_names (procResult_reached (Option.some_get atProc_isSome).symm) (.inr ?_)
  exact ⟨root,atProc.2.1.cwd,3,by decide +kernel,.root,by decide +kernel,by decide +kernel,
    by decide +kernel,rfl⟩

theorem inProc_isSome : (procResult [47,112,114,111,99,47,49]).isSome := by decide +kernel

def inProc : State × Process × Except Errno Unit :=
  (procResult [47,112,114,111,99,47,49]).get inProc_isSome

-- The path is `/1`, which names nothing: the root of procfs has no parent.
theorem procfs_cwd_lost : Reached inProc.1 inProc.2.1 ∧
    inProc.1.getcwd inProc.2.1.cwd 256 = .ok [47,49] ∧
    ¬inProc.1.NamesCwd plainEnv.frame inProc.2.1.cwd := by
  have htext : inProc.1.getcwd inProc.2.1.cwd 256 = .ok [47,49] := by decide +kernel
  refine ⟨procResult_reached (Option.some_get inProc_isSome).symm,htext,fun h => ?_⟩
  obtain ⟨-,fuel,e,s',hpath,hred⟩ := h 256 [47,49] htext
  have hlost : (inProc.1.pathToEntry plainEnv.frame 2 [47,49] (some inProc.2.1.cwd) true).map
      (fun r => decide (r.2.reduce r.1 = r.2.reduce inProc.2.1.cwd)) = some false := by
    decide +kernel
  obtain ⟨r,hr,hfalse⟩ := Option.map_eq_some_iff.mp hlost
  obtain rfl := pathToEntry_unique hr hpath
  exact of_decide_eq_false hfalse hred

end SabaOS.Vfs
