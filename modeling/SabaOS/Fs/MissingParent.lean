import SabaOS.Fs.Proper

namespace SabaOS.Vfs

open SabaOS.Fs SabaOS.Lib

namespace State

def Blocked (s : State) (w : Walk) : Prop :=
  ∃ d, (s.entry w.cur).vnode = some d ∧
    ((s.vnode d).nodeType ≠ .directory ∨
      ∃ len, w.component = .name len false ∧ s.live w.cur (cstr (w.path.take len)) = none)

def ParentMissing (s : State) (frame : Walk → List UInt8) (path : Path) (start : Option Nat) :
    Prop :=
  ∃ w w', s.enter path start = .again w ∧ Visits (s.walkStep frame true) w w' ∧ s.Blocked w'

structure Intact (s : State) (frame : Walk → List UInt8) (s' : State) : Prop where
  null : (s'.entry nullEntry).vnode = none
  resolves : ∀ path start follow v,
    s'.Resolves frame path start follow v ↔ s.Resolves frame path start follow v

def Refused (s : State) (env : Env) (p : Process) (fuel : Nat) (dirfd : Int) (path : Path) : Prop :=
  match s.locate env p fuel dirfd path with
  | none => False
  | some (.error _) => True
  | some (.ok r) => vnodeOf r = none

-- `link` and `rename` do not look at the parent of the new entry.
def Guarded (s : State) (env : Env) (p : Process) : Request → Prop
  | .link oldDirfd old => ∃ fuel, s.Refused env p fuel oldDirfd old
  | .rename oldDirfd old => ∃ fuel, s.Refused env p fuel oldDirfd old
  | .mkdir _ => True
  | .mknod _ _ => True
  | .symlink _ => True

end State

variable {s : State} {env : Env} {p : Process} {frame : Walk → List UInt8} {w : Walk}
variable {path old : Path} {start : Option Nat} {dirfd oldDirfd : Int} {fuel : Nat}

theorem Blocked.walkStep (frame : Walk → List UInt8) (h : s.Blocked w) :
    ∃ s', s.walkStep frame true w = .stop (nullEntry,s') := by
  obtain ⟨d,hd,hcase⟩ := h
  simp only [State.walkStep,hd]
  by_cases hdir : (s.vnode d).nodeType ≠ .directory
  · exact ⟨s,by rw [if_pos hdir]⟩
  · obtain ⟨len,hcomp,hlive⟩ := hcase.resolve_left hdir
    simp only [if_neg hdir,hcomp,State.descend]
    cases hfind : s.findChild w.cur (cstr (w.path.take len)) with
    | none => exact ⟨_,rfl⟩
    | some e =>
      have hv : (s.entry e).vnode = none := by simpa [State.live,hfind] using hlive
      exact ⟨s,by simp [hv]⟩

theorem ParentMissing.pathToEntry (h : s.ParentMissing frame path start) :
    ∃ fuel s', s.pathToEntry frame fuel path start true = some (nullEntry,s') := by
  obtain ⟨w,w',hw,hvisits,hblocked⟩ := h
  obtain ⟨s',hstop⟩ := Blocked.walkStep frame hblocked
  have hends := (ends_visits hvisits).mpr (Ends.stop hstop)
  obtain ⟨fuel,hfuel⟩ := pathToEntry_iff.mpr (show EndsFrom _ (s.enter path start) _ by
    rw [hw]
    exact hends)
  exact ⟨fuel,s',hfuel⟩

theorem intact_of_agree {s' : State} (h : Agree s s') (hs : Tree s) (hs' : Tree s') :
    s.Intact frame s' :=
  ⟨hs'.null_vnode,fun _ _ _ _ => h.resolves hs hs'⟩

theorem locate_ok {r : Nat × State} (hstart : s.getStartingPoint p dirfd path = .ok start) :
    s.locate env p fuel dirfd path = some (.ok r) ↔
      s.pathToEntry env.frame fuel path start true = some r := by
  simp [State.locate,hstart]

theorem not_refused_of_live {r : Nat × State} {v : Nat}
    (h : s.locate env p fuel dirfd path = some (.ok r)) (hv : vnodeOf r = some v) (fuel' : Nat) :
    ¬s.Refused env p fuel' dirfd path := by
  cases hstart : s.getStartingPoint p dirfd path with
  | error err => simp [State.locate,hstart] at h
  | ok start =>
    intro href
    rw [State.Refused] at href
    cases hloc : s.locate env p fuel' dirfd path with
    | none => simp [hloc] at href
    | some t =>
      cases t with
      | error err => simp [State.locate,hstart] at hloc
      | ok r' =>
        rw [hloc] at href
        have heq := pathToEntry_unique ((locate_ok hstart).mp h) ((locate_ok hstart).mp hloc)
        subst heq
        simp [hv] at href

theorem locate_state {r : Nat × State} (hs : Tree s)
    (h : s.locate env p fuel dirfd path = some (.ok r)) : Tree r.2 ∧ Agree s r.2 := by
  cases hstart : s.getStartingPoint p dirfd path with
  | error err => simp [State.locate,hstart] at h
  | ok start => exact hs.pathToEntry ((locate_ok hstart).mp h)

theorem locate_live {r : Nat × State} {v : Nat} (hs : Tree s)
    (h : s.locate env p fuel dirfd path = some (.ok r)) (hv : vnodeOf r = some v) : r.2 = s := by
  cases hstart : s.getStartingPoint p dirfd path with
  | error err => simp [State.locate,hstart] at h
  | ok start => exact hs.pathToEntry_live ((locate_ok hstart).mp h) hv

section Null

variable {s' : State} (hs' : Tree s')

include hs'

theorem create_null {nodeType : NodeType} {uid gid mode : Option Nat} {v : Option Nat} :
    (s'.setVnode nullEntry v).create nullEntry nodeType uid gid mode = none := by
  have hp : ((s'.setVnode nullEntry v).entry nullEntry).parent = none := by
    rw [State.setVnode,setEntry_same (g := Entry.parent) rfl,hs'.null_parent]
  simp [State.create,hp]

theorem linkAt_null {v : Option Nat} : s'.linkAt v nullEntry = none := by
  simp [State.linkAt,hs'.null_vnode,create_null hs']

theorem renameAt_null {o : Nat} : s'.renameAt o nullEntry = none := by
  simp [State.renameAt,State.removeIfPresent,hs'.null_vnode,create_null hs']

theorem mkdirAt_null {mode : Nat} : s'.mkdirAt p nullEntry mode = fail s' .enoent := by
  simp [State.mkdirAt,hs'.null_vnode,hs'.null_parent]

theorem mknodAt_null {mode dev : Nat} :
    s'.mknodAt env p nullEntry mode dev = fail s' .enoent := by
  simp [State.mknodAt,hs'.null_vnode,hs'.null_parent]

theorem symlinkAt_null {target : Path} : s'.symlinkAt p nullEntry target = fail s' .enoent := by
  simp [State.symlinkAt,hs'.null_parent]

end Null

section Missing

variable (hs : Tree s) (hstart : s.getStartingPoint p dirfd path = .ok start)
variable (hmiss : s.ParentMissing env.frame path start)

include hs hstart hmiss

theorem locate_missing {e : Nat} {s' : State}
    (h : s.locate env p fuel dirfd path = some (.ok (e,s'))) : e = nullEntry ∧ Tree s' := by
  obtain ⟨fuel',t,ht⟩ := ParentMissing.pathToEntry hmiss
  have heq := pathToEntry_unique ((locate_ok hstart).mp h) ht
  exact ⟨congrArg Prod.fst heq,(locate_state hs h).1⟩

theorem locateThen_missing {k : Nat → State → Result}
    (hk : ∀ s', Tree s' → k nullEntry s' = fail s' .enoent) :
    ∃ fuel s' err, s.locateThen env p fuel dirfd path k = some (s',.error err) ∧
      s.Intact env.frame s' := by
  obtain ⟨fuel,s',hpath⟩ := ParentMissing.pathToEntry hmiss
  have hloc : s.locate env p fuel dirfd path = some (.ok (nullEntry,s')) :=
    (locate_ok hstart).mpr hpath
  obtain ⟨htree,hagree⟩ := locate_state hs hloc
  refine ⟨fuel,s',.enoent,?_,intact_of_agree hagree hs htree⟩
  simp only [State.locateThen,hloc]
  exact hk s' htree

theorem locateThen_panics {k : Nat → State → Result} (hk : ∀ s', Tree s' → k nullEntry s' = none) :
    s.locateThen env p fuel dirfd path k = none := by
  simp only [State.locateThen]
  cases hloc : s.locate env p fuel dirfd path with
  | none => rfl
  | some r =>
    cases r with
    | error err => simp [State.locate,hstart] at hloc
    | ok r =>
      obtain ⟨e,s'⟩ := r
      obtain ⟨rfl,htree⟩ := locate_missing hs hstart hmiss hloc
      exact hk s' htree

theorem locateBoth_missing {k : Nat → Nat → State → Result}
    (hk : ∀ o s', Tree s' → k o nullEntry s' = none) :
    (∃ fuel s' err, s.locateBoth env p fuel oldDirfd old dirfd path k = some (s',.error err) ∧
      s.Intact env.frame s') ↔ ∃ fuel, s.Refused env p fuel oldDirfd old := by
  refine exists_congr fun fuel => ?_
  simp only [State.locateBoth,State.Refused]
  rw [State.locateThen]
  cases hloc : s.locate env p fuel oldDirfd old with
  | none => simp
  | some r =>
    cases r with
    | error err =>
      refine iff_of_true ⟨s,err,rfl,?_⟩ trivial
      exact intact_of_agree (.refl s) hs hs
    | ok r =>
      obtain ⟨htree,hagree⟩ := locate_state hs hloc
      cases hv : vnodeOf r with
      | none =>
        have hnone : (r.2.entry r.1).vnode = none := hv
        refine iff_of_true ⟨r.2,.enoent,?_,intact_of_agree hagree hs htree⟩ hv
        simp only [if_pos hnone]
        rfl
      | some v =>
        have hsome : (r.2.entry r.1).vnode ≠ none := by
          rw [show (r.2.entry r.1).vnode = some v from hv]
          simp
        obtain rfl : r.2 = s := locate_live hs hloc hv
        have hpanic : r.2.locateThen env p fuel dirfd path (k r.1) = none :=
          locateThen_panics hs hstart hmiss (hk r.1)
        refine iff_of_false ?_ (by simp [hv])
        rintro ⟨s',err,hret,-⟩
        simp only [if_neg hsome] at hret
        rw [hpanic] at hret
        cases hret

theorem missing_parent_intact_iff (req : Request) :
    (∃ fuel s' err, s.perform env p fuel dirfd path req = some (s',.error err) ∧
      s.Intact env.frame s') ↔ s.Guarded env p req := by
  cases req with
  | link oldDirfd old =>
    exact locateBoth_missing hs hstart hmiss fun _ _ htree => linkAt_null htree
  | rename oldDirfd old =>
    exact locateBoth_missing hs hstart hmiss fun _ _ htree => renameAt_null htree
  | mkdir mode =>
    exact iff_of_true (locateThen_missing hs hstart hmiss fun _ htree => mkdirAt_null htree) trivial
  | mknod mode dev =>
    exact iff_of_true (locateThen_missing hs hstart hmiss fun _ htree => mknodAt_null htree) trivial
  | symlink target =>
    exact iff_of_true (locateThen_missing hs hstart hmiss fun _ htree => symlinkAt_null htree) trivial

end Missing

def oneFileResult : Result :=
  boot.perform plainEnv rootProcess 2 atFdcwd [47,102] (.mknod 0o644 0)

example : (boot.perform plainEnv rootProcess 2 atFdcwd [47] (.mknod 0o644 0)).isSome := by
  decide +kernel

theorem oneFileResult_isSome : oneFileResult.isSome := by decide +kernel

def oneFile : State := (oneFileResult.get oneFileResult_isSome).1

theorem Proper.oneFile : Proper oneFile :=
  Proper.boot.perform (Option.some_get oneFileResult_isSome).symm

theorem oneFile_missing : oneFile.ParentMissing plainEnv.frame [47,120,47,121] none :=
  ⟨⟨root,[120,47,121],3⟩,⟨root,[120,47,121],3⟩,rfl,.refl,0,
    by decide +kernel,.inr ⟨1,by decide +kernel,by decide +kernel⟩⟩

theorem missing_parent_intact_mkdir :
    ∃ fuel s' err, oneFile.perform plainEnv rootProcess fuel atFdcwd [47,120,47,121]
        (.mkdir 0o755) = some (s',.error err) ∧ oneFile.Intact plainEnv.frame s' :=
  (missing_parent_intact_iff Proper.oneFile.tree rfl oneFile_missing (.mkdir 0o755)).mpr trivial

-- `link("/f", "/x/y")`: the vnode goes into the null entry, whose parent is then dereferenced.
theorem link_missing_parent_panics :
    oneFile.ParentMissing plainEnv.frame [47,120,47,121] none ∧
      ¬∃ fuel s' err, oneFile.perform plainEnv rootProcess fuel atFdcwd [47,120,47,121]
        (.link atFdcwd [47,102]) = some (s',.error err) ∧ oneFile.Intact plainEnv.frame s' := by
  refine ⟨oneFile_missing,?_⟩
  rintro ⟨fuel,s',err,hret,hintact⟩
  obtain ⟨fuel,hrefused⟩ := (locateBoth_missing Proper.oneFile.tree rfl oneFile_missing
    fun _ _ htree => linkAt_null htree).mp ⟨fuel,s',err,hret,hintact⟩
  refine not_refused_of_live (r := (4,oneFile)) (v := 1) (?_ : oneFile.locate _ _ 1 _ _ = _) ?_
    fuel hrefused
  · rfl
  · decide +kernel

end SabaOS.Vfs
