import SabaOS.Fs.Renamed

namespace SabaOS.Vfs

open SabaOS.Fs SabaOS.Lib

def atRemovedir : Nat := 0x200

def State.unlinkAt (s : State) (e flags : Nat) : Result :=
  match (s.entry e).vnode with
  | none => fail s .enoent
  | some v =>
    if (s.vnode v).nodeType = .directory ∧ flags &&& atRemovedir = 0 then fail s .eisdir
    else do
      let s ← s.remove e
      done s

inductive NameRequest where
  | unlink (flags : Nat)
  | renameFrom (newDirfd : Int) (new : Path)
  | renameTo (oldDirfd : Int) (old : Path)
deriving DecidableEq, Repr

def State.performName (s : State) (env : Env) (p : Process) (fuel : Nat) (dirfd : Int) (path : Path) :
    NameRequest → Result
  | .unlink flags => s.locateThen env p fuel dirfd path fun e s => s.unlinkAt e flags
  | .renameFrom newDirfd new => s.perform env p fuel newDirfd new (.rename dirfd path)
  | .renameTo oldDirfd old => s.perform env p fuel dirfd path (.rename oldDirfd old)

namespace State

def IsLink (s : State) (e : Nat) : Prop :=
  ∃ v, (s.entry e).vnode = some v ∧ (s.vnode v).nodeType = .symlink

def NamesLink (s : State) (env : Env) (p : Process) (dirfd : Int) (path : Path) (e : Nat) : Prop :=
  ∃ start fuel s', s.getStartingPoint p dirfd path = .ok start ∧
    s.pathToEntry env.frame fuel path start false = some (e,s') ∧ s.IsLink e

structure Keeps (s s' : State) (e : Nat) : Prop where
  vnode : (s'.entry e).vnode = (s.entry e).vnode
  places : ∀ d, e ∈ (s.entry d).children → e ∈ (s'.entry d).children

structure ActsOn (s s' : State) (frame : Walk → List UInt8) (e : Nat) : Prop where
  acts : ¬s.Keeps s' e
  others : ∀ path start follow, (∀ x, start = some x → x < s.numEntries) →
    (∀ w u, s.begin path start = .again w → Visits (s.look frame follow) w u →
      ∀ d, e ∈ (s.entry d).children → ¬s.Through d (s.entry e).name u) →
    ∀ v, s'.Resolves frame path start follow v ↔ s.Resolves frame path start follow v

def ActsOnLink (s : State) (env : Env) (p : Process) (dirfd : Int) (path : Path) (req : NameRequest)
    (e : Nat) : Prop :=
  ∃ fuel s', s.performName env p fuel dirfd path req = some (s',.ok ()) ∧ s.ActsOn s' env.frame e

end State

variable {s s' s'' : State} {e x parent : Nat} {env : Env} {p : Process} {fuel : Nat} {dirfd : Int}
variable {path : Path} {ret : Except Errno Unit} {k : Nat → State → Result} {v : Option Nat}

namespace State.Keeps

theorem refl : s.Keeps s e := ⟨rfl,fun _ => id⟩

theorem trans (h : s.Keeps s' e) (h' : s'.Keeps s'' e) : s.Keeps s'' e :=
  ⟨h'.vnode.trans h.vnode,fun d hd => h'.places d (h.places d hd)⟩

theorem remove (hs : s.remove x = some s') (hne : e ≠ x) : s.Keeps s' e := by
  refine ⟨remove_vnode hs,fun d hd => ?_⟩
  rw [remove_children hs]
  split_ifs
  · exact (List.mem_erase_of_ne hne).mpr hd
  · exact hd

theorem removeIfPresent (hs : s.removeIfPresent x = some s') (hne : e ≠ x) : s.Keeps s' e := by
  rw [State.removeIfPresent] at hs
  split_ifs at hs
  · exact Option.some.inj hs ▸ .refl
  · exact .remove hs hne

theorem setVnode (hne : e ≠ x) : s.Keeps (s.setVnode x v) e := by
  refine ⟨?_,fun d hd => ?_⟩
  · rw [State.setVnode,setEntry_entry,if_neg hne]
  · rw [State.setVnode,setEntry_same (g := Entry.children) rfl]
    exact hd

theorem addChild : s.Keeps (s.addChild parent x) e :=
  ⟨addChild_same (g := Entry.vnode) (fun _ => rfl) fun _ => rfl,fun _ hd => mem_addChild hd⟩

theorem attach : s.Keeps (s.attach parent x) e := by
  rw [State.attach]
  split_ifs
  · exact .addChild
  · exact .refl

theorem new (he : e < s.numEntries) (hblank : (s.entry s.numEntries).children = []) {y : Entry} :
    s.Keeps (s.new y) e := by
  refine ⟨?_,fun d hd => ?_⟩
  · rw [new_entry,if_neg (Nat.ne_of_lt he)]
  · rw [new_entry]
    split_ifs with hnew
    · rw [hnew,hblank] at hd
      cases hd
    · exact hd

theorem lookupNew (ht : Tree s) (he : e < s.numEntries) {name : Name} :
    s.Keeps (s.lookupNew parent name).1 e := by
  have hblank : (s.entry s.numEntries).children = [] := by
    rw [ht.blank _ (Nat.le_refl _)]
    rfl
  simp only [State.lookupNew]
  split_ifs
  · exact (Keeps.new he hblank).trans .addChild
  · exact .new he hblank

theorem furnish (ht : Tree s) (he : e < s.numEntries) {nodeType : NodeType}
    {uid gid mode : Option Nat} : s.Keeps (s.furnish x parent nodeType uid gid mode) e := by
  refine ⟨?_,fun d hd => ?_⟩
  · have grow : ∀ {s : State} {y : Entry}, e < s.numEntries →
        (((s.new y).addChild x s.numEntries).entry e).vnode = (s.entry e).vnode := by
      intro s y he
      rw [addChild_same (g := Entry.vnode) (fun _ => rfl) fun _ => rfl,new_entry,
        if_neg (Nat.ne_of_lt he)]
    simp only [State.furnish]
    cases (s.entry x).vnode with
    | none => rfl
    | some v =>
      dsimp only
      split_ifs
      · exact (grow (Nat.lt_succ_of_lt he)).trans (grow he)
      · rfl
  · refine mem_furnish ?_ hd
    by_contra hlt
    rw [ht.blank d (Nat.le_of_not_lt hlt)] at hd
    cases hd

theorem link (h : Proper s) (he : e < s.numEntries) (hne : e ≠ x)
    (hv : ∀ y, v = some y → y < s.numVNodes)
    (hs : (s.setVnode x v).create x .hardLink none none none = some s') : s.Keeps s' e := by
  rw [State.create] at hs
  cases hp : ((s.setVnode x v).entry x).parent with
  | none => simp [hp] at hs
  | some parent =>
    rw [hp] at hs
    have hpar : (s.entry x).parent = some parent := by
      rw [← hp]
      exact (setEntry_same (g := Entry.parent) rfl).symm
    have hset : Proper (s.setVnode x v) := h.setVnode hpar hv
    have hadd : Proper ((s.setVnode x v).attach parent x) := hset.attach hp
    have hlt : e < ((s.setVnode x v).attach parent x).numEntries := by
      rw [attach_numEntries]
      exact he
    exact Option.some.inj hs ▸ (Keeps.setVnode hne).trans (.trans .attach (.furnish hadd.tree hlt))

theorem unlinkAt {flags : Nat} (hne : e ≠ x) (hs : s.unlinkAt x flags = some (s',ret)) :
    s.Keeps s' e := by
  rw [State.unlinkAt] at hs
  cases hv : (s.entry x).vnode with
  | none =>
    simp only [hv,fail,Option.some.injEq,Prod.mk.injEq] at hs
    exact hs.1 ▸ .refl
  | some v =>
    simp only [hv,fail,done] at hs
    split_ifs at hs
    · cases hs
      exact .refl
    · simp only [Option.bind_eq_bind,Option.bind_eq_some_iff,Option.some.injEq] at hs
      obtain ⟨t,ht,⟨⟩⟩ := hs
      exact .remove ht hne

theorem renameAt {o y : Nat} (h : Proper s) (hy : (s.entry e).vnode = some y) (hold : e ≠ o)
    (hnew : e ≠ x) (hs : s.renameAt o x = some (s',ret)) : s.Keeps s' e := by
  simp only [State.renameAt,done,Option.bind_eq_bind,Option.bind_eq_some_iff,
    Option.some.injEq] at hs
  obtain ⟨t,ht,u,hu,q,hq,⟨⟩⟩ := hs
  have htp : Proper t := h.removeIfPresent ht
  have hkeep : s.Keeps t e := .removeIfPresent ht hnew
  have hlt : e < t.numEntries := htp.tree.lt_of_vnode (hkeep.vnode.trans hy)
  exact hkeep.trans (.trans (.link htp hlt hnew (htp.vnode_lt o) hu) (.remove hq hold))

end State.Keeps

section Links

variable {l : Nat}

variable {frame : Walk → List UInt8} {start : Option Nat} {y : Nat}

theorem begin_noLink (h : Proper s) (hb : s.begin path start = .stop (some y)) :
    (s.vnode y).nodeType ≠ .symlink := by
  obtain ⟨d,hd,hdir⟩ := h.root_vnode
  have hnull : vnodeOf (nullEntry,s) ≠ some y := by simp [vnodeOf,h.tree.null_vnode]
  simp only [State.begin,State.enter] at hb
  split_ifs at hb
  · exact absurd (Turn.stop.inj hb) hnull
  · obtain rfl : d = y := Option.some.inj (hd.symm.trans (Turn.stop.inj hb))
    rw [hdir]
    simp
  · cases hb
  · cases start with
    | none => exact absurd (Turn.stop.inj hb) hnull
    | some e => cases hb

theorem look_noLink (h : Proper s) {w : Walk} (hl : s.look frame true w = .stop (some y)) :
    (s.vnode y).nodeType ≠ .symlink := by
  simp only [State.look] at hl
  cases hd : (s.entry w.cur).vnode with
  | none => simp [hd] at hl
  | some d =>
    simp only [hd] at hl
    split_ifs at hl
    · cases hl
    · cases hc : w.component with
      | skip => simp [hc] at hl
      | name len last =>
        simp only [hc,State.pick] at hl
        cases hlive : s.live w.cur (cstr (w.path.take len)) with
        | none => simp [hlive] at hl
        | some ev =>
          simp only [hlive] at hl
          split_ifs at hl with hlink hlast
          · simp only [State.follow,State.splice] at hl
            split_ifs at hl
            · simp [vnodeOf,h.tree.null_vnode] at hl
            · cases hl
            · exact begin_noLink h hl
          · obtain rfl : ev.2 = y := Option.some.inj (Turn.stop.inj hl)
            exact fun hsym => hlink ⟨by simp,hsym⟩

theorem resolves_noLink (h : Proper s) (hr : s.Resolves frame path start true y) :
    (s.vnode y).nodeType ≠ .symlink := by
  rw [h.tree.resolves_iff] at hr
  cases hb : s.begin path start with
  | again w =>
    rw [hb] at hr
    obtain ⟨u,-,hstop⟩ := Ends.last hr
    exact look_noLink h hstop
  | stop r =>
    rw [hb] at hr
    cases hr
    exact begin_noLink h hb
  | stuck =>
    rw [hb] at hr
    exact hr.elim

theorem locate_ne {r : Nat × State} (h : Proper s) (hl : s.IsLink l)
    (hr : s.locate env p fuel dirfd path = some (.ok r)) : l ≠ r.1 := by
  rintro rfl
  obtain ⟨v,hv,hsym⟩ := hl
  obtain ⟨-,hagree⟩ := locate_state h.tree hr
  cases hstart : s.getStartingPoint p dirfd path with
  | error err => simp [State.locate,hstart] at hr
  | ok start =>
    have hres : s.Resolves env.frame path start true v :=
      ⟨fuel,r,(locate_ok hstart).mp hr,(hagree.entry _).trans hv⟩
    exact resolves_noLink h hres hsym

theorem locate_keeps {r : Nat × State} (h : Proper s) (hl : s.IsLink l)
    (hr : s.locate env p fuel dirfd path = some (.ok r)) :
    Proper r.2 ∧ r.2.IsLink l ∧ s.Keeps r.2 l := by
  obtain ⟨-,hagree⟩ := locate_state h.tree hr
  obtain ⟨v,hv,hsym⟩ := hl
  cases hstart : s.getStartingPoint p dirfd path with
  | error err => simp [State.locate,hstart] at hr
  | ok start =>
    have hpath := (locate_ok hstart).mp hr
    refine ⟨h.pathToEntry hpath,⟨v,(hagree.entry l).trans hv,?_⟩,?_⟩
    · rw [hagree.vnode]
      exact hsym
    · rcases pathToEntry_state hpath with heq | ⟨cur,name,d,-,-,heq,-⟩
      · exact heq ▸ .refl
      · exact heq ▸ .lookupNew h.tree (h.tree.lt_of_vnode hv)

theorem locateThen_keeps (h : Proper s) (hl : s.IsLink l)
    (hk : ∀ x t, Proper t → t.IsLink l → l ≠ x → k x t = some (s',ret) → t.Keeps s' l)
    (hs : s.locateThen env p fuel dirfd path k = some (s',ret)) : s.Keeps s' l := by
  rw [State.locateThen] at hs
  cases hr : s.locate env p fuel dirfd path with
  | none => simp [hr] at hs
  | some t =>
    cases t with
    | error err =>
      simp only [hr,fail,Option.some.injEq,Prod.mk.injEq] at hs
      exact hs.1 ▸ .refl
    | ok r =>
      simp only [hr] at hs
      obtain ⟨hproper,hlink,hkeeps⟩ := locate_keeps h hl hr
      exact hkeeps.trans (hk r.1 r.2 hproper hlink (locate_ne h hl hr) hs)

theorem rename_keeps (h : Proper s) (hl : s.IsLink l) {oldDirfd : Int} {old : Path}
    (hs : s.perform env p fuel dirfd path (.rename oldDirfd old) = some (s',ret)) :
    s.Keeps s' l := by
  refine locateThen_keeps h hl ?_ hs
  intro o t ht hlt hold hret
  split_ifs at hret
  · exact (Prod.mk.inj (Option.some.inj hret)).1 ▸ .refl
  · refine locateThen_keeps ht hlt ?_ hret
    intro x u hu hlu hnew hrename
    obtain ⟨v,hv,-⟩ := hlu
    exact .renameAt hu hv hold hnew hrename

theorem performName_keeps (h : Proper s) (hl : s.IsLink l) {req : NameRequest}
    (hs : s.performName env p fuel dirfd path req = some (s',ret)) : s.Keeps s' l := by
  cases req with
  | unlink flags => exact locateThen_keeps h hl (fun _ _ _ _ hne hret => .unlinkAt hne hret) hs
  | renameFrom newDirfd new => exact rename_keeps h hl hs
  | renameTo oldDirfd old => exact rename_keeps h hl hs

theorem link_not_acted_on (h : Proper s) (hnames : s.NamesLink env p dirfd path l)
    (req : NameRequest) : ¬s.ActsOnLink env p dirfd path req l := by
  rintro ⟨fuel,s',hs,hacts⟩
  obtain ⟨start,-,-,-,-,hl⟩ := hnames
  exact hacts.acts (performName_keeps h hl hs)

end Links

def fileLinkResult : Result := oneFile.perform plainEnv rootProcess 2 atFdcwd [47,97] (.symlink [102])

example : (oneFile.perform plainEnv rootProcess 2 atFdcwd [47,97] (.symlink [])).isSome := by
  decide +kernel

theorem fileLinkResult_isSome : fileLinkResult.isSome := by decide +kernel

def fileLink : State := (fileLinkResult.get fileLinkResult_isSome).1

theorem Proper.fileLink : Proper fileLink :=
  Proper.oneFile.perform (Option.some_get fileLinkResult_isSome).symm

theorem fileLink_isLink : fileLink.IsLink 5 := ⟨2,by decide +kernel,by decide +kernel⟩

theorem fileLink_names : fileLink.NamesLink plainEnv rootProcess atFdcwd [47,97] 5 :=
  ⟨none,1,fileLink,rfl,rfl,fileLink_isLink⟩

theorem link_not_acted_on_root :
    ¬fileLink.ActsOnLink plainEnv rootProcess atFdcwd [47,97] (.unlink 0) 5 :=
  link_not_acted_on Proper.fileLink fileLink_names (.unlink 0)

def unlinkedResult : Result := fileLink.performName plainEnv rootProcess 2 atFdcwd [47,97] (.unlink 0)

-- `unlink("/a")` succeeds; the link is still there and the file is gone.
theorem target_unlinked : fileLink.NamesLink plainEnv rootProcess atFdcwd [47,97] 5 ∧
    unlinkedResult.map (fun r => (r.2,(r.1.entry root).children)) = some (.ok (),[5,3,2]) ∧
    ¬fileLink.ActsOnLink plainEnv rootProcess atFdcwd [47,97] (.unlink 0) 5 := by
  refine ⟨fileLink_names,by decide +kernel,?_⟩
  rintro ⟨fuel,s',hs,hacts⟩
  exact hacts.acts (performName_keeps Proper.fileLink fileLink_isLink hs)

end SabaOS.Vfs
