import SabaOS.Fs.Longer
import SabaOS.Fs.MissingParent
import SabaOS.Fs.Moved

namespace SabaOS.Vfs

open SabaOS.Fs SabaOS.Lib

def State.EndsAt (s : State) (frame : Walk → List UInt8) (path : Path) (start : Option Nat)
    (d : Nat) (n : Name) : Prop :=
  ∃ w l len r, s.begin path start = .again w ∧ Visits (s.look frame true) w l ∧
    s.look frame true l = .stop r ∧ l.component = .name len true ∧ l.cur = d ∧
    cstr (l.path.take len) = n

def State.Through (s : State) (d : Nat) (n : Name) (w : Walk) : Prop :=
  w.Asks d n ∨ ∃ e v, s.live d n = some (e,v) ∧ w.cur = e

def Process.Valid (p : Process) (s : State) : Prop :=
  p.cwd < s.numEntries ∧ ∀ fd d, p.description fd = some d → d.entry < s.numEntries

section Rename

variable (s : State) (frame : Walk → List UInt8) (old : Path) (oldStart : Option Nat) (new : Path)
variable (newStart : Option Nat)

def State.SamePlace : Prop :=
  ∃ d n, s.EndsAt frame old oldStart d n ∧ s.EndsAt frame new newStart d n

def State.Avoids (follow : Bool) (path : Path) (start : Option Nat) : Prop :=
  ∀ w u, s.begin path start = .again w → Visits (s.look frame follow) w u →
    ∀ d n, s.EndsAt frame old oldStart d n ∨ s.EndsAt frame new newStart d n → ¬s.Through d n u

structure State.Renames (s' : State) : Prop where
  arrives : ∀ v, s.Resolves frame old oldStart true v → s'.Resolves frame new newStart true v
  below : ∀ path path' rest follow v, rest ≠ [] → cstr path = cstr old ++ slash :: rest →
    cstr path' = cstr new ++ slash :: rest → s.Resolves frame path oldStart follow v →
    s'.Resolves frame path' newStart follow v
  leaves : ¬s.SamePlace frame old oldStart new newStart → ∀ v, ¬s'.Resolves frame old oldStart true v
  same : s.SamePlace frame old oldStart new newStart → ∀ path start follow v,
    (∀ x, start = some x → x < s.numEntries) →
    (s'.Resolves frame path start follow v ↔ s.Resolves frame path start follow v)
  others : ∀ path start follow, (∀ x, start = some x → x < s.numEntries) →
    s.Avoids frame old oldStart new newStart follow path start →
    ∀ v, s'.Resolves frame path start follow v ↔ s.Resolves frame path start follow v

structure State.PlainRename : Prop where
  file : ∀ v, s.Resolves frame old oldStart true v → (s.vnode v).nodeType ≠ .directory
  smooth : s.SmoothFrom frame true old oldStart
  differ : ¬s.SamePlace frame old oldStart new newStart
  named : ∀ d n, s.EndsAt frame old oldStart d n ∨ s.EndsAt frame new newStart d n → ¬IsDots n
  clear : ∀ w u d n e v, s.begin new newStart = .again w → Visits (s.look frame true) w u →
    s.EndsAt frame new newStart d n → s.live d n = some (e,v) → u.cur ≠ e

end Rename

variable {s s' : State} {frame : Walk → List UInt8} {follow : Bool} {w l : Walk} {path : Path}
variable {start : Option Nat} {e v : Nat}

theorem Agree.found (h : Agree s s') (hf : Found s frame path start e w l)
    (hv : (s.entry e).vnode = some v) : Found s' frame path start e w l := by
  have hlook : s'.look frame true = s.look frame true := funext fun w => h.look_eq
  have hlive : s.live l.cur (s.entry e).name = some (e,v) := by simp [State.live,hf.child,hv]
  obtain ⟨hfind,hv'⟩ := live_mem ((h.live _ _).trans hlive)
  have hname : (s'.entry e).name = (s.entry e).name := by simpa using List.find?_some hfind
  obtain ⟨d,hd,hdir⟩ := hf.directory
  refine ⟨h.begin_eq.trans hf.first,?_,?_,⟨d,(h.entry _).trans hd,?_⟩,?_,?_⟩
  · rw [hlook]
    exact hf.visits
  · rw [hname]
    exact hf.component
  · rw [h.vnode]
    exact hdir
  · rw [hname]
    exact hfind
  · intro v'' hv''
    rw [h.vnode]
    exact hf.noLink v'' ((h.entry e).symm.trans hv'')

theorem Found.look_stop (hf : Found s frame path start e w l) :
    s.look frame true l = .stop (s.entry e).vnode := by
  obtain ⟨d,hd,hdir⟩ := hf.directory
  obtain ⟨len,hcomp,hname⟩ := hf.component
  cases hv : (s.entry e).vnode with
  | none => simp [State.look,hd,hdir,hcomp,State.pick,hname,State.live,hf.child,hv]
  | some v =>
    simp [State.look,hd,hdir,hcomp,State.pick,hname,State.live,hf.child,hv,hf.noLink v hv]

theorem Found.endsAt (hf : Found s frame path start e w l) :
    s.EndsAt frame path start l.cur (s.entry e).name := by
  obtain ⟨len,hcomp,hname⟩ := hf.component
  exact ⟨w,l,len,_,hf.first,hf.visits,hf.look_stop,hcomp,rfl,hname⟩

theorem Agree.endsAt (h : Agree s s') {d : Nat} {n : Name} :
    s'.EndsAt frame path start d n ↔ s.EndsAt frame path start d n := by
  have hlook : s'.look frame true = s.look frame true := funext fun w => h.look_eq
  simp only [State.EndsAt,hlook,h.begin_eq]

theorem Found.stands_live (hf : Found s frame path start e w l) {u : Walk}
    (hu : Visits (s.look frame true) w u) : (s.entry u.cur).vnode ≠ none := by
  intro hnone
  have hstuck : s.look frame true u = .stuck := by simp [State.look,hnone]
  rcases Relation.ReflTransGen.cases_head (visits_last hf.look_stop hf.visits hu) with
    rfl | ⟨u',hstep,-⟩
  · cases hf.look_stop.symm.trans hstuck
  · cases hstuck.symm.trans hstep

theorem getStartingPoint_valid {p : Process} {dirfd : Int} (hp : p.Valid s)
    (h : s.getStartingPoint p dirfd path = .ok start) : ∀ x, start = some x → x < s.numEntries := by
  simp only [State.getStartingPoint] at h
  split_ifs at h
  · cases h
    rintro x ⟨⟩
  · cases h
    rintro x ⟨⟩
    exact hp.1
  · cases hd : p.description dirfd with
    | none => simp [hd] at h
    | some d =>
      simp only [hd] at h
      split_ifs at h
      cases h
      rintro x ⟨⟩
      exact hp.2 dirfd d hd

theorem renameAt_parent {e₁ e₂ : Nat} {ret : Except Errno Unit} (he : e₂ < s.numEntries)
    (h : s.renameAt e₁ e₂ = some (s',ret)) : (s.entry e₂).parent ≠ none := by
  intro hnone
  simp only [State.renameAt,Option.bind_eq_bind,Option.bind_eq_some_iff] at h
  obtain ⟨t,ht,u,hu,-⟩ := h
  have hmove : (Move.mk 0 [] 0 [] 0).Apart s t :=
    .removeIfPresent ht fun p hp => by cases hnone.symm.trans hp
  have hpar : ((t.setVnode e₂ (t.entry e₁).vnode).entry e₂).parent = none :=
    (setEntry_same (g := Entry.parent) rfl).trans ((hmove.parent e₂ he).trans hnone)
  simp [State.create,hpar] at hu

theorem pathToEntry_grows {fuel : Nat} {r : Nat × State}
    (h : s.pathToEntry frame fuel path start follow = some r) : s.numEntries ≤ r.2.numEntries := by
  rcases pathToEntry_state h with heq | ⟨cur,name,d,-,-,heq,-⟩
  · rw [heq]
  · rw [heq,lookupNew_numEntries]
    exact Nat.le_succ _

section Main

variable {s₁ : State} {e₁ e₂ : Nat} {w₁ l₁ w₂ l₂ : Walk} {old new : Path}
variable {oldStart newStart : Option Nat} {ret : Except Errno Unit}
variable (hp : Proper s) (hp₁ : Proper s₁) (hagree : Agree s s₁)
variable (h₁ : Found s₁ frame old oldStart e₁ w₁ l₁) (h₂ : Found s₁ frame new newStart e₂ w₂ l₂)
variable (hs : s₁.renameAt e₁ e₂ = some (s',ret)) (hv : (s₁.entry e₁).vnode = some v)
variable (hplain : s.PlainRename frame old oldStart new newStart)

include hp hp₁ hagree h₁ h₂ hs hv hplain

omit hp hs hv in
theorem plain_ne : e₁ ≠ e₂ := by
  rintro rfl
  have hcur : l₁.cur = l₂.cur := by
    have hpar₁ := hp₁.linked _ _ (List.mem_of_find?_eq_some h₁.child)
    have hpar₂ := hp₁.linked _ _ (List.mem_of_find?_eq_some h₂.child)
    exact Option.some.inj (hpar₁.symm.trans hpar₂)
  refine hplain.differ ⟨l₂.cur,(s₁.entry e₁).name,?_,hagree.endsAt.mp h₂.endsAt⟩
  rw [← hcur]
  exact hagree.endsAt.mp h₁.endsAt

omit hp hp₁ h₂ hs hv in
theorem plain_dots : ¬IsDots (s₁.entry e₁).name :=
  hplain.named _ _ (.inl (hagree.endsAt.mp h₁.endsAt))

omit hp hp₁ h₁ hs hv in
theorem plain_dots_new : ¬IsDots (s₁.entry e₂).name :=
  hplain.named _ _ (.inr (hagree.endsAt.mp h₂.endsAt))

omit h₂ hs in
theorem plain_file : (s₁.vnode v).nodeType ≠ .directory := by
  have hres : s₁.Resolves frame old oldStart true v := by
    rw [hp₁.tree.resolves_iff,h₁.first]
    exact (ends_visits h₁.visits).mpr (.stop (hv ▸ h₁.look_stop))
  rw [hagree.vnode]
  exact hplain.file v ((hagree.resolves hp.tree hp₁.tree).mp hres)

omit hp hp₁ h₁ hs hv in
theorem plain_clear {u : Walk} (hu : Visits (s₁.look frame true) w₂ u) : u.cur ≠ e₂ := by
  intro hcur
  obtain ⟨v₂,hv₂⟩ := Option.ne_none_iff_exists'.mp (h₂.stands_live hu)
  have hlook : s₁.look frame true = s.look frame true := funext fun w => hagree.look_eq
  have hlive : s₁.live l₂.cur (s₁.entry e₂).name = some (e₂,v₂) := by
    simp [State.live,h₂.child,hcur ▸ hv₂]
  refine hplain.clear w₂ u _ _ e₂ v₂ (hagree.begin_eq.symm.trans h₂.first) (hlook ▸ hu)
    (hagree.endsAt.mp h₂.endsAt) ((hagree.live _ _).symm.trans hlive) hcur

omit h₂ hs in
theorem plain_below {rest : List UInt8} (hrest : rest ≠ []) {v' : Nat}
    (hpath : cstr path = cstr old ++ slash :: rest) : ¬s.Resolves frame path oldStart follow v' := by
  have hlook : s₁.look frame true = s.look frame true := funext fun w => hagree.look_eq
  have hfile := plain_file hp hp₁ hagree h₁ hv hplain
  have hreduce := hp₁.reduce_self (plain_dots hagree h₁ hplain)
  have hfirst := begin_again.mp h₁.first
  rw [← hagree.resolves hp.tree hp₁.tree,hp₁.tree.resolves_iff]
  obtain ⟨w,hw,hlonger⟩ := enter_longer hfirst hpath
  have hsmooth : ∀ u, Visits (s₁.look frame true) w₁ u → s₁.Smooth true u := by
    intro u hu
    have hsm := hplain.smooth w₁ u (begin_again.mp (hagree.begin_eq.symm.trans h₁.first))
      (hp.tree.visits_iff.mpr (hlook ▸ hu))
    refine ⟨hsm.timely,?_,?_⟩
    · rintro ⟨hf,hlen,len,e,v,hcomp,hlive,hlink⟩
      exact hsm.inside ⟨hf,hlen,len,e,v,hcomp,(hagree.live _ _).symm.trans hlive,hagree.vnode ▸ hlink⟩
    · rintro ⟨len,last,e,v,hcomp,hlive,hfollow,hlink,hover⟩
      rw [hagree.vnode] at hlink hover
      exact hsm.fits ⟨len,last,e,v,hcomp,(hagree.live _ _).symm.trans hlive,hfollow,hlink,hover⟩
  rw [begin_again.mpr hw]
  intro hends
  rcases longer_visits follow hp₁.text hrest h₁.visits hsmooth hlonger with
    ⟨u',hu',hstuck⟩ | ⟨l',hl',hlonger'⟩
  · exact not_ends_stuck hstuck ((ends_visits hu').mp hends)
  · obtain ⟨len,hcomp,hname⟩ := h₁.component
    have hlive : s₁.live l₁.cur (cstr (l₁.path.take len)) = some (e₁,v) := by
      rw [hname]
      simp [State.live,h₁.child,hv]
    obtain ⟨u',hu',hcur⟩ := longer_last hlonger' hrest (hsmooth l₁ h₁.visits) follow
      hcomp h₁.directory hlive (h₁.noLink v hv)
    have hends' := (ends_again hu').mp ((ends_visits hl').mp hends)
    have hstop : s₁.look frame follow u' = .stop none :=
      stop_at_file (hcur.trans hreduce ▸ hv) hfile
    cases (ends_stop hstop).mp hends'

theorem plain_others (hstart : ∀ x, start = some x → x < s₁.numEntries)
    (havoid : s.Avoids frame old oldStart new newStart follow path start) {v' : Nat} :
    s'.Resolves frame path start follow v' ↔ s.Resolves frame path start follow v' := by
  have ha := moved_apart hp₁ h₁ h₂ hs
  have hp' : Proper s' := hp₁.renameAt hs
  have hpar := hp₁.linked _ _ (List.mem_of_find?_eq_some h₂.child)
  have hroot := hp₁.root_ne hpar
  have hnull := hp₁.tree.ne_null hpar
  have hlook : s₁.look frame follow = s.look frame follow := funext fun w => hagree.look_eq
  have hasks : ∀ w u, s₁.begin path start = .again w → Visits (s₁.look frame follow) w u →
      ¬u.Asks l₁.cur (s₁.entry e₁).name ∧ ¬u.Asks l₂.cur (s₁.entry e₂).name := by
    intro w u hw hu
    rw [hagree.begin_eq] at hw
    rw [hlook] at hu
    constructor
    · intro h
      exact havoid w u hw hu _ _ (.inl (hagree.endsAt.mp h₁.endsAt)) (.inl h)
    · intro h
      exact havoid w u hw hu _ _ (.inr (hagree.endsAt.mp h₂.endsAt)) (.inl h)
  rw [← hagree.resolves hp.tree hp₁.tree]
  by_cases hby : ∀ w u, s₁.begin path start = .again w → Visits (s₁.look frame follow) w u → u.cur ≠ e₂
  · refine ha.resolves hp₁ hp' hroot hnull hstart (fun w u hw hu => ?_) v'
    exact ⟨hby w u hw hu,(hasks w u hw hu).1,(hasks w u hw hu).2⟩
  · simp only [not_forall,not_not] at hby
    obtain ⟨w,u,hw,hu,hcur⟩ := hby
    have hnone : (s₁.entry e₂).vnode = none := by
      cases hv₂ : (s₁.entry e₂).vnode with
      | none => rfl
      | some v₂ =>
        have hlive : s₁.live l₂.cur (s₁.entry e₂).name = some (e₂,v₂) := by
          simp [State.live,h₂.child,hv₂]
        rw [hagree.begin_eq] at hw
        rw [hlook] at hu
        exact (havoid w u hw hu _ _ (.inr (hagree.endsAt.mp h₂.endsAt))
          (.inr ⟨e₂,v₂,(hagree.live _ _).symm.trans hlive,hcur⟩)).elim
    have hu' : Visits (s'.look frame follow) w u := by
      clear hcur
      induction hu with
      | refl => exact .refl
      | @tail u u' hu hstep ih =>
        have hne : u.cur ≠ e₂ := by
          rintro heq
          obtain ⟨d,hd,-⟩ := look_again hstep
          rw [heq,hnone] at hd
          cases hd
        have hstand := hp₁.stands_visits (hp₁.stands_begin hstart hw) hu
        exact ih.tail ((ha.look_eq hp₁ hroot hnull hstand hne (hasks w u hw hu).1
          (hasks w u hw hu).2).trans hstep)
    have hv' : (s'.entry e₂).vnode = some v :=
      (live_mem (moved_new hp₁ h₁ h₂ hs (plain_ne hp₁ hagree h₁ h₂ hplain) hv
        (plain_dots_new hagree h₂ hplain))).2
    have hfile : (s'.vnode v).nodeType ≠ .directory := by
      rw [ha.nodeType]
      exact plain_file hp hp₁ hagree h₁ hv hplain
    have hstop : s'.look frame follow u = .stop none := stop_at_file (hcur ▸ hv') hfile
    have hstuck : s₁.look frame follow u = .stuck := by simp [State.look,hcur,hnone]
    rw [hp₁.tree.resolves_iff,hp'.tree.resolves_iff,ha.begin_eq hp₁ hroot hnull hstart,hw]
    refine iff_of_false ?_ ?_
    · intro hends
      cases (ends_stop hstop).mp ((ends_visits hu').mp hends)
    · intro hends
      exact not_ends_stuck hstuck ((ends_visits hu).mp hends)

end Main

section Perform

variable {env : Env} {p : Process} {fuel : Nat} {oldDirfd dirfd : Int} {old new : Path}
variable {oldStart newStart : Option Nat}

theorem locate_eq (hstart : s.getStartingPoint p dirfd path = .ok start) {r : Nat × State}
    (h : s.locate env p fuel dirfd path = some (.ok r)) :
    s.pathToEntry env.frame fuel path start true = some r := by
  simpa [State.locate,hstart] using h

theorem perform_rename (hp : Proper s) (hold : s.getStartingPoint p oldDirfd old = .ok oldStart)
    (hnew : s.getStartingPoint p dirfd new = .ok newStart)
    (hs : s.perform env p fuel dirfd new (.rename oldDirfd old) = some (s',.ok ())) :
    ∃ e₁ e₂ s₁ v, s.pathToEntry env.frame fuel old oldStart true = some (e₁,s) ∧
      (s.entry e₁).vnode = some v ∧
      s.pathToEntry env.frame fuel new newStart true = some (e₂,s₁) ∧
      s₁.renameAt e₁ e₂ = some (s',.ok ()) := by
  simp only [State.perform,State.locateBoth] at hs
  rw [State.locateThen] at hs
  cases hloc : s.locate env p fuel oldDirfd old with
  | none => simp [hloc] at hs
  | some r =>
    cases r with
    | error err => simp [hloc,fail] at hs
    | ok r =>
      obtain ⟨e₁,t⟩ := r
      simp only [hloc] at hs
      split_ifs at hs with hnone
      · cases hs
      · obtain ⟨v,hv⟩ := Option.ne_none_iff_exists'.mp hnone
        have hpath := locate_eq hold hloc
        obtain rfl : t = s := hp.tree.pathToEntry_live hpath hv
        rw [State.locateThen] at hs
        cases hloc' : t.locate env p fuel dirfd new with
        | none => simp [hloc'] at hs
        | some r' =>
          cases r' with
          | error err => simp [hloc',fail] at hs
          | ok r' =>
            obtain ⟨e₂,s₁⟩ := r'
            simp only [hloc'] at hs
            exact ⟨e₁,e₂,s₁,v,hpath,hv,locate_eq hnew hloc',hs⟩

theorem rename_file (hp : Proper s) (hproc : p.Valid s)
    (hold : s.getStartingPoint p oldDirfd old = .ok oldStart)
    (hnew : s.getStartingPoint p dirfd new = .ok newStart)
    (hs : s.perform env p fuel dirfd new (.rename oldDirfd old) = some (s',.ok ()))
    (hplain : s.PlainRename env.frame old oldStart new newStart) :
    s.Renames env.frame old oldStart new newStart s' := by
  obtain ⟨e₁,e₂,s₁,v,hpath₁,hv,hpath₂,hren⟩ := perform_rename hp hold hnew hs
  have hstart₁ := getStartingPoint_valid hproc hold
  have hstart₂ := getStartingPoint_valid hproc hnew
  obtain ⟨htree,hagree⟩ := hp.tree.pathToEntry hpath₂
  have hp₁ : Proper s₁ := hp.pathToEntry hpath₂
  have hgrow : s.numEntries ≤ s₁.numEntries := pathToEntry_grows hpath₂
  have hres : s.Resolves env.frame old oldStart true v := ⟨fuel,_,hpath₁,hv⟩
  have hroot₁ : e₁ ≠ root := by
    rintro rfl
    obtain ⟨d,hd,hdir⟩ := hp.root_vnode
    cases hv.symm.trans hd
    exact hplain.file v hres hdir
  have hnull₁ : e₁ ≠ nullEntry := by
    rintro rfl
    cases hp.tree.null_vnode.symm.trans hv
  obtain ⟨w₁,l₁,hfound⟩ := hp.found hnull₁ hroot₁ hstart₁ hpath₁
  have h₁ := hagree.found hfound hv
  have hv₁ : (s₁.entry e₁).vnode = some v := (hagree.entry e₁).trans hv
  have hnull₂ : e₂ ≠ nullEntry := by
    rintro rfl
    exact renameAt_parent htree.null_lt hren htree.null_parent
  have hroot₂ : e₂ ≠ root := by
    rintro rfl
    exact renameAt_parent hp₁.stands_root.lt hren hp₁.root_parent
  obtain ⟨w₂,l₂,h₂⟩ := hp.found hnull₂ hroot₂ hstart₂ hpath₂
  have hne := plain_ne hp₁ hagree h₁ h₂ hplain
  have hdots₁ := plain_dots hagree h₁ hplain
  have hdots₂ := plain_dots_new hagree h₂ hplain
  have hfile := plain_file hp hp₁ hagree h₁ hv₁ hplain
  have hlt : ∀ {start : Option Nat}, (∀ x, start = some x → x < s.numEntries) →
      ∀ x, start = some x → x < s₁.numEntries :=
    fun h x hx => Nat.lt_of_lt_of_le (h x hx) hgrow
  refine ⟨?_,?_,?_,?_,?_⟩
  · intro v' hv'
    obtain rfl : v = v' := by
      rw [hp.tree.resolves_iff] at hres hv'
      exact Option.some.inj (hres.unique hv')
    exact moved_arrives hp₁ h₁ h₂ hren hne hv₁ hdots₂ hfile hdots₁ (hlt hstart₂)
      fun u hu => plain_clear hagree h₂ hplain hu
  · intro path path' rest follow v' hrest hpath hpath' hres'
    exact (plain_below hp hp₁ hagree h₁ hv₁ hplain hrest hpath hres').elim
  · intro _ v'
    exact moved_leaves hp₁ h₁ h₂ hren hne hv₁ hdots₂ hfile hdots₁ (hlt hstart₁)
  · intro hsame
    exact absurd hsame hplain.differ
  · intro path start follow hstart havoid v'
    exact plain_others hp hp₁ hagree h₁ h₂ hren hv₁ hplain (hlt hstart) havoid

end Perform

section OneTurn

variable {frame : Walk → List UInt8} {path : Path} {start : Option Nat} {w : Walk} {r : Option Nat}

theorem endsAt_one (hw : s.begin path start = .again w) (hstop : s.look frame true w = .stop r)
    {d len : Nat} {n : Name} (hcomp : w.component = .name len true) :
    s.EndsAt frame path start d n ↔ w.cur = d ∧ cstr (w.path.take len) = n := by
  constructor
  · rintro ⟨w',l,len',r',hw',hvisits,-,hcomp',hd,hn⟩
    cases hw.symm.trans hw'
    obtain rfl := visits_stop hstop hvisits
    cases hcomp.symm.trans hcomp'
    exact ⟨hd,hn⟩
  · rintro ⟨hd,hn⟩
    exact ⟨w,w,len,r,hw,.refl,hstop,hcomp,hd,hn⟩

end OneTurn

def regularResult : Result :=
  oneFile.perform plainEnv rootProcess 2 atFdcwd [47,103] (.rename atFdcwd [47,102])

example : (oneFile.entry root).children.length = 3 := by decide +kernel

theorem regularResult_isSome : regularResult.isSome := by decide +kernel

theorem oneFile_plain : oneFile.PlainRename plainEnv.frame [47,102] none [47,103] none := by
  have hold {d : Nat} {n : Name} :
      oneFile.EndsAt plainEnv.frame [47,102] none d n ↔ root = d ∧ [102] = n :=
    endsAt_one (w := ⟨root,[102],1⟩) (r := some 1) rfl rfl
      (show Walk.component _ = .name 1 true from rfl)
  have hnew {d : Nat} {n : Name} :
      oneFile.EndsAt plainEnv.frame [47,103] none d n ↔ root = d ∧ [103] = n :=
    endsAt_one (w := ⟨root,[103],1⟩) (r := none) rfl rfl
      (show Walk.component _ = .name 1 true from rfl)
  refine ⟨?_,?_,?_,?_,?_⟩
  · intro v hv
    have hres : oneFile.Resolves plainEnv.frame [47,102] none true 1 :=
      resolves_of_bind 1 (by decide +kernel)
    rw [Proper.oneFile.tree.resolves_iff] at hv hres
    cases hres.unique hv
    decide +kernel
  · intro w w' henter hvisits
    obtain rfl : w = ⟨root,[102],1⟩ := (Turn.again.inj henter).symm
    have hstop : oneFile.walkStep plainEnv.frame true ⟨root,[102],1⟩ = .stop (4,oneFile) := rfl
    obtain rfl := visits_stop hstop hvisits
    refine ⟨?_,?_,?_⟩
    · rintro (hall | ⟨len,hlen,-⟩)
      · exact absurd hall (by decide +kernel)
      · cases hlen
    · rintro ⟨-,hlen,-⟩
      exact hlen rfl
    · rintro ⟨len,last,e,v,hcomp,hlive,-,hlink,-⟩
      cases hcomp
      have hfile : oneFile.live root [102] = some (4,1) := rfl
      cases hfile.symm.trans hlive
      exact absurd hlink (by decide +kernel)
  · rintro ⟨d,n,h,h'⟩
    rw [hold] at h
    rw [hnew,← h.2] at h'
    exact absurd h'.2 (by decide)
  · rintro d n (h | h)
    · rw [hold] at h
      rw [← h.2]
      exact show ¬(([102] : Name) = dot ∨ ([102] : Name) = dotDot) from by decide
    · rw [hnew] at h
      rw [← h.2]
      exact show ¬(([103] : Name) = dot ∨ ([103] : Name) = dotDot) from by decide
  · intro w u d n e v _ _ h hlive
    rw [hnew] at h
    rw [← h.1,← h.2] at hlive
    have hnone : oneFile.live root [103] = none := rfl
    cases hnone.symm.trans hlive

theorem rename_file_root : ∃ s', regularResult = some (s',.ok ()) ∧
    oneFile.Renames plainEnv.frame [47,102] none [47,103] none s' := by
  have hproc : rootProcess.Valid oneFile := by
    refine ⟨by decide +kernel,?_⟩
    rintro fd d ⟨⟩
  have hold : oneFile.getStartingPoint rootProcess atFdcwd [47,102] = .ok none := rfl
  have hnew : oneFile.getStartingPoint rootProcess atFdcwd [47,103] = .ok none := rfl
  have hs : oneFile.perform plainEnv rootProcess 2 atFdcwd [47,103] (.rename atFdcwd [47,102]) =
    some ((regularResult.get regularResult_isSome).1,.ok ()) := rfl
  exact ⟨_,rfl,rename_file Proper.oneFile hproc hold hnew hs oneFile_plain⟩

-- `mknod("/a/f")` after `mkdir("/a")`, and then `rename("/a", "/b")`.
def fileInDirResult : Result :=
  oneDir.perform plainEnv rootProcess 3 atFdcwd [47,97,47,102] (.mknod 0o644 0)

example : (oneDir.entry root).children.length = 3 := by decide +kernel

theorem fileInDirResult_isSome : fileInDirResult.isSome := by decide +kernel

def fileInDir : State := (fileInDirResult.get fileInDirResult_isSome).1

theorem Proper.fileInDir : Proper fileInDir :=
  Proper.oneDir.perform (Option.some_get fileInDirResult_isSome).symm

def dirMovedResult : Result :=
  fileInDir.perform plainEnv rootProcess 3 atFdcwd [47,98] (.rename atFdcwd [47,97])

theorem dirMovedResult_isSome : dirMovedResult.isSome := by decide +kernel

def dirMoved : State := (dirMovedResult.get dirMovedResult_isSome).1

-- The children stay with the old entry.
theorem rename_loses_children : Proper fileInDir ∧ dirMovedResult = some (dirMoved,.ok ()) ∧
    ¬fileInDir.Renames plainEnv.frame [47,97] none [47,98] none dirMoved := by
  refine ⟨Proper.fileInDir,rfl,fun h => ?_⟩
  have hres : fileInDir.Resolves plainEnv.frame [47,97,47,102] none true 2 :=
    resolves_of_bind 3 (by decide +kernel)
  have hbelow := h.below [47,97,47,102] [47,98,47,102] [102] true 2 (by decide) (by decide)
    (by decide) hres
  have hlost : dirMoved.pathToEntry plainEnv.frame 3 [47,98,47,102] none true =
      some (11,(dirMoved.lookupNew 8 [102]).1) := rfl
  exact not_resolves hlost (by decide +kernel) hbelow

end SabaOS.Vfs
