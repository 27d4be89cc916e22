import SabaOS.Fs.Rename
import SabaOS.Fs.Slashes

namespace SabaOS.Vfs

open SabaOS.Fs SabaOS.Lib

variable {s s' : State} {frame : Walk → List UInt8} {follow : Bool} {w w' : Walk} {path : Path}
variable {start : Option Nat} {m : Move} {v : Nat}

theorem reduceWithin_of_none {n e : Nat} (h : (s.entry e).redirect = none) :
    s.reduceWithin n e = e := by
  cases n with
  | zero => rfl
  | succ n => rw [State.reduceWithin,h]

section Walk

variable {P : Nat → Prop} (hroot : P root) (hchild : ∀ d c, P d → c ∈ (s.entry d).children → P (s.reduce c))
variable (hfix : ∀ d, P d → P (s.reduce d))

include hroot hchild hfix

theorem look_within (hcur : P w.cur) (h : s.look frame follow w = .again w') : P w'.cur := by
  obtain ⟨d,-,-,⟨-,rfl⟩ | ⟨len,last,e,v,-,hlive,⟨-,hfollow⟩ | ⟨-,-,rfl⟩⟩⟩ := look_again h
  · exact hcur
  · rcases enter_again (follow_again hfollow) with heq | ⟨e',he',heq⟩
    · exact heq ▸ hroot
    · cases he'
      exact heq ▸ hfix _ hcur
  · exact hchild _ _ hcur (List.mem_of_find?_eq_some (live_mem hlive).1)

theorem visits_within (hcur : P w.cur) (h : Visits (s.look frame follow) w w') : P w'.cur := by
  induction h with
  | refl => exact hcur
  | tail _ hstep ih => exact look_within hroot hchild hfix ih hstep

omit hchild hfix in
theorem enter_within (hstart : ∀ x, start = some x → P (s.reduce x))
    (h : s.enter path start = .again w) : P w.cur := by
  rcases enter_again h with heq | ⟨e,he,heq⟩
  · exact heq ▸ hroot
  · exact heq ▸ hstart e he

end Walk

structure Stands (s : State) (e : Nat) : Prop where
  lt : e < s.numEntries
  reduced : s.reduce e = e

theorem Proper.stands_reduce (h : Proper s) {e : Nat} (he : e < s.numEntries) :
    Stands s (s.reduce e) :=
  ⟨h.tree.reduceWithin_lt _ he,reduceWithin_of_none (h.tree.grounded e)⟩

theorem Proper.stands_root (h : Proper s) : Stands s root := by
  obtain ⟨d,hd,-⟩ := h.root_vnode
  exact ⟨h.tree.lt_of_vnode hd,reduceWithin_of_none h.root_redirect⟩

theorem Proper.stands_visits (hp : Proper s) (hw : Stands s w.cur)
    (h : Visits (s.look frame follow) w w') : Stands s w'.cur :=
  visits_within hp.stands_root (fun d c _ hc => hp.stands_reduce (hp.tree.child_lt d c hc))
    (fun _ hd => hp.stands_reduce hd.lt) hw h

theorem Proper.stands_begin (hp : Proper s) (hstart : ∀ e, start = some e → e < s.numEntries)
    (h : s.begin path start = .again w) : Stands s w.cur :=
  enter_within hp.stands_root (fun e he => hp.stands_reduce (hstart e he)) (begin_again.mp h)

def Walk.Asks (w : Walk) (d : Nat) (n : Name) : Prop :=
  w.cur = d ∧ ∃ len last, w.component = .name len last ∧ cstr (w.path.take len) = n

namespace Move

variable (ha : m.Apart s s') (hp : Proper s) (hroot : m.entry ≠ root) (hnull : m.entry ≠ nullEntry)

include ha hp hroot hnull

theorem Apart.begin_eq (hstart : ∀ e, start = some e → e < s.numEntries) :
    s'.begin path start = s.begin path start := by
  have hn : (s'.entry nullEntry).vnode = (s.entry nullEntry).vnode :=
    ha.entry _ hp.tree.null_lt hnull.symm
  have hr : (s'.entry root).vnode = (s.entry root).vnode :=
    ha.entry _ hp.stands_root.lt hroot.symm
  simp only [State.begin,State.enter]
  split_ifs
  · simp [vnodeOf,hn]
  · simp [vnodeOf,hr]
  · rfl
  · cases start with
    | none => simp [vnodeOf,hn]
    | some e => simp [ha.reduce e (hstart e rfl)]

theorem Apart.follow_eq {frame : List UInt8} {cur v : Nat} (hcur : cur < s.numEntries) :
    s'.follow frame cur v path = s.follow frame cur v path := by
  have hn : (s'.entry nullEntry).vnode = (s.entry nullEntry).vnode :=
    ha.entry _ hp.tree.null_lt hnull.symm
  simp only [State.follow,State.splice,ha.contents]
  split_ifs
  · simp [vnodeOf,hn]
  · rfl
  · exact ha.begin_eq hp hroot hnull (by rintro e ⟨⟩; exact hcur)

theorem Apart.look_eq (hw : Stands s w.cur) (hne : w.cur ≠ m.entry)
    (hold : ¬w.Asks m.oldDir m.oldName) (hnew : ¬w.Asks m.newDir m.newName) :
    s'.look frame follow w = s.look frame follow w := by
  simp only [State.look,ha.entry w.cur hw.lt hne]
  cases (s.entry w.cur).vnode with
  | none => rfl
  | some d =>
    simp only [ha.nodeType]
    cases hcomp : w.component with
    | skip => rfl
    | name len last =>
      have hsp : ¬m.Special w.cur (cstr (w.path.take len)) := by
        rintro (⟨hd,hn⟩ | ⟨hd,hn⟩ | ⟨hd,-⟩)
        · exact hold ⟨hd,len,last,hcomp,hn⟩
        · exact hnew ⟨hd,len,last,hcomp,hn⟩
        · exact hne hd
      simp only [State.pick,ha.live w.cur hw.lt _ hsp,ha.nodeType]
      cases hlive : s.live w.cur (cstr (w.path.take len)) with
      | none => rfl
      | some ev =>
        have he := hp.tree.child_lt _ _ (List.mem_of_find?_eq_some (live_mem hlive).1)
        simp only [ha.follow_eq hp hroot hnull hw.lt,ha.reduce ev.1 he]

end Move

theorem ends_congr {γ ρ : Type} {step step' : γ → Turn γ ρ} {c : γ} {r : ρ}
    (h : ∀ d, Visits step c d → step' d = step d) : Ends step' c r ↔ Ends step c r := by
  refine exists_congr fun n => ?_
  suffices hrun : run step' n c = run step n c by rw [hrun]
  induction n generalizing c with
  | zero => rfl
  | succ n ih =>
    simp only [run,h c .refl]
    cases hs : step c with
    | again c' => exact ih fun d hd => h d (.head hs hd)
    | stop r => rfl
    | stuck => rfl

def State.PassesBy (s : State) (frame : Walk → List UInt8) (follow : Bool) (path : Path)
    (start : Option Nat) (m : Move) : Prop :=
  ∀ w w', s.begin path start = .again w → Visits (s.look frame follow) w w' →
    w'.cur ≠ m.entry ∧ ¬w'.Asks m.oldDir m.oldName ∧ ¬w'.Asks m.newDir m.newName

theorem Move.Apart.resolves (ha : m.Apart s s') (hp : Proper s) (hp' : Proper s')
    (hroot : m.entry ≠ root) (hnull : m.entry ≠ nullEntry)
    (hstart : ∀ e, start = some e → e < s.numEntries)
    (hby : s.PassesBy frame follow path start m) (v : Nat) :
    s'.Resolves frame path start follow v ↔ s.Resolves frame path start follow v := by
  rw [hp.tree.resolves_iff,hp'.tree.resolves_iff,ha.begin_eq hp hroot hnull hstart]
  cases hb : s.begin path start with
  | again w =>
    refine ends_congr fun u hu => ?_
    obtain ⟨hne,hold,hnew⟩ := hby w u hb hu
    exact ha.look_eq hp hroot hnull (hp.stands_visits (hp.stands_begin hstart hb) hu) hne hold hnew
  | stop r => rfl
  | stuck => rfl

structure Found (s : State) (frame : Walk → List UInt8) (path : Path) (start : Option Nat)
    (e : Nat) (w l : Walk) : Prop where
  first : s.begin path start = .again w
  visits : Visits (s.look frame true) w l
  component : ∃ len, l.component = .name len true ∧ cstr (l.path.take len) = (s.entry e).name
  directory : ∃ d, (s.entry l.cur).vnode = some d ∧ (s.vnode d).nodeType = .directory
  child : s.findChild l.cur (s.entry e).name = some e
  noLink : ∀ v, (s.entry e).vnode = some v → (s.vnode v).nodeType ≠ .symlink

theorem lookupNew_self_name {d : Nat} {n : Name} :
    ((s.lookupNew d n).1.entry s.numEntries).name = n := by
  rw [lookupNew_same (g := Entry.name) (fun _ => rfl) fun _ => rfl,if_pos rfl]
  rfl

theorem lookupNew_eq {d : Nat} {n : Name} (hp : Proper s) (hd : Stands s d)
    (hnone : s.findChild d n = none) : (s.lookupNew d n).1 =
      (s.new (.construct none (some d) n none)).addChild d s.numEntries := by
  let t := s.new (.construct none (some d) n none)
  have hold : ∀ x, x < s.numEntries → t.entry x = s.entry x := by
    intro x hx
    simp only [t]
    rw [new_entry,if_neg (Nat.ne_of_lt hx)]
  have hred : t.reduce d = d := (hp.tree.reduce_new_old hd.lt).trans hd.reduced
  have hnone' : t.findChild d n = none := by
    rw [findChild_none,hold d hd.lt]
    intro c hc
    rw [hold c (hp.tree.child_lt d c hc)]
    exact findChild_none.mp hnone c hc
  show (if t.findChild (t.reduce d) n = none then t.addChild d s.numEntries else t) = _
  rw [hred,if_pos hnone']

theorem lookupNew_findChild {d : Nat} {n : Name} (hp : Proper s) (hd : Stands s d)
    (hnone : s.findChild d n = none) : (s.lookupNew d n).1.findChild d n = some s.numEntries := by
  have hname : ((s.lookupNew d n).1.entry s.numEntries).name = n := lookupNew_self_name
  rw [lookupNew_eq hp hd hnone] at hname ⊢
  rw [State.findChild,addChild_children,if_pos rfl,List.find?_cons]
  simp [hname]

section Find

variable {e : Nat} {s₁ : State} (hp : Proper s) (hnull : e ≠ nullEntry) (hroot : e ≠ root)

include hp hnull hroot

omit hp in
theorem enter_not_found (h : s.enter path start = .stop (e,s₁)) : False := by
  simp only [State.enter] at h
  split_ifs at h
  · exact hnull (congrArg Prod.fst (Turn.stop.inj h)).symm
  · exact hroot (congrArg Prod.fst (Turn.stop.inj h)).symm
  · cases start with
    | none => exact hnull (congrArg Prod.fst (Turn.stop.inj h)).symm
    | some _ => cases h

omit hp in
theorem splice_not_found {frame : List UInt8} {cur v : Nat}
    (h : s.splice frame cur v path = .stop (e,s₁)) : False := by
  simp only [State.splice] at h
  split_ifs at h
  · exact hnull (congrArg Prod.fst (Turn.stop.inj h)).symm
  · exact enter_not_found hnull hroot h

theorem walkStep_found (hw : Stands s w.cur) (h : s.walkStep frame true w = .stop (e,s₁)) :
    (∃ len, w.component = .name len true ∧ cstr (w.path.take len) = (s₁.entry e).name) ∧
    (∃ d, (s.entry w.cur).vnode = some d ∧ (s.vnode d).nodeType = .directory) ∧
    s₁.findChild w.cur (s₁.entry e).name = some e ∧
    ∀ v, (s₁.entry e).vnode = some v → (s₁.vnode v).nodeType ≠ .symlink := by
  simp only [State.walkStep] at h
  cases hv : (s.entry w.cur).vnode with
  | none => simp [hv] at h
  | some d =>
    simp only [hv] at h
    split_ifs at h with hdir
    · exact absurd (congrArg Prod.fst (Turn.stop.inj h)).symm hnull
    · cases hcomp : w.component with
      | skip => simp [hcomp] at h
      | name len last =>
        simp only [hcomp,State.descend] at h
        cases hfind : s.findChild w.cur (cstr (w.path.take len)) with
        | none =>
          simp only [hfind,Turn.stop.injEq,Prod.mk.injEq] at h
          obtain ⟨he,rfl⟩ := h
          cases last with
          | false => exact absurd he.symm hnull
          | true =>
            obtain rfl : s.numEntries = e := he
            refine ⟨⟨len,rfl,(lookupNew_self_name).symm⟩,⟨d,rfl,not_not.mp hdir⟩,?_,?_⟩
            · rw [lookupNew_self_name]
              exact lookupNew_findChild hp hw hfind
            · intro v hvn
              rw [lookupNew_vnode,if_pos rfl] at hvn
              cases hvn
        | some c =>
          have hname : (s.entry c).name = cstr (w.path.take len) := by
            simpa using List.find?_some hfind
          simp only [hfind] at h
          cases hc : (s.entry c).vnode with
          | none =>
            simp only [hc,Turn.stop.injEq,Prod.mk.injEq] at h
            obtain ⟨he,rfl⟩ := h
            cases last with
            | false => exact absurd he.symm hnull
            | true =>
              obtain rfl : c = e := he
              refine ⟨⟨len,rfl,hname.symm⟩,⟨d,rfl,not_not.mp hdir⟩,hname ▸ hfind,?_⟩
              intro v hvn
              rw [hc] at hvn
              cases hvn
          | some v =>
            simp only [hc] at h
            split_ifs at h with hlink hlast
            · exact (splice_not_found hnull hroot h).elim
            · cases h
              subst hlast
              refine ⟨⟨len,rfl,hname.symm⟩,⟨d,rfl,not_not.mp hdir⟩,hname ▸ hfind,?_⟩
              intro v' hv' hsym
              rw [hc] at hv'
              cases hv'
              exact hlink ⟨rfl,hsym⟩

theorem Proper.found {fuel : Nat} (hstart : ∀ x, start = some x → x < s.numEntries)
    (hr : s.pathToEntry frame fuel path start true = some (e,s₁)) :
    ∃ w l, Found s₁ frame path start e w l := by
  obtain ⟨htree,hagree⟩ := hp.tree.pathToEntry hr
  have hp₁ : Proper s₁ := hp.pathToEntry hr
  have hlook : s₁.look frame true = s.look frame true := funext fun w => hagree.look_eq
  have hends := pathToEntry_iff.mp ⟨fuel,hr⟩
  cases henter : s.enter path start with
  | again w =>
    rw [henter] at hends
    obtain ⟨l,hvisits,hstop⟩ := Ends.last hends
    have hvisits' := hp.tree.visits_iff.mp hvisits
    have hl := hp.stands_visits (hp.stands_begin hstart (begin_again.mpr henter)) hvisits'
    obtain ⟨hcomp,⟨d,hd,hdir⟩,hchild,hlink⟩ := walkStep_found hp hnull hroot hl hstop
    refine ⟨w,l,⟨?_,hlook ▸ hvisits',hcomp,⟨d,(hagree.entry _).trans hd,?_⟩,hchild,hlink⟩⟩
    · rw [hagree.begin_eq]
      exact begin_again.mpr henter
    · rw [hagree.vnode]
      exact hdir
  | stop r =>
    rw [henter] at hends
    cases hends
    exact (enter_not_found hnull hroot henter).elim
  | stuck =>
    rw [henter] at hends
    exact hends.elim

end Find

theorem stop_at_file (hv : (s.entry w.cur).vnode = some v) (hfile : (s.vnode v).nodeType ≠ .directory) :
    s.look frame follow w = .stop none := by
  simp [State.look,hv,hfile]

theorem Proper.reduce_self (hp : Proper s) {e : Nat} (h : ¬IsDots (s.entry e).name) :
    s.reduce e = e :=
  reduceWithin_of_none (not_not.mp fun hne => h (hp.dots e hne))

theorem Found.asks_again {e : Nat} {l u u' : Walk} (hf : Found s frame path start e w l)
    (hasks : u.Asks l.cur (s.entry e).name) (h : s.look frame true u = .again u') :
    u'.cur = s.reduce e ∧ ∃ len, u.component = .name len false := by
  obtain ⟨hcur,len,last,hcomp,hname⟩ := hasks
  obtain ⟨d,-,-,⟨hskip,-⟩ | ⟨len',last',c,v,hcomp',hlive,hcase⟩⟩ := look_again h
  · cases hcomp.symm.trans hskip
  · cases hcomp.symm.trans hcomp'
    obtain ⟨hfind,hv⟩ := live_mem hlive
    rw [hcur,hname,hf.child] at hfind
    cases hfind
    rcases hcase with ⟨⟨-,hlink⟩,-⟩ | ⟨-,rfl,rfl⟩
    · exact absurd hlink (hf.noLink v hv)
    · exact ⟨rfl,len,hcomp⟩

section Renaming

variable {e₁ e₂ : Nat} {w₁ l₁ w₂ l₂ : Walk} {old new : Path} {start₁ start₂ : Option Nat}
variable {ret : Except Errno Unit}
variable (hp : Proper s) (h₁ : Found s frame old start₁ e₁ w₁ l₁)
variable (h₂ : Found s frame new start₂ e₂ w₂ l₂) (hs : s.renameAt e₁ e₂ = some (s',ret))

include hp h₁ h₂ hs

theorem moved_apart : (s.move e₁ l₁.cur e₂ l₂.cur).Apart s s' :=
  renameAt_apart hp (hp.linked _ _ (List.mem_of_find?_eq_some h₁.child))
    (hp.linked _ _ (List.mem_of_find?_eq_some h₂.child)) hs

variable (hne : e₁ ≠ e₂)

include hne

theorem moved_old (hdots₁ : ¬IsDots (s.entry e₁).name) : s'.live l₁.cur (s.entry e₁).name = none :=
  renameAt_old hp (hp.linked _ _ (List.mem_of_find?_eq_some h₁.child))
    (hp.linked _ _ (List.mem_of_find?_eq_some h₂.child)) hs hne (List.mem_of_find?_eq_some h₁.child)
    hdots₁

variable (hv : (s.entry e₁).vnode = some v) (hdots₂ : ¬IsDots (s.entry e₂).name)

include hv hdots₂

theorem moved_new : s'.live l₂.cur (s.entry e₂).name = some (e₂,v) :=
  renameAt_new hp hs hne hv h₁.child h₂.child hdots₂

variable (hfile : (s.vnode v).nodeType ≠ .directory) (hdots₁ : ¬IsDots (s.entry e₁).name)

include hfile hdots₁

omit h₂ hs hne hdots₂ in
theorem asks_old_last {e : Nat} {l u u' : Walk} (h : Found s frame path start e w l)
    (hstep : s.look frame true u = .again u') (hrest : Visits (s.look frame true) u' l) :
    ¬u.Asks l₁.cur (s.entry e₁).name := by
  intro hasks
  have hcur := (h₁.asks_again hasks hstep).1
  rw [hp.reduce_self hdots₁] at hcur
  have hstop : s.look frame true u' = .stop none := stop_at_file (hcur ▸ hv) hfile
  obtain ⟨d,hd,hdir⟩ := h.directory
  rw [visits_stop hstop hrest,hcur,hv] at hd
  cases hd
  exact hfile hdir

omit h₁ hv hfile hdots₁ hs hne in
theorem asks_new_last {u u' : Walk} (hclear : u'.cur ≠ e₂)
    (hstep : s.look frame true u = .again u') : ¬u.Asks l₂.cur (s.entry e₂).name := by
  intro hasks
  have hcur := (h₂.asks_again hasks hstep).1
  exact hclear (hcur.trans (hp.reduce_self hdots₂))

omit hne in
theorem moved_visits (hstart : ∀ x, start₂ = some x → x < s.numEntries)
    (hclear : ∀ u, Visits (s.look frame true) w₂ u → u.cur ≠ e₂) {u : Walk}
    (hu : Visits (s.look frame true) w₂ u) (hrest : Visits (s.look frame true) u l₂) :
    Visits (s'.look frame true) w₂ u := by
  have ha := moved_apart hp h₁ h₂ hs
  have hpar := hp.linked _ _ (List.mem_of_find?_eq_some h₂.child)
  induction hu with
  | refl => exact .refl
  | @tail u u' hu hstep ih =>
    have hstand := hp.stands_visits (hp.stands_begin hstart h₂.first) hu
    have hold := asks_old_last hp h₁ hv hfile hdots₁ h₂ hstep hrest
    have hnew := asks_new_last hp h₂ hdots₂ (hclear u' (hu.tail hstep)) hstep
    have hlook : s'.look frame true u = s.look frame true u :=
      ha.look_eq hp (hp.root_ne hpar) (hp.tree.ne_null hpar) hstand (hclear u hu) hold hnew
    exact (ih (.head hstep hrest)).tail (hlook.trans hstep)

theorem moved_arrives (hstart : ∀ x, start₂ = some x → x < s.numEntries)
    (hclear : ∀ u, Visits (s.look frame true) w₂ u → u.cur ≠ e₂) :
    s'.Resolves frame new start₂ true v := by
  have ha := moved_apart hp h₁ h₂ hs
  have hpar := hp.linked _ _ (List.mem_of_find?_eq_some h₂.child)
  have hp' : Proper s' := hp.renameAt hs
  have hvisits := moved_visits hp h₁ h₂ hs hv hdots₂ hfile hdots₁ hstart hclear h₂.visits .refl
  have hstand := hp.stands_visits (hp.stands_begin hstart h₂.first) h₂.visits
  obtain ⟨d,hd,hdir⟩ := h₂.directory
  obtain ⟨len,hcomp,hname⟩ := h₂.component
  have hd' : (s'.entry l₂.cur).vnode = some d :=
    (ha.entry l₂.cur hstand.lt (hclear l₂ h₂.visits)).trans hd
  have hlive : s'.live l₂.cur (cstr (l₂.path.take len)) = some (e₂,v) := by
    rw [hname]
    exact moved_new hp h₁ h₂ hs hne hv hdots₂
  have hstop : s'.look frame true l₂ = .stop (some v) := by
    simp [State.look,hd',ha.nodeType,hdir,hcomp,State.pick,hlive,
      show (s.vnode v).nodeType ≠ .symlink from h₁.noLink v hv]
  rw [hp'.tree.resolves_iff,ha.begin_eq hp (hp.root_ne hpar) (hp.tree.ne_null hpar) hstart,h₂.first]
  exact (ends_visits hvisits).mpr (.stop hstop)

theorem moved_ends (hstart : ∀ x, start₁ = some x → x < s.numEntries) {u : Walk}
    (hu : Visits (s.look frame true) w₁ u) (hrest : Visits (s.look frame true) u l₁)
    {r : Option Nat} (hends : Ends (s'.look frame true) u r) : r = none := by
  have ha := moved_apart hp h₁ h₂ hs
  have hpar := hp.linked _ _ (List.mem_of_find?_eq_some h₂.child)
  have hreduce : s'.reduce e₂ = e₂ :=
    (ha.reduce e₂ (hp.tree.lt_of_parent hpar)).trans (hp.reduce_self hdots₂)
  have hv' : (s'.entry e₂).vnode = some v :=
    (live_mem (moved_new hp h₁ h₂ hs hne hv hdots₂)).2
  have hfile' : (s'.vnode v).nodeType ≠ .directory := by
    rw [ha.nodeType]
    exact hfile
  have hatNew : ∀ {u : Walk}, u.cur = e₂ → Ends (s'.look frame true) u r → r = none := by
    intro u hcur hends
    exact ((ends_stop (stop_at_file (hcur ▸ hv') hfile')).mp hends).symm
  have hstep_eq : ∀ {u : Walk}, Visits (s.look frame true) w₁ u → u.cur ≠ e₂ →
      ¬u.Asks l₁.cur (s.entry e₁).name → ¬u.Asks l₂.cur (s.entry e₂).name →
      s'.look frame true u = s.look frame true u := by
    intro u hu hcur hold hnew
    exact ha.look_eq hp (hp.root_ne hpar) (hp.tree.ne_null hpar)
      (hp.stands_visits (hp.stands_begin hstart h₁.first) hu) hcur hold hnew
  induction hrest using Relation.ReflTransGen.head_induction_on with
  | refl =>
    by_cases hcur : l₁.cur = e₂
    · exact hatNew hcur hends
    · obtain ⟨d,hd,hdir⟩ := h₁.directory
      obtain ⟨len,hcomp,hname⟩ := h₁.component
      have hstand := hp.stands_visits (hp.stands_begin hstart h₁.first) h₁.visits
      have hd' : (s'.entry l₁.cur).vnode = some d := (ha.entry l₁.cur hstand.lt hcur).trans hd
      have hstop : s'.look frame true l₁ = .stop none := by
        simp [State.look,hd',ha.nodeType,hdir,hcomp,State.pick,hname,
          moved_old hp h₁ h₂ hs hne hdots₁]
      exact ((ends_stop hstop).mp hends).symm
  | @head u u' hstep hrest ih =>
    by_cases hcur : u.cur = e₂
    · exact hatNew hcur hends
    · have hold := asks_old_last hp h₁ hv hfile hdots₁ h₁ hstep hrest
      by_cases hnew : u.Asks l₂.cur (s.entry e₂).name
      · obtain ⟨-,len,hcomp⟩ := h₂.asks_again hnew hstep
        obtain ⟨hucur,len',last,hcomp',hname⟩ := hnew
        cases hcomp.symm.trans hcomp'
        obtain ⟨d,hd,hdir,-⟩ := look_again hstep
        have hstand := hp.stands_visits (hp.stands_begin hstart h₁.first) hu
        have hd' : (s'.entry u.cur).vnode = some d := (ha.entry u.cur hstand.lt hcur).trans hd
        have hlive : s'.live u.cur (cstr (u.path.take len)) = some (e₂,v) := by
          rw [hucur,hname]
          exact moved_new hp h₁ h₂ hs hne hv hdots₂
        have hlook : s'.look frame true u = .again
            ⟨s'.reduce e₂,u.path.drop (len + 1),u.pathLen - (len + 1)⟩ := by
          simp [State.look,hd',ha.nodeType,hdir,hcomp,State.pick,hlive,
            show (s.vnode v).nodeType ≠ .symlink from h₁.noLink v hv]
        exact hatNew hreduce ((ends_again hlook).mp hends)
      · have hlook := hstep_eq hu hcur hold hnew
        exact ih (hu.tail hstep) ((ends_again (hlook.trans hstep)).mp hends)

theorem moved_leaves (hstart : ∀ x, start₁ = some x → x < s.numEntries) {v' : Nat} :
    ¬s'.Resolves frame old start₁ true v' := by
  have ha := moved_apart hp h₁ h₂ hs
  have hpar := hp.linked _ _ (List.mem_of_find?_eq_some h₂.child)
  have hp' : Proper s' := hp.renameAt hs
  rw [hp'.tree.resolves_iff,ha.begin_eq hp (hp.root_ne hpar) (hp.tree.ne_null hpar) hstart,h₁.first]
  intro hends
  cases moved_ends hp h₁ h₂ hs hne hv hdots₂ hfile hdots₁ hstart .refl h₁.visits hends

end Renaming

end SabaOS.Vfs
