import SabaOS.Fs.Links
import SabaOS.Fs.Shape
import SabaOS.Lib.Holders

namespace SabaOS.Vfs

open SabaOS.Fs SabaOS.Lib

instance (name : Name) : Decidable (IsDots name) :=
  inferInstanceAs (Decidable (name = dot ∨ name = dotDot))

namespace State

-- What a linked entry names. The vnode that `.` and `..` point to is not counted for them.
def naming (s : State) (e : Nat) : Option Nat :=
  match (s.entry e).parent with
  | none => none
  | some p =>
    if e ∈ (s.entry p).children ∧ ¬IsDots (s.entry e).name then (s.entry e).vnode else none

def Counted (s : State) (opened : Nat → Option Nat) : Prop :=
  ∃ links opens, Held s.naming links ∧ Held opened opens ∧
    ∀ v, (s.vnode v).refCount = (links v : Int) + opens v

structure Alters (e : Nat) (s s' : State) : Prop where
  grows : Grows s s'
  keeps : ∀ x < s.numEntries, x ≠ e → s.Keeps s' x
  naming : ∀ x, x ≠ e → s'.naming x = s.naming x
  fresh : ∀ x, x ≠ e → s.numEntries ≤ x → x < s'.numEntries →
    (s'.entry x).vnode = none ∨ IsDots (s'.entry x).name

end State

variable {s s' s'' : State} {e d x y parent v : Nat} {name : Name} {nodeType : NodeType}
variable {uid gid mode : Option Nat} {opened : Nat → Option Nat}

theorem naming_congr (hparent : (s'.entry x).parent = (s.entry x).parent)
    (hname : (s'.entry x).name = (s.entry x).name) (hvnode : (s'.entry x).vnode = (s.entry x).vnode)
    (hchildren : ∀ p, (s.entry x).parent = some p →
      (x ∈ (s'.entry p).children ↔ x ∈ (s.entry p).children)) : s'.naming x = s.naming x := by
  simp only [State.naming,hparent,hname,hvnode]
  cases hp : (s.entry x).parent with
  | none => rfl
  | some p => simp only [hchildren p hp]

theorem naming_linked (hpar : (s.entry e).parent = some parent)
    (hmem : e ∈ (s.entry parent).children) (hdots : ¬IsDots (s.entry e).name) :
    s.naming e = (s.entry e).vnode := by
  simp only [State.naming,hpar]
  exact if_pos ⟨hmem,hdots⟩

theorem naming_unlinked (hmem : ∀ p, (s.entry e).parent = some p → e ∉ (s.entry p).children) :
    s.naming e = none := by
  simp only [State.naming]
  cases hp : (s.entry e).parent with
  | none => rfl
  | some p => exact if_neg fun h => hmem p hp h.1

theorem naming_none (hv : (s.entry e).vnode = none) : s.naming e = none := by
  simp only [State.naming,hv]
  cases (s.entry e).parent with
  | none => rfl
  | some p => exact ite_self none

theorem vnode_of_naming (h : s.naming e = some v) : (s.entry e).vnode = some v := by
  simp only [State.naming] at h
  cases hp : (s.entry e).parent with
  | none => simp [hp] at h
  | some p =>
    simp only [hp] at h
    split_ifs at h
    exact h

namespace State.Alters

theorem in_place (hn : s'.numEntries = s.numEntries) (hg : Grows s s')
    (hk : ∀ x < s.numEntries, x ≠ e → s.Keeps s' x)
    (hnaming : ∀ x, x ≠ e → s'.naming x = s.naming x) : Alters e s s' :=
  ⟨hg,hk,hnaming,fun _ _ hx hlt => absurd hlt (Nat.not_lt.mpr (hn ▸ hx))⟩

theorem refl : Alters e s s := in_place rfl .refl (fun _ _ _ => .refl) fun _ _ => rfl

theorem trans (h : Alters e s s') (h' : Alters e s' s'') : Alters e s s'' where
  grows := h.grows.trans h'.grows
  keeps x hx hne := (h.keeps x hx hne).trans (h'.keeps x (Nat.lt_of_lt_of_le hx h.grows.entries) hne)
  naming x hne := (h'.naming x hne).trans (h.naming x hne)
  fresh := by
    intro x hne hx hlt
    rcases Nat.lt_or_ge x s'.numEntries with hmid | hmid
    · rw [(h'.keeps x hmid hne).vnode,h'.grows.name x hmid]
      exact h.fresh x hne hx hmid
    · exact h'.fresh x hne hmid hlt

theorem setEntry {f : Entry → Entry} (hparent : (f (s.entry y)).parent = (s.entry y).parent)
    (hname : (f (s.entry y)).name = (s.entry y).name)
    (hredirect : (f (s.entry y)).redirect = (s.entry y).redirect)
    (hvnode : y ≠ e ∨ y = Vfs.root → (f (s.entry y)).vnode = (s.entry y).vnode)
    (hnew : ∀ c ∈ (f (s.entry y)).children, c ∈ (s.entry y).children ∨
      c < s.numEntries ∧ (s.entry c).parent = some y)
    (hold : ∀ c, c ≠ e → (c ∈ (f (s.entry y)).children ↔ c ∈ (s.entry y).children)) :
    Alters e s (s.setEntry y f) := by
  have hv : ∀ x, x ≠ e → ((s.setEntry y f).entry x).vnode = (s.entry x).vnode := by
    intro x hx
    rw [setEntry_entry]
    split_ifs with hxy
    · rw [hvnode (.inl (hxy ▸ hx)),hxy]
    · rfl
  have hmem : ∀ d c, c ≠ e → (c ∈ ((s.setEntry y f).entry d).children ↔ c ∈ (s.entry d).children) := by
    intro d c hc
    rw [setEntry_entry]
    split_ifs with hd
    · rw [hold c hc,hd]
    · rfl
  refine in_place rfl (.setEntry hparent hname hredirect (fun heq => hvnode (.inr heq)) hnew) ?_ ?_
  · exact fun x _ hx => ⟨hv x hx,fun d hd => (hmem d x hx).mpr hd⟩
  · exact fun x hx => naming_congr (setEntry_same (g := Entry.parent) hparent)
      (setEntry_same (g := Entry.name) hname) (hv x hx) fun p _ => hmem p x hx

theorem flag {removed : Bool} : Alters e s (s.setEntry y fun x => { x with removed := removed }) :=
  .setEntry rfl rfl rfl (fun _ => rfl) (fun _ hc => .inl hc) fun _ _ => Iff.rfl

theorem setVnode (he : e ≠ Vfs.root) {v : Option Nat} : Alters e s (s.setVnode e v) :=
  .setEntry rfl rfl rfl (fun h => h.elim (absurd rfl) (absurd · he)) (fun _ hc => .inl hc)
    fun _ _ => Iff.rfl

theorem addChild (he : e < s.numEntries) (hp : (s.entry e).parent = some parent) :
    Alters e s (s.addChild parent e) := by
  refine flag.trans (.setEntry rfl rfl rfl (fun _ => rfl) (fun c hc => ?_) fun c hc => ?_)
  · rcases List.mem_cons.mp hc with rfl | hc
    · exact .inr ⟨he,(setEntry_same (g := Entry.parent) rfl).trans hp⟩
    · exact .inl hc
  · rw [List.mem_cons]
    exact or_iff_right hc

theorem attach (he : e < s.numEntries) (hp : (s.entry e).parent = some parent) :
    Alters e s (s.attach parent e) := by
  rw [State.attach]
  split_ifs
  · exact addChild he hp
  · exact refl

theorem detach : Alters e s (s.detach e) := by
  rw [State.detach]
  cases (s.entry e).parent with
  | none => exact refl
  | some p =>
    refine .setEntry rfl rfl rfl (fun _ => rfl) (fun c hc => .inl (List.mem_of_mem_erase hc)) ?_
    exact fun c hc => List.mem_erase_of_ne hc

theorem setVNode {g : VNode → VNode} (htype : (g (s.vnode v)).nodeType = (s.vnode v).nodeType) :
    Alters e s (s.setVNode v g) :=
  in_place rfl (.setVNode htype) (fun _ _ _ => ⟨rfl,fun _ => id⟩) fun _ _ => rfl

theorem newVNode (he : e ≠ Vfs.root) {z : VNode} : Alters e s (s.newVNode e z) := by
  let t : State := { s with vnode := Function.update s.vnode s.numVNodes z,
                            numVNodes := s.numVNodes + 1 }
  have hst : Alters e s t := by
    refine in_place rfl ?_ (fun _ _ _ => ⟨rfl,fun _ => id⟩) fun _ _ => rfl
    exact .of_same rfl (Nat.le_succ _) (fun _ => rfl) (fun _ => rfl) (fun _ => rfl) rfl (fun v hv =>
      congrArg VNode.nodeType (Function.update_of_ne (Nat.ne_of_lt hv) _ _)) fun _ _ hc => .inl hc
  exact hst.trans (setVnode he)

theorem makeNode (he : e ≠ Vfs.root) : Alters e s (s.makeNode e nodeType) := by
  rw [State.makeNode]
  split_ifs
  · exact refl
  · rw [State.fsCreate]
    cases (s.entry e).vnode with
    | none => exact newVNode he
    | some v => exact setVNode rfl

theorem newChild (ht : Tree s) (hd : d < s.numEntries) {z : Entry} (hparent : z.parent = some d)
    (hname : CleanName z.name) (hredirect : ∀ r, z.redirect = some r → r < s.numEntries)
    (hchildren : z.children = []) (hnone : z.vnode = none ∨ IsDots z.name) :
    Alters e s ((s.new z).addChild d s.numEntries) := by
  have hroot : Vfs.root < s.numEntries := Nat.lt_trans Nat.zero_lt_one ht.null_lt
  have hsame : ∀ {α : Type} (g : Entry → α), (∀ y : Entry, g { y with removed := false } = g y) →
      (∀ y : Entry, g { y with children := s.numEntries :: y.children } = g y) → ∀ x,
      g (((s.new z).addChild d s.numEntries).entry x) =
        g (if x = s.numEntries then z else s.entry x) := by
    intro α g hr hc x
    rw [addChild_same hr hc,new_entry]
  have hkeeps : ∀ x < s.numEntries, s.Keeps ((s.new z).addChild d s.numEntries) x := by
    intro x hx
    refine (Keeps.new hx ?_).trans .addChild
    rw [ht.blank _ (Nat.le_refl _)]
    rfl
  refine ⟨.newChild hroot hd hparent hname hredirect hchildren,fun x hx _ => hkeeps x hx,
    fun x _ => ?_,fun x _ hge hlt => ?_⟩
  rotate_left
  · rw [hsame Entry.vnode (fun _ => rfl) fun _ => rfl,hsame Entry.name (fun _ => rfl) fun _ => rfl,
      if_pos (Nat.le_antisymm (Nat.le_of_lt_succ hlt) hge)]
    exact hnone
  by_cases hx : x = s.numEntries
  · have hold : s.naming x = none := by
      refine naming_none ?_
      rw [ht.blank x (Nat.le_of_eq hx.symm)]
      rfl
    rw [hold]
    rcases hnone with hv | hdots
    · refine naming_none ?_
      rw [hsame Entry.vnode (fun _ => rfl) fun _ => rfl,if_pos hx,hv]
    · have hdots' : IsDots (((s.new z).addChild d s.numEntries).entry x).name := by
        rw [hsame Entry.name (fun _ => rfl) fun _ => rfl,if_pos hx]
        exact hdots
      simp only [State.naming,hdots',not_true,and_false,if_false]
      cases (((s.new z).addChild d s.numEntries).entry x).parent with
      | none => rfl
      | some p => rfl
  · refine naming_congr ?_ ?_ ?_ fun p hp => ?_
    · rw [hsame Entry.parent (fun _ => rfl) fun _ => rfl,if_neg hx]
    · rw [hsame Entry.name (fun _ => rfl) fun _ => rfl,if_neg hx]
    · rw [hsame Entry.vnode (fun _ => rfl) fun _ => rfl,if_neg hx]
    · have hplt : p < s.numEntries := ht.parent_lt x p hp
      rw [addChild_children,new_entry,if_neg (Nat.ne_of_lt hplt)]
      split_ifs
      · rw [List.mem_cons]
        exact or_iff_right hx
      · rfl

theorem lookupNew (hp : Proper s) (hd : Stands s d) (hnone : s.findChild d name = none)
    (hname : CleanName name) : Alters e s (s.lookupNew d name).1 := by
  rw [lookupNew_eq hp hd hnone]
  exact newChild hp.tree hd.lt rfl hname (fun r hr => by cases hr) rfl (.inl rfl)

theorem addDots (h : Proper s) (he : e < s.numEntries) (hp : parent < s.numEntries)
    (hv : v < s.numVNodes) : Alters e s (s.addDots e v parent) := by
  let t := (s.new (.construct (some v) (some e) dot (some e))).addChild e s.numEntries
  have ht : Proper t := by
    refine h.newChild he rfl rfl ?_ (fun _ => .inl rfl) ?_ (.inl (.inl rfl))
    · rintro r ⟨⟩
      exact he
    · rintro x ⟨⟩
      exact hv
  have hst : Alters e s t := by
    refine newChild h.tree he rfl clean_dot ?_ rfl (.inr (.inl rfl))
    rintro r ⟨⟩
    exact he
  refine hst.trans (newChild ht.tree (Nat.lt_succ_of_lt he) rfl clean_dotDot ?_ rfl (.inr (.inr rfl)))
  rintro r ⟨⟩
  exact Nat.lt_succ_of_lt hp

theorem furnish (h : Proper s) (he : e < s.numEntries) (hp : parent < s.numEntries) :
    Alters e s (s.furnish e parent nodeType uid gid mode) := by
  simp only [State.furnish]
  cases hv : (s.entry e).vnode with
  | none => exact refl
  | some v =>
    dsimp only
    split_ifs
    · exact (addDots h he hp (h.vnode_lt e v hv)).trans (setVNode rfl)
    · exact setVNode rfl

theorem create (h : Proper s) (hs : s.create e nodeType uid gid mode = some s') :
    Alters e s s' := by
  rw [State.create] at hs
  cases hpar : (s.entry e).parent with
  | none => simp [hpar] at hs
  | some parent =>
    rw [hpar] at hs
    have he := h.tree.lt_of_parent hpar
    have hp := h.tree.parent_lt e parent hpar
    have hn : (s.makeNode e nodeType).numEntries = s.numEntries := makeNode_numEntries
    have hn' : ((s.makeNode e nodeType).attach parent e).numEntries = s.numEntries :=
      attach_numEntries.trans hn
    have hmade : ((s.makeNode e nodeType).entry e).parent = some parent := makeNode_parent.trans hpar
    have hput : Proper ((s.makeNode e nodeType).attach parent e) := (h.makeNode hpar).attach hmade
    refine Option.some.inj hs ▸ (makeNode (h.root_ne hpar)).trans (.trans (attach ?_ hmade)
      (furnish hput ?_ ?_))
    · exact hn ▸ he
    · exact hn' ▸ he
    · exact hn' ▸ hp

theorem remove (hs : s.remove e = some s') : Alters e s s' := by
  simp only [State.remove,Option.bind_eq_bind,Option.bind_eq_some_iff] at hs
  obtain ⟨v,-,hs⟩ := hs
  split_ifs at hs
  exact Option.some.inj hs ▸ detach.trans (flag.trans (setVNode rfl))

end State.Alters

theorem makeNode_link : s.makeNode e .hardLink = s := if_pos rfl

theorem makeNode_new (hv : (s.entry e).vnode = none) (hne : nodeType ≠ .hardLink) :
    s.makeNode e nodeType = s.newVNode e (.fresh nodeType) := by
  rw [State.makeNode,if_neg hne,State.fsCreate,hv]

theorem attach_vnode : ((s.attach parent e).entry x).vnode = (s.entry x).vnode := by
  rw [State.attach]
  split_ifs
  · exact addChild_same (g := Entry.vnode) (fun _ => rfl) fun _ => rfl
  · rfl

theorem attach_vnodes : (s.attach parent e).vnode = s.vnode := by
  rw [State.attach]
  split_ifs
  · rfl
  · rfl

theorem mem_attach_self (hfree : e ∈ (s.entry parent).children ∨
    s.findChild parent (s.entry e).name = none) : e ∈ ((s.attach parent e).entry parent).children := by
  rw [State.attach]
  split_ifs with hnone
  · rw [addChild_children,if_pos rfl]
    exact List.mem_cons_self
  · exact hfree.resolve_right hnone

theorem newDot_vnode {z : Entry} (he : e < s.numEntries) :
    (((s.new z).addChild d s.numEntries).entry e).vnode = (s.entry e).vnode := by
  rw [addChild_same (g := Entry.vnode) (fun _ => rfl) fun _ => rfl,new_entry,if_neg (Nat.ne_of_lt he)]

theorem addDots_vnode (he : e < s.numEntries) :
    ((s.addDots e v parent).entry e).vnode = (s.entry e).vnode :=
  (newDot_vnode (Nat.lt_succ_of_lt he)).trans (newDot_vnode he)

theorem addDots_mem (he : e < s.numEntries) (hdots : IsDots name) :
    ∃ c ∈ ((s.addDots e v parent).entry e).children,
      ((s.addDots e v parent).entry c).name = name := by
  let t := (s.new (.construct (some v) (some e) dot (some e))).addChild e s.numEntries
  have hname : ∀ {s : State} {z : Entry} x, (((s.new z).addChild e s.numEntries).entry x).name =
      (if x = s.numEntries then z else s.entry x).name := by
    intro s z x
    rw [addChild_same (g := Entry.name) (fun _ => rfl) fun _ => rfl,new_entry]
  have hmem : ∀ {s : State} {z : Entry}, s.numEntries ∈
      (((s.new z).addChild e s.numEntries).entry e).children := by
    intro s z
    rw [addChild_children,if_pos rfl]
    exact List.mem_cons_self
  rcases hdots with rfl | rfl
  · have hnum : t.numEntries = s.numEntries + 1 := rfl
    refine ⟨s.numEntries,mem_addChild ?_,?_⟩
    · rw [new_entry,if_neg (show e ≠ t.numEntries by omega)]
      exact hmem
    · refine (hname (s := t) s.numEntries).trans ?_
      rw [if_neg (show s.numEntries ≠ t.numEntries by omega)]
      refine (hname (s := s) s.numEntries).trans ?_
      rw [if_pos rfl]
      rfl
  · refine ⟨t.numEntries,hmem (s := t),(hname (s := t) t.numEntries).trans ?_⟩
    rw [if_pos rfl]
    rfl

theorem own_nodeType :
    ((s.own v nodeType uid gid mode).vnode x).nodeType = (s.vnode x).nodeType := by
  rw [State.own,State.setVNode]
  rcases eq_or_ne x v with rfl | hx
  · simp
  · simp [hx]

theorem own_refCount : ((s.own v nodeType uid gid mode).vnode x).refCount =
    (s.vnode x).refCount + if x = v then 1 else 0 := by
  rw [State.own,State.setVNode]
  rcases eq_or_ne x v with rfl | hx
  · simp
  · simp [hx]

theorem furnish_vnode (he : e < s.numEntries) :
    ((s.furnish e parent nodeType uid gid mode).entry e).vnode = (s.entry e).vnode := by
  simp only [State.furnish]
  cases hv : (s.entry e).vnode with
  | none => exact hv
  | some v =>
    dsimp only
    split_ifs
    · exact (addDots_vnode he).trans hv
    · exact hv

theorem furnish_refCount (hv : (s.entry e).vnode = some v) :
    ((s.furnish e parent nodeType uid gid mode).vnode x).refCount =
      (s.vnode x).refCount + if x = v then 1 else 0 := by
  simp only [State.furnish,hv]
  by_cases hdir : (s.vnode v).nodeType = .directory
  · rw [if_pos hdir]
    exact own_refCount
  · rw [if_neg hdir]
    exact own_refCount

theorem furnish_dots (he : e < s.numEntries)
    (hdir : (s.furnish e parent nodeType uid gid mode).IsDir e) (hdots : IsDots name) :
    ∃ c ∈ ((s.furnish e parent nodeType uid gid mode).entry e).children,
      ((s.furnish e parent nodeType uid gid mode).entry c).name = name := by
  obtain ⟨v,hv,htype⟩ := hdir
  rw [furnish_vnode he] at hv
  simp only [State.furnish,hv] at htype ⊢
  split_ifs at htype ⊢ with hnode
  · exact addDots_mem he hdots
  · exact absurd (own_nodeType.symm.trans htype) hnode

namespace State

structure Links (e v : Nat) (s s' : State) : Prop where
  alters : Alters e s s'
  naming : s'.naming e = some v
  refCount : ∀ x, (s'.vnode x).refCount = (s.vnode x).refCount + if x = v then 1 else 0

structure Unlinks (e v : Nat) (s s' : State) : Prop where
  alters : Alters e s s'
  naming : s'.naming e = none
  refCount : ∀ x, (s'.vnode x).refCount = (s.vnode x).refCount - if x = v then 1 else 0

end State

theorem create_linked (h : Proper s) (hpar : (s.entry e).parent = some parent)
    (hfree : e ∈ (s.entry parent).children ∨ s.findChild parent (s.entry e).name = none)
    (hdots : ¬IsDots (s.entry e).name) (hv : ((s.makeNode e nodeType).entry e).vnode = some v)
    (hs : s.create e nodeType uid gid mode = some s') : s'.naming e = some v ∧
      (s'.entry e).vnode = some v ∧
      ∀ x, (s'.vnode x).refCount =
        ((s.makeNode e nodeType).vnode x).refCount + if x = v then 1 else 0 := by
  have ha := State.Alters.create h hs
  have he := h.tree.lt_of_parent hpar
  rw [State.create,hpar] at hs
  have hput : e < ((s.makeNode e nodeType).attach parent e).numEntries := by
    rw [attach_numEntries,makeNode_numEntries]
    exact he
  have hlt : parent < ((s.makeNode e nodeType).attach parent e).numEntries := by
    rw [attach_numEntries,makeNode_numEntries]
    exact h.tree.parent_lt e parent hpar
  have hvput : (((s.makeNode e nodeType).attach parent e).entry e).vnode = some v :=
    attach_vnode.trans hv
  have hmem : e ∈ (((s.makeNode e nodeType).attach parent e).entry parent).children := by
    refine mem_attach_self ?_
    have hname : ∀ x, ((s.makeNode e nodeType).entry x).name = (s.entry x).name :=
      fun x => makeNode_same (g := Entry.name) fun _ _ => rfl
    rw [findChild_none,makeNode_children]
    simp only [hname]
    exact hfree.imp id findChild_none.mp
  have hvnode : (s'.entry e).vnode = some v := by
    rw [← Option.some.inj hs,furnish_vnode hput]
    exact hvput
  refine ⟨?_,hvnode,fun x => ?_⟩
  · rw [naming_linked ((ha.grows.parent e he).trans hpar)
      (Option.some.inj hs ▸ mem_furnish hlt hmem) (by rwa [ha.grows.name e he])]
    exact hvnode
  · rw [← Option.some.inj hs,furnish_refCount hvput,attach_vnodes]

theorem create_links (h : Proper s) (hpar : (s.entry e).parent = some parent)
    (hmem : e ∈ (s.entry parent).children) (hdots : ¬IsDots (s.entry e).name)
    (hv : (s.entry e).vnode = none) (hzero : (s.vnode s.numVNodes).refCount = 0)
    (hne : nodeType ≠ .hardLink) (hs : s.create e nodeType uid gid mode = some s') :
    s.Links e s.numVNodes s' ∧ (s'.entry e).vnode = some s.numVNodes := by
  have hmade : ((s.makeNode e nodeType).entry e).vnode = some s.numVNodes := by
    rw [makeNode_new hv hne,State.newVNode,setEntry_entry,if_pos rfl]
  obtain ⟨hnaming,hvnode,hcount⟩ := create_linked h hpar (.inl hmem) hdots hmade hs
  refine ⟨⟨.create h hs,hnaming,fun x => ?_⟩,hvnode⟩
  rw [hcount,makeNode_new hv hne]
  rcases eq_or_ne x s.numVNodes with rfl | hx
  · simp [State.newVNode,State.setEntry,VNode.fresh,hzero]
  · simp [State.newVNode,State.setEntry,hx]

theorem link_links (h : Proper s) (hpar : (s.entry e).parent = some parent)
    (hfree : e ∈ (s.entry parent).children ∨ s.findChild parent (s.entry e).name = none)
    (hdots : ¬IsDots (s.entry e).name) (hv : v < s.numVNodes)
    (hs : (s.setVnode e (some v)).create e .hardLink uid gid mode = some s') : s.Links e v s' := by
  have hset : Proper (s.setVnode e (some v)) := by
    refine h.setVnode hpar ?_
    rintro x ⟨⟩
    exact hv
  have hname : ∀ x, ((s.setVnode e (some v)).entry x).name = (s.entry x).name :=
    fun x => setEntry_same (g := Entry.name) rfl
  have hch : ((s.setVnode e (some v)).entry parent).children = (s.entry parent).children :=
    setEntry_same (g := Entry.children) rfl
  have hmade : (((s.setVnode e (some v)).makeNode e .hardLink).entry e).vnode = some v := by
    rw [makeNode_link,State.setVnode,setEntry_entry,if_pos rfl]
  have hfree' : e ∈ ((s.setVnode e (some v)).entry parent).children ∨
      (s.setVnode e (some v)).findChild parent ((s.setVnode e (some v)).entry e).name = none := by
    rw [findChild_none,hch]
    simp only [hname]
    exact hfree.imp id findChild_none.mp
  obtain ⟨hnaming,-,hcount⟩ := create_linked hset ((setEntry_same (g := Entry.parent) rfl).trans hpar)
    hfree' (by rwa [hname]) hmade hs
  refine ⟨.trans (.setVnode (h.root_ne hpar)) (.create hset hs),hnaming,fun x => ?_⟩
  rw [hcount,makeNode_link]
  rfl

theorem remove_unlinks (h : Proper s) (hv : (s.entry e).vnode = some v)
    (hs : s.remove e = some s') : s.Unlinks e v s' := by
  have ha : State.Alters e s s' := .remove hs
  have he := h.tree.lt_of_vnode hv
  refine ⟨ha,naming_unlinked fun p hp => ?_,fun x => ?_⟩
  · rw [ha.grows.parent e he] at hp
    rw [remove_children hs,if_pos hp]
    exact fun hmem => ((h.nodup p).mem_erase_iff.mp hmem).1 rfl
  · simp only [State.remove,hv,Option.bind_eq_bind,Option.bind_some] at hs
    split_ifs at hs
    rw [← Option.some.inj hs]
    have hsame : (s.unlink e).vnode = s.vnode := by
      rw [State.unlink,State.detach]
      cases (s.entry e).parent with
      | none => rfl
      | some p => rfl
    rw [State.setVNode,hsame]
    rcases eq_or_ne x v with rfl | hx
    · simp
    · simp [hx]

namespace State.Counted

variable {opened' : Nat → Option Nat}

theorem same (h : s.Counted opened) (hnaming : ∀ x, s'.naming x = s.naming x)
    (hcount : ∀ x, (s'.vnode x).refCount = (s.vnode x).refCount) : s'.Counted opened := by
  obtain ⟨links,opens,hlinks,hopens,hsum⟩ := h
  exact ⟨links,opens,hlinks.congr hnaming,hopens,fun x => (hcount x).trans (hsum x)⟩

theorem link (h : s.Counted opened) (hl : s.Links e v s') (hnone : s.naming e = none) :
    s'.Counted opened := by
  obtain ⟨links,opens,hlinks,hopens,hsum⟩ := h
  refine ⟨_,opens,(hlinks.assign (a := v) hnone).congr fun x => ?_,hopens,fun x => ?_⟩
  · rcases eq_or_ne x e with rfl | hx
    · rw [Function.update_self,hl.naming]
    · rw [Function.update_of_ne hx,hl.alters.naming x hx]
  · rw [hl.refCount,hsum]
    rcases eq_or_ne x v with rfl | hx
    · rw [Function.update_self,if_pos rfl]
      omega
    · rw [Function.update_of_ne hx,if_neg hx]
      omega

theorem unlink (h : s.Counted opened) (hl : s.Unlinks e v s') (hnaming : s.naming e = some v) :
    s'.Counted opened := by
  obtain ⟨links,opens,hlinks,hopens,hsum⟩ := h
  have hpos : 0 < links v := hlinks.pos_iff.mpr ⟨e,hnaming⟩
  refine ⟨_,opens,(hlinks.clear hnaming).congr fun x => ?_,hopens,fun x => ?_⟩
  · rcases eq_or_ne x e with rfl | hx
    · rw [Function.update_self,hl.naming]
    · rw [Function.update_of_ne hx,hl.alters.naming x hx]
  · rw [hl.refCount,hsum]
    rcases eq_or_ne x v with rfl | hx
    · rw [Function.update_self,if_pos rfl]
      omega
    · rw [Function.update_of_ne hx,if_neg hx]
      omega

theorem hold (h : s.Counted opened) (hd : opened d = none)
    (hopened : ∀ x, opened' x = Function.update opened d (some v) x) :
    (s.setVNode v fun x => { x with refCount := x.refCount + 1 }).Counted opened' := by
  obtain ⟨links,opens,hlinks,hopens,hsum⟩ := h
  refine ⟨links,_,hlinks,(hopens.assign (a := v) hd).congr hopened,fun x => ?_⟩
  rw [State.setVNode]
  rcases eq_or_ne x v with rfl | hx
  · simp only [Function.update_self,hsum]
    omega
  · simp only [Function.update_of_ne hx,hsum]

theorem release (h : s.Counted opened) (hd : opened d = some v)
    (hopened : ∀ x, opened' x = Function.update opened d none x) :
    (s.setVNode v fun x => { x with refCount := x.refCount - 1 }).Counted opened' := by
  obtain ⟨links,opens,hlinks,hopens,hsum⟩ := h
  have hpos : 0 < opens v := hopens.pos_iff.mpr ⟨d,hd⟩
  refine ⟨links,_,hlinks,(hopens.clear hd).congr hopened,fun x => ?_⟩
  rw [State.setVNode]
  rcases eq_or_ne x v with rfl | hx
  · simp only [Function.update_self,hsum]
    omega
  · simp only [Function.update_of_ne hx,hsum]

theorem pos (h : s.Counted opened) (hnaming : s.naming e = some v) : 0 < (s.vnode v).refCount := by
  obtain ⟨links,opens,hlinks,-,hsum⟩ := h
  have hpos : 0 < links v := hlinks.pos_iff.mpr ⟨e,hnaming⟩
  rw [hsum]
  omega

theorem zero (h : s.Counted opened) (hp : Proper s)
    (hopened : ∀ d v, opened d = some v → v < s.numVNodes) :
    (s.vnode s.numVNodes).refCount = 0 := by
  obtain ⟨links,opens,hlinks,hopens,hsum⟩ := h
  have hlink : ¬0 < links s.numVNodes := by
    rw [hlinks.pos_iff]
    rintro ⟨e,he⟩
    exact Nat.lt_irrefl _ (hp.vnode_lt e _ (vnode_of_naming he))
  have hopen : ¬0 < opens s.numVNodes := by
    rw [hopens.pos_iff]
    rintro ⟨d,hd⟩
    exact Nat.lt_irrefl _ (hopened d _ hd)
  rw [hsum]
  omega

end State.Counted

namespace State.Alters

theorem furnished (ha : Alters e s s') (h : Neat s) (h' : Neat s') (hf : Furnished s)
    (hdots : ¬IsDots (s.entry e).name)
    (he : s'.IsDir e → ∀ n, IsDots n → ∃ c ∈ (s'.entry e).children, (s'.entry c).name = n) :
    Furnished s' := by
  intro x hdir hred n hn
  rcases eq_or_ne x e with rfl | hx
  · exact he hdir n hn
  · obtain ⟨v,hv,htype⟩ := hdir
    have hlt' := h'.proper.tree.lt_of_vnode hv
    rcases Nat.lt_or_ge x s.numEntries with hlt | hge
    · rw [(ha.keeps x hlt hx).vnode] at hv
      rw [ha.grows.nodeType v (h.proper.vnode_lt x v hv)] at htype
      rw [ha.grows.redirect x hlt] at hred
      obtain ⟨c,hc,hname⟩ := hf x ⟨v,hv,htype⟩ hred n hn
      have hclt := h.proper.tree.child_lt x c hc
      have hce : c ≠ e := by
        rintro rfl
        exact hdots (hname ▸ hn)
      exact ⟨c,(ha.keeps c hclt hce).places x hc,(ha.grows.name c hclt).trans hname⟩
    · rcases ha.fresh x hx hge hlt' with hnone | hxdots
      · rw [hv] at hnone
        cases hnone
      · exact absurd hred (h'.dotted x hxdots)

end State.Alters

end SabaOS.Vfs
