import SabaOS.Fs.Unlink

namespace SabaOS.Vfs

open SabaOS.Fs SabaOS.Lib

def State.IsDir (s : State) (e : Nat) : Prop :=
  ∃ v, (s.entry e).vnode = some v ∧ (s.vnode v).nodeType = .directory

structure Neat (s : State) : Prop where
  proper : Proper s
  names : ∀ d, ∀ c ∈ (s.entry d).children, ∀ c' ∈ (s.entry d).children,
    (s.entry c).name = (s.entry c').name → c = c'
  parents : ∀ e p, (s.entry e).parent = some p → s.IsDir p
  dotted : ∀ e, IsDots (s.entry e).name → (s.entry e).redirect ≠ none
  aliases : ∀ c r, (s.entry c).redirect = some r → ∃ d, (s.entry c).parent = some d ∧
    (r = d ∨ (s.entry d).parent = some r) ∧ (s.entry c).vnode = (s.entry r).vnode

def Furnished (s : State) : Prop :=
  ∀ e, s.IsDir e → (s.entry e).redirect = none →
    ∀ n, IsDots n → ∃ c ∈ (s.entry e).children, (s.entry c).name = n

variable {s s' : State} {e d parent v : Nat} {n : Name} {y : Entry}

namespace Neat

theorem dir_of_redirect (h : Neat s) {c r : Nat} (hr : (s.entry c).redirect = some r) : s.IsDir r := by
  obtain ⟨d,hd,hrd,-⟩ := h.aliases c r hr
  rcases hrd with rfl | hp
  · exact h.parents c r hd
  · exact h.parents d r hp

theorem notDots (h : Neat s) (hfile : ¬s.IsDir e) : ¬IsDots (s.entry e).name := by
  intro hdots
  obtain ⟨r,hr⟩ := Option.ne_none_iff_exists'.mp (h.dotted e hdots)
  obtain ⟨-,-,-,hsame⟩ := h.aliases e r hr
  obtain ⟨v,hv,hdir⟩ := h.dir_of_redirect hr
  exact hfile ⟨v,hsame.trans hv,hdir⟩

theorem lt_of_isDir (h : Neat s) (hd : s.IsDir e) : e < s.numEntries := by
  obtain ⟨v,hv,-⟩ := hd
  exact h.proper.tree.lt_of_vnode hv

theorem inPlace (h : Neat s) (hp : Proper s')
    (hparent : ∀ e, (s'.entry e).parent = (s.entry e).parent)
    (hname : ∀ e, (s'.entry e).name = (s.entry e).name)
    (hredirect : ∀ e, (s'.entry e).redirect = (s.entry e).redirect)
    (hdir : ∀ e, s.IsDir e → s'.IsDir e ∧ (s'.entry e).vnode = (s.entry e).vnode)
    (halias : ∀ c, (s.entry c).redirect ≠ none → (s'.entry c).vnode = (s.entry c).vnode)
    (hnames : ∀ d, ∀ c ∈ (s'.entry d).children, ∀ c' ∈ (s'.entry d).children,
      (s.entry c).name = (s.entry c').name → c = c') : Neat s' where
  proper := hp
  names d c hc c' hc' heq := hnames d c hc c' hc' (by rwa [hname,hname] at heq)
  parents e p hep := (hdir p (h.parents e p (hparent e ▸ hep))).1
  dotted e he := by
    rw [hredirect]
    exact h.dotted e (hname e ▸ he)
  aliases c r hr := by
    rw [hredirect] at hr
    obtain ⟨d,hd,hrd,hv⟩ := h.aliases c r hr
    refine ⟨d,(hparent c).trans hd,hrd.imp id (hparent d).trans,?_⟩
    rw [halias c (by simp [hr]),(hdir r (h.dir_of_redirect hr)).2,hv]

theorem setVNode (h : Neat s) {g : VNode → VNode} (hp : Proper (s.setVNode v g))
    (htype : (g (s.vnode v)).nodeType = (s.vnode v).nodeType) : Neat (s.setVNode v g) := by
  refine h.inPlace hp (fun _ => rfl) (fun _ => rfl) (fun _ => rfl) (fun e ⟨u,hu,hdir⟩ => ⟨⟨u,hu,?_⟩,rfl⟩)
    (fun _ _ => rfl) h.names
  simp only [State.setVNode,Function.update_apply]
  split_ifs with huv
  · rw [htype,← huv]
    exact hdir
  · exact hdir

theorem setEntry (h : Neat s) {f : Entry → Entry} (hp : Proper (s.setEntry e f))
    (hparent : (f (s.entry e)).parent = (s.entry e).parent)
    (hname : (f (s.entry e)).name = (s.entry e).name)
    (hredirect : (f (s.entry e)).redirect = (s.entry e).redirect)
    (hvnode : s.IsDir e ∨ (s.entry e).redirect ≠ none → (f (s.entry e)).vnode = (s.entry e).vnode)
    (hnames : ∀ c ∈ (f (s.entry e)).children, ∀ c' ∈ (f (s.entry e)).children,
      (s.entry c).name = (s.entry c').name → c = c') : Neat (s.setEntry e f) := by
  have hv : ∀ x, s.IsDir x ∨ (s.entry x).redirect ≠ none →
      ((s.setEntry e f).entry x).vnode = (s.entry x).vnode := by
    intro x hx
    rw [setEntry_entry]
    split_ifs with he
    · exact (hvnode (he ▸ hx)).trans (he ▸ rfl)
    · rfl
  refine h.inPlace hp (fun x => setEntry_same (g := Entry.parent) hparent)
    (fun x => setEntry_same (g := Entry.name) hname)
    (fun x => setEntry_same (g := Entry.redirect) hredirect) ?_ (fun c hc => hv c (.inr hc)) ?_
  · intro x hx
    have hsame := hv x (.inl hx)
    obtain ⟨u,hu,hdir⟩ := hx
    exact ⟨⟨u,hsame.trans hu,hdir⟩,hsame⟩
  · intro d c hc c' hc' heq
    rw [setEntry_entry] at hc hc'
    split_ifs at hc hc'
    · exact hnames c hc c' hc' heq
    · exact h.names d c hc c' hc' heq

theorem setVnode (h : Neat s) (hpar : (s.entry e).parent = some parent) (hfile : ¬s.IsDir e)
    (hdots : ¬IsDots (s.entry e).name) {v : Option Nat} (hv : ∀ x, v = some x → x < s.numVNodes) :
    Neat (s.setVnode e v) := by
  refine h.setEntry (h.proper.setVnode hpar hv) rfl rfl rfl ?_ (h.names e)
  rintro (hdir | hred)
  · exact absurd hdir hfile
  · exact absurd (h.proper.dots e hred) hdots

theorem addChild (h : Neat s) (hpar : (s.entry e).parent = some parent)
    (hfree : s.findChild parent (s.entry e).name = none) : Neat (s.addChild parent e) := by
  have hp : Proper (s.setEntry e fun x => { x with removed := false }) :=
    h.proper.flag (h.proper.tree.lt_of_parent hpar)
  have h1 : Neat (s.setEntry e fun x => { x with removed := false }) :=
    h.setEntry hp rfl rfl rfl (fun _ => rfl) (h.names e)
  have hname : ∀ x, ((s.setEntry e fun x => { x with removed := false }).entry x).name =
      (s.entry x).name := fun x => setEntry_same (g := Entry.name) rfl
  have hch : ((s.setEntry e fun x => { x with removed := false }).entry parent).children =
      (s.entry parent).children := setEntry_same (g := Entry.children) rfl
  refine h1.setEntry (h.proper.addChild hpar (.inr hfree)) rfl rfl rfl (fun _ => rfl) ?_
  intro c hc c' hc' heq
  rw [hname,hname] at heq
  rw [hch] at hc hc'
  rcases List.mem_cons.mp hc with rfl | hmem
  · rcases List.mem_cons.mp hc' with rfl | hmem'
    · rfl
    · exact absurd heq.symm (findChild_none.mp hfree c' hmem')
  · rcases List.mem_cons.mp hc' with rfl | hmem'
    · exact absurd heq (findChild_none.mp hfree c hmem)
    · exact h.names parent c hmem c' hmem' heq

theorem attach (h : Neat s) (hpar : (s.entry e).parent = some parent) : Neat (s.attach parent e) := by
  rw [State.attach]
  split_ifs with hfree
  · exact h.addChild hpar hfree
  · exact h

theorem detach (h : Neat s) : Neat (s.detach e) := by
  have hp : Proper (s.detach e) := h.proper.detach
  rw [State.detach] at hp ⊢
  cases hpar : (s.entry e).parent with
  | none => exact h
  | some p =>
    rw [hpar] at hp
    refine h.setEntry hp rfl rfl rfl (fun _ => rfl) fun c hc c' hc' => ?_
    exact h.names p c (List.mem_of_mem_erase hc) c' (List.mem_of_mem_erase hc')

theorem remove (h : Neat s) (hs : s.remove e = some s') : Neat s' := by
  have hp' : Proper s' := h.proper.remove hs
  simp only [State.remove,Option.bind_eq_bind,Option.bind_eq_some_iff] at hs
  obtain ⟨v,hv,hs⟩ := hs
  split_ifs at hs
  have h1 : Neat (s.unlink e) :=
    h.detach.setEntry (h.proper.unlink (h.proper.tree.lt_of_vnode hv)) rfl rfl rfl (fun _ => rfl)
      (h.detach.names e)
  rw [← Option.some.inj hs] at hp' ⊢
  exact h1.setVNode hp' rfl

theorem newChild (h : Neat s) (hp : Proper ((s.new y).addChild d s.numEntries)) (hd : s.IsDir d)
    (hc : y.children = []) (hpar : y.parent = some d) (hdots : IsDots y.name → y.redirect ≠ none)
    (halias : ∀ r, y.redirect = some r →
      (r = d ∨ (s.entry d).parent = some r) ∧ y.vnode = (s.entry r).vnode)
    (hfree : s.findChild d y.name = none) : Neat ((s.new y).addChild d s.numEntries) := by
  have hlt := h.lt_of_isDir hd
  have hsame : ∀ {α : Type} (g : Entry → α), (∀ z : Entry, g { z with removed := false } = g z) →
      (∀ z : Entry, g { z with children := s.numEntries :: z.children } = g z) → ∀ x,
      g (((s.new y).addChild d s.numEntries).entry x) =
        g (if x = s.numEntries then y else s.entry x) := by
    intro α g hr hc x
    rw [addChild_same hr hc,new_entry]
  have hparent := hsame Entry.parent (fun _ => rfl) fun _ => rfl
  have hname := hsame Entry.name (fun _ => rfl) fun _ => rfl
  have hredirect := hsame Entry.redirect (fun _ => rfl) fun _ => rfl
  have hvnode := hsame Entry.vnode (fun _ => rfl) fun _ => rfl
  have hchild : ∀ x c, c ∈ (((s.new y).addChild d s.numEntries).entry x).children →
      x = d ∧ c = s.numEntries ∨ c ∈ (s.entry x).children := by
    intro x c hmem
    rw [addChild_children,new_entry] at hmem
    split_ifs at hmem with hx hnew hnew
    · exact absurd (hnew.symm.trans hx) (Nat.ne_of_gt hlt)
    · exact (List.mem_cons.mp hmem).imp (fun heq => ⟨hx,heq⟩) id
    · rw [hc] at hmem
      cases hmem
    · exact .inr hmem
  have hold : ∀ x, x < s.numEntries → (if x = s.numEntries then y else s.entry x) = s.entry x :=
    fun x hx => if_neg (Nat.ne_of_lt hx)
  have hdir : ∀ x, s.IsDir x → ((s.new y).addChild d s.numEntries).IsDir x := by
    rintro x ⟨u,hu,hdir⟩
    exact ⟨u,by rw [hvnode,hold x (h.proper.tree.lt_of_vnode hu),hu],hdir⟩
  refine ⟨hp,?_,?_,?_,?_⟩
  · intro x c hmem c' hmem' heq
    rw [hname,hname] at heq
    rcases hchild x c hmem with ⟨hx,rfl⟩ | hc
    · rcases hchild x c' hmem' with ⟨-,rfl⟩ | hc'
      · rfl
      · rw [if_pos rfl,hold c' (h.proper.tree.child_lt x c' hc')] at heq
        exact absurd heq.symm (findChild_none.mp hfree c' (hx ▸ hc'))
    · rw [hold c (h.proper.tree.child_lt x c hc)] at heq
      rcases hchild x c' hmem' with ⟨hx,rfl⟩ | hc'
      · rw [if_pos rfl] at heq
        exact absurd heq (findChild_none.mp hfree c (hx ▸ hc))
      · rw [hold c' (h.proper.tree.child_lt x c' hc')] at heq
        exact h.names x c hc c' hc' heq
  · intro e p hep
    rw [hparent] at hep
    split_ifs at hep
    · rw [hpar,Option.some.injEq] at hep
      exact hdir p (hep ▸ hd)
    · exact hdir p (h.parents e p hep)
  · intro e he
    rw [hname] at he
    rw [hredirect]
    split_ifs at he ⊢
    · exact hdots he
    · exact h.dotted e he
  · intro c r hr
    rw [hredirect] at hr
    rw [hparent,hvnode]
    split_ifs at hr ⊢ with hnew
    · obtain ⟨hrd,hv⟩ := halias r hr
      have hrlt : r < s.numEntries := by
        rcases hrd with rfl | hp
        · exact hlt
        · exact h.proper.tree.parent_lt d r hp
      refine ⟨d,hpar,hrd.imp id fun hp => ?_,?_⟩
      · rw [hparent,hold d hlt,hp]
      · rw [hvnode,hold r hrlt,hv]
    · obtain ⟨z,hz,hrz,hv⟩ := h.aliases c r hr
      refine ⟨z,hz,hrz.imp id fun hp => ?_,?_⟩
      · rw [hparent,hold z (h.proper.tree.parent_lt c z hz),hp]
      · rw [hvnode,hold r (h.proper.tree.redirect_lt c r hr),hv]

theorem newVNode (h : Neat s) (hpar : (s.entry e).parent = some parent)
    (hnone : (s.entry e).vnode = none) {nodeType : NodeType} :
    Neat (s.newVNode e (.fresh nodeType)) := by
  have hp : Proper (s.newVNode e (.fresh nodeType)) := h.proper.newVNode hpar
  have hv : ∀ x u, (s.entry x).vnode = some u →
      ((s.newVNode e (.fresh nodeType)).entry x).vnode = some u := by
    intro x u hu
    rw [State.newVNode,setEntry_entry]
    split_ifs with hx
    · rw [hx,hnone] at hu
      cases hu
    · exact hu
  refine h.inPlace hp (fun x => newVNode_same (g := Entry.parent) fun _ _ => rfl)
    (fun x => newVNode_same (g := Entry.name) fun _ _ => rfl)
    (fun x => newVNode_same (g := Entry.redirect) fun _ _ => rfl) ?_ ?_ ?_
  · rintro x ⟨u,hu,hdir⟩
    refine ⟨⟨u,hv x u hu,?_⟩,(hv x u hu).trans hu.symm⟩
    have hne : u ≠ s.numVNodes := Nat.ne_of_lt (h.proper.vnode_lt x u hu)
    simpa [State.newVNode,State.setEntry,Function.update_of_ne hne] using hdir
  · intro c hc
    obtain ⟨r,hr⟩ := Option.ne_none_iff_exists'.mp hc
    obtain ⟨u,hu,-⟩ := h.dir_of_redirect hr
    obtain ⟨-,-,-,hsame⟩ := h.aliases c r hr
    exact (hv c u (hsame.trans hu)).trans (hsame.trans hu).symm
  · intro d c hc c' hc'
    rw [newVNode_same (g := Entry.children) fun _ _ => rfl] at hc hc'
    exact h.names d c hc c' hc'

theorem makeNode (h : Neat s) (hpar : (s.entry e).parent = some parent) {nodeType : NodeType} :
    Neat (s.makeNode e nodeType) := by
  have hp : Proper (s.makeNode e nodeType) := h.proper.makeNode hpar
  rw [State.makeNode] at hp ⊢
  split_ifs at hp ⊢
  · exact h
  · rw [State.fsCreate] at hp ⊢
    cases hv : (s.entry e).vnode with
    | none => exact h.newVNode hpar hv
    | some v =>
      rw [hv] at hp
      exact h.setVNode hp rfl

theorem addDots (h : Neat s) (hv : (s.entry e).vnode = some v)
    (hdir : (s.vnode v).nodeType = .directory) (hpar : (s.entry e).parent = some parent)
    (hbare : (s.entry e).children = []) : Neat (s.addDots e v parent) := by
  have he := h.proper.tree.lt_of_vnode hv
  have hp := h.proper.tree.parent_lt e parent hpar
  have hvlt := h.proper.vnode_lt e v hv
  let t := (s.new (.construct (some v) (some e) dot (some e))).addChild e s.numEntries
  have hpt : Proper t := by
    refine h.proper.newChild he rfl rfl ?_ (fun _ => .inl rfl) ?_ (.inl (.inl rfl))
    · rintro r ⟨⟩
      exact he
    · rintro x ⟨⟩
      exact hvlt
  have ht : Neat t := by
    refine h.newChild hpt ⟨v,hv,hdir⟩ rfl rfl (fun _ => by simp [Entry.construct]) ?_ ?_
    · rintro r ⟨⟩
      exact ⟨.inl rfl,hv.symm⟩
    · rw [findChild_none,hbare]
      intro c hc
      cases hc
  have hsame : ∀ {α : Type} (g : Entry → α), (∀ z : Entry, g { z with removed := false } = g z) →
      (∀ z : Entry, g { z with children := s.numEntries :: z.children } = g z) →
      g (t.entry e) = g (s.entry e) := by
    intro α g hr hc
    rw [addChild_same hr hc,new_entry,if_neg (Nat.ne_of_lt he)]
  have htv : (t.entry e).vnode = some v :=
    (hsame Entry.vnode (fun _ => rfl) fun _ => rfl).trans hv
  have htpar : (t.entry e).parent = some parent :=
    (hsame Entry.parent (fun _ => rfl) fun _ => rfl).trans hpar
  refine ht.newChild (h.proper.addDots he hp hvlt) ⟨v,htv,hdir⟩ rfl rfl
    (fun _ => by simp [Entry.construct]) ?_ ?_
  · rintro r ⟨⟩
    exact ⟨.inr htpar,rfl⟩
  · have hname : (t.entry s.numEntries).name = dot := by
      rw [addChild_same (g := Entry.name) (fun _ => rfl) fun _ => rfl,new_entry,if_pos rfl]
      rfl
    rw [findChild_none,addChild_children,if_pos rfl,new_entry,if_neg (Nat.ne_of_lt he),hbare]
    intro c hc
    rw [List.mem_singleton.mp hc,hname]
    exact fun heq => by cases heq

theorem furnish (h : Neat s) (hpar : (s.entry e).parent = some parent)
    (hbare : (s.entry e).children = []) {nodeType : NodeType} {uid gid mode : Option Nat} :
    Neat (s.furnish e parent nodeType uid gid mode) := by
  have hp : Proper (s.furnish e parent nodeType uid gid mode) :=
    h.proper.furnish (h.proper.tree.parent_lt e parent hpar) (h.proper.tree.lt_of_parent hpar)
  rw [State.furnish] at hp ⊢
  cases hv : (s.entry e).vnode with
  | none => exact h
  | some v =>
    simp only [hv] at hp ⊢
    split_ifs at hp ⊢ with hdir
    · exact (h.addDots hv hdir hpar hbare).setVNode hp rfl
    · exact h.setVNode hp rfl

end Neat

theorem makeNode_children {nodeType : NodeType} :
    ((s.makeNode e nodeType).entry d).children = (s.entry d).children :=
  makeNode_same (g := Entry.children) fun _ _ => rfl

theorem attach_children (hne : d ≠ parent) :
    ((s.attach parent e).entry d).children = (s.entry d).children := by
  rw [State.attach]
  split_ifs
  · rw [addChild_children,if_neg hne]
  · rfl

theorem attach_parent : ((s.attach parent e).entry d).parent = (s.entry d).parent := by
  rw [State.attach]
  split_ifs
  · exact addChild_same (g := Entry.parent) (fun _ => rfl) fun _ => rfl
  · rfl

namespace Neat

theorem create (h : Neat s) (hbare : (s.entry e).children = [])
    (hne : (s.entry e).parent ≠ some e) {nodeType : NodeType} {uid gid mode : Option Nat}
    (hs : s.create e nodeType uid gid mode = some s') : Neat s' := by
  rw [State.create] at hs
  cases hpar : (s.entry e).parent with
  | none => simp [hpar] at hs
  | some parent =>
    rw [hpar] at hs
    have hself : e ≠ parent := fun heq => hne (heq ▸ hpar)
    have hmade : Neat (s.makeNode e nodeType) := h.makeNode hpar
    have hput : Neat ((s.makeNode e nodeType).attach parent e) :=
      hmade.attach (makeNode_parent.trans hpar)
    refine Option.some.inj hs ▸ hput.furnish ?_ ?_
    · exact attach_parent.trans (makeNode_parent.trans hpar)
    · exact (attach_children hself).trans (makeNode_children.trans hbare)

theorem bare (h : Neat s) (hfile : ¬s.IsDir e) :
    (s.entry e).children = [] ∧ (s.entry e).parent ≠ some e := by
  refine ⟨List.eq_nil_iff_forall_not_mem.mpr fun c hc => ?_,fun hp => hfile (h.parents e e hp)⟩
  exact hfile (h.parents c e (h.proper.linked e c hc))

theorem lookupNew (h : Neat s) (hf : Furnished s) (hstand : Stands s d) (hd : s.IsDir d)
    (hnone : s.findChild d n = none) : Neat (s.lookupNew d n).1 := by
  have hp : Proper (s.lookupNew d n).1 := h.proper.lookupNew hstand.lt hnone
  rw [lookupNew_eq h.proper hstand hnone] at hp ⊢
  refine h.newChild hp hd rfl rfl (fun hdots => ?_) (fun r hr => by cases hr) hnone
  have hred : (s.entry d).redirect = none := by
    rw [← hstand.reduced]
    exact h.proper.tree.grounded d
  obtain ⟨c,hc,hname⟩ := hf d hd hred n hdots
  exact absurd hname (findChild_none.mp hnone c hc)

end Neat

end SabaOS.Vfs
