import SabaOS.Fs.Unlink

namespace SabaOS.Vfs

open SabaOS.Fs SabaOS.Lib

def CleanName (name : Name) : Prop := slash ∉ name ∧ 0 ∉ name

def procRoot : Nat := 4

structure Grows (s s' : State) : Prop where
  entries : s.numEntries ≤ s'.numEntries
  vnodes : s.numVNodes ≤ s'.numVNodes
  parent : ∀ e < s.numEntries, (s'.entry e).parent = (s.entry e).parent
  name : ∀ e < s.numEntries, (s'.entry e).name = (s.entry e).name
  redirect : ∀ e < s.numEntries, (s'.entry e).redirect = (s.entry e).redirect
  root : (s'.entry root).vnode = (s.entry root).vnode
  nodeType : ∀ v < s.numVNodes, (s'.vnode v).nodeType = (s.vnode v).nodeType
  freshParent : ∀ e, s.numEntries ≤ e → e < s'.numEntries → ∃ p < e, (s'.entry e).parent = some p
  freshName : ∀ e, s.numEntries ≤ e → e < s'.numEntries → CleanName (s'.entry e).name
  freshRedirect : ∀ e, s.numEntries ≤ e → e < s'.numEntries →
    ∀ r, (s'.entry e).redirect = some r → r < e
  linked : ∀ d, ∀ c ∈ (s'.entry d).children, c ∈ (s.entry d).children ∨
    c < s'.numEntries ∧ (s'.entry c).parent = some d

structure Shaped (s : State) : Prop where
  tree : Tree s
  down : ∀ e p, (s.entry e).parent = some p → p < e
  linked : ∀ d, ∀ c ∈ (s.entry d).children, (s.entry c).parent = some d
  clean : ∀ e, CleanName (s.entry e).name
  redirects : ∀ e r, (s.entry e).redirect = some r → r < e ∨ r = procRoot
  root_vnode : ∃ d < s.numVNodes, (s.entry root).vnode = some d ∧ (s.vnode d).nodeType = .directory
  root_parent : (s.entry root).parent = none
  root_name : (s.entry root).name = []
  proc_lt : procRoot < s.numEntries
  proc_parent : (s.entry procRoot).parent = none
  proc_redirect : (s.entry procRoot).redirect = none

variable {s s' s'' : State} {e parent v : Nat} {f : Entry → Entry} {g : VNode → VNode}
variable {name : Name} {nodeType : NodeType} {uid gid mode : Option Nat}

theorem clean_dot : CleanName dot := ⟨by decide,by decide⟩

theorem clean_dotDot : CleanName dotDot := ⟨by decide,by decide⟩

namespace Grows

theorem refl : Grows s s where
  entries := Nat.le_refl _
  vnodes := Nat.le_refl _
  parent _ _ := rfl
  name _ _ := rfl
  redirect _ _ := rfl
  root := rfl
  nodeType _ _ := rfl
  freshParent _ hge hlt := absurd hlt (Nat.not_lt.mpr hge)
  freshName _ hge hlt := absurd hlt (Nat.not_lt.mpr hge)
  freshRedirect _ hge hlt := absurd hlt (Nat.not_lt.mpr hge)
  linked _ _ hc := .inl hc

theorem trans (h : Grows s s') (h' : Grows s' s'') : Grows s s'' where
  entries := Nat.le_trans h.entries h'.entries
  vnodes := Nat.le_trans h.vnodes h'.vnodes
  parent e he := (h'.parent e (Nat.lt_of_lt_of_le he h.entries)).trans (h.parent e he)
  name e he := (h'.name e (Nat.lt_of_lt_of_le he h.entries)).trans (h.name e he)
  redirect e he := (h'.redirect e (Nat.lt_of_lt_of_le he h.entries)).trans (h.redirect e he)
  root := h'.root.trans h.root
  nodeType v hv := (h'.nodeType v (Nat.lt_of_lt_of_le hv h.vnodes)).trans (h.nodeType v hv)
  freshParent e hge hlt := by
    rcases Nat.lt_or_ge e s'.numEntries with hmid | hmid
    · rw [h'.parent e hmid]
      exact h.freshParent e hge hmid
    · exact h'.freshParent e hmid hlt
  freshName e hge hlt := by
    rcases Nat.lt_or_ge e s'.numEntries with hmid | hmid
    · rw [h'.name e hmid]
      exact h.freshName e hge hmid
    · exact h'.freshName e hmid hlt
  freshRedirect e hge hlt := by
    rcases Nat.lt_or_ge e s'.numEntries with hmid | hmid
    · rw [h'.redirect e hmid]
      exact h.freshRedirect e hge hmid
    · exact h'.freshRedirect e hmid hlt
  linked d c hc := by
    rcases h'.linked d c hc with hmid | hnew
    · rcases h.linked d c hmid with hold | ⟨hlt,hp⟩
      · exact .inl hold
      · exact .inr ⟨Nat.lt_of_lt_of_le hlt h'.entries,(h'.parent c hlt).trans hp⟩
    · exact .inr hnew

theorem of_same (hentries : s'.numEntries = s.numEntries) (hvnodes : s.numVNodes ≤ s'.numVNodes)
    (hparent : ∀ e, (s'.entry e).parent = (s.entry e).parent)
    (hname : ∀ e, (s'.entry e).name = (s.entry e).name)
    (hredirect : ∀ e, (s'.entry e).redirect = (s.entry e).redirect)
    (hroot : (s'.entry Vfs.root).vnode = (s.entry Vfs.root).vnode)
    (htype : ∀ v < s.numVNodes, (s'.vnode v).nodeType = (s.vnode v).nodeType)
    (hlinked : ∀ d, ∀ c ∈ (s'.entry d).children, c ∈ (s.entry d).children ∨
      c < s'.numEntries ∧ (s'.entry c).parent = some d) : Grows s s' where
  entries := Nat.le_of_eq hentries.symm
  vnodes := hvnodes
  parent e _ := hparent e
  name e _ := hname e
  redirect e _ := hredirect e
  root := hroot
  nodeType := htype
  freshParent _ hge hlt := absurd hlt (Nat.not_lt.mpr (hentries ▸ hge))
  freshName _ hge hlt := absurd hlt (Nat.not_lt.mpr (hentries ▸ hge))
  freshRedirect _ hge hlt := absurd hlt (Nat.not_lt.mpr (hentries ▸ hge))
  linked := hlinked

theorem setEntry (hparent : (f (s.entry e)).parent = (s.entry e).parent)
    (hname : (f (s.entry e)).name = (s.entry e).name)
    (hredirect : (f (s.entry e)).redirect = (s.entry e).redirect)
    (hroot : e = Vfs.root → (f (s.entry e)).vnode = (s.entry e).vnode)
    (hchildren : ∀ c ∈ (f (s.entry e)).children, c ∈ (s.entry e).children ∨
      c < s.numEntries ∧ (s.entry c).parent = some e) : Grows s (s.setEntry e f) := by
  have hpar : ∀ x, ((s.setEntry e f).entry x).parent = (s.entry x).parent :=
    fun x => setEntry_same (g := Entry.parent) hparent
  refine of_same rfl (Nat.le_refl _) hpar (fun x => setEntry_same (g := Entry.name) hname)
    (fun x => setEntry_same (g := Entry.redirect) hredirect) ?_ (fun _ _ => rfl) fun d c hc => ?_
  · rw [setEntry_entry]
    split_ifs with h
    · rw [hroot h.symm,h]
    · rfl
  · rw [hpar]
    rw [setEntry_entry] at hc
    split_ifs at hc with hd
    · exact hd ▸ hchildren c hc
    · exact .inl hc

theorem setVNode (htype : (g (s.vnode v)).nodeType = (s.vnode v).nodeType) :
    Grows s (s.setVNode v g) := by
  refine of_same rfl (Nat.le_refl _) (fun _ => rfl) (fun _ => rfl) (fun _ => rfl) rfl (fun x _ => ?_)
    fun _ _ hc => .inl hc
  simp only [State.setVNode,Function.update_apply]
  split_ifs with h
  · rw [htype,h]
  · rfl

theorem addChild (he : e < s.numEntries) (hp : (s.entry e).parent = some parent) :
    Grows s (s.addChild parent e) := by
  refine (setEntry rfl rfl rfl (fun _ => rfl) fun _ hc => .inl hc).trans
    (setEntry rfl rfl rfl (fun _ => rfl) fun c hc => ?_)
  rcases List.mem_cons.mp hc with rfl | hc
  · exact .inr ⟨he,(setEntry_same (g := Entry.parent) rfl).trans hp⟩
  · exact .inl hc

theorem new {y : Entry} (hroot : Vfs.root < s.numEntries)
    (hparent : ∃ p < s.numEntries, y.parent = some p) (hname : CleanName y.name)
    (hredirect : ∀ r, y.redirect = some r → r < s.numEntries) (hchildren : y.children = []) :
    Grows s (s.new y) := by
  have hold : ∀ x < s.numEntries, (s.new y).entry x = s.entry x := fun x hx => by
    rw [new_entry,if_neg (Nat.ne_of_lt hx)]
  have hnew : ∀ x, s.numEntries ≤ x → x < (s.new y).numEntries →
      x = s.numEntries ∧ (s.new y).entry x = y := by
    intro x hge hlt
    obtain rfl : x = s.numEntries := Nat.le_antisymm (Nat.le_of_lt_succ hlt) hge
    exact ⟨rfl,by rw [new_entry,if_pos rfl]⟩
  refine ⟨Nat.le_succ _,Nat.le_refl _,?_,?_,?_,?_,fun _ _ => rfl,?_,?_,?_,?_⟩
  · exact fun x hx => congrArg Entry.parent (hold x hx)
  · exact fun x hx => congrArg Entry.name (hold x hx)
  · exact fun x hx => congrArg Entry.redirect (hold x hx)
  · exact congrArg Entry.vnode (hold _ hroot)
  · intro x hge hlt
    obtain ⟨rfl,heq⟩ := hnew x hge hlt
    rw [heq]
    exact hparent
  · intro x hge hlt
    rw [(hnew x hge hlt).2]
    exact hname
  · intro x hge hlt
    obtain ⟨rfl,heq⟩ := hnew x hge hlt
    rw [heq]
    exact hredirect
  · intro d c hc
    rw [new_entry] at hc
    split_ifs at hc
    · rw [hchildren] at hc
      cases hc
    · exact .inl hc

theorem newChild {y : Entry} (hroot : Vfs.root < s.numEntries) (hp : parent < s.numEntries)
    (hparent : y.parent = some parent) (hname : CleanName y.name)
    (hredirect : ∀ r, y.redirect = some r → r < s.numEntries) (hchildren : y.children = []) :
    Grows s ((s.new y).addChild parent s.numEntries) := by
  refine (new hroot ⟨parent,hp,hparent⟩ hname hredirect hchildren).trans
    (addChild (Nat.lt_succ_self _) ?_)
  rw [new_entry,if_pos rfl]
  exact hparent

theorem lookupNew (ht : Tree s) (hp : parent < s.numEntries) (hname : CleanName name) :
    Grows s (s.lookupNew parent name).1 := by
  have hroot : Vfs.root < s.numEntries := Nat.lt_trans Nat.zero_lt_one ht.null_lt
  simp only [State.lookupNew]
  split_ifs
  · exact newChild hroot hp rfl hname (fun r hr => by cases hr) rfl
  · exact new hroot ⟨parent,hp,rfl⟩ hname (fun r hr => by cases hr) rfl

theorem newVNode (he : e ≠ Vfs.root) {x : VNode} : Grows s (s.newVNode e x) := by
  have hs : Grows s { s with vnode := Function.update s.vnode s.numVNodes x,
                             numVNodes := s.numVNodes + 1 } :=
    of_same rfl (Nat.le_succ _) (fun _ => rfl) (fun _ => rfl) (fun _ => rfl) rfl (fun v hv =>
      congrArg VNode.nodeType (Function.update_of_ne (Nat.ne_of_lt hv) _ _)) fun _ _ hc => .inl hc
  exact hs.trans (setEntry (f := fun x => { x with vnode := some s.numVNodes }) rfl rfl rfl
    (fun heq => absurd heq he) fun _ hc => .inl hc)

theorem makeNode (he : e ≠ Vfs.root) : Grows s (s.makeNode e nodeType) := by
  rw [State.makeNode]
  split_ifs
  · exact refl
  · rw [State.fsCreate]
    cases (s.entry e).vnode with
    | none => exact newVNode he
    | some v => exact setVNode rfl

theorem attach (he : e < s.numEntries) (hp : (s.entry e).parent = some parent) :
    Grows s (s.attach parent e) := by
  rw [State.attach]
  split_ifs
  · exact addChild he hp
  · exact refl

theorem addDots (hroot : Vfs.root < s.numEntries) (he : e < s.numEntries)
    (hp : parent < s.numEntries) : Grows s (s.addDots e v parent) := by
  have h1 : Grows s ((s.new (.construct (some v) (some e) dot (some e))).addChild e s.numEntries) := by
    refine newChild hroot he rfl clean_dot ?_ rfl
    rintro r ⟨⟩
    exact he
  refine h1.trans (newChild (Nat.lt_succ_of_lt hroot) (Nat.lt_succ_of_lt he) rfl clean_dotDot ?_ rfl)
  rintro r ⟨⟩
  exact Nat.lt_succ_of_lt hp

theorem furnish (hroot : Vfs.root < s.numEntries) (he : e < s.numEntries)
    (hp : parent < s.numEntries) : Grows s (s.furnish e parent nodeType uid gid mode) := by
  simp only [State.furnish]
  cases (s.entry e).vnode with
  | none => exact refl
  | some v =>
    dsimp only
    split_ifs
    · exact (addDots hroot he hp).trans (setVNode rfl)
    · exact setVNode rfl

end Grows

namespace Shaped

theorem grows (h : Shaped s) (ht : Tree s') (hg : Grows s s') : Shaped s' := by
  have hnull := h.tree.null_lt
  have hroot : root < s.numEntries := Nat.lt_trans Nat.zero_lt_one hnull
  have hcase : ∀ e, e < s.numEntries ∨ s.numEntries ≤ e ∧ e < s'.numEntries ∨ s'.numEntries ≤ e := by
    intro e
    omega
  refine ⟨ht,?_,?_,?_,?_,?_,?_,?_,?_,?_,?_⟩
  · intro e p hp
    rcases hcase e with hold | ⟨hge,hlt⟩ | hout
    · exact h.down e p (hg.parent e hold ▸ hp)
    · obtain ⟨q,hq,heq⟩ := hg.freshParent e hge hlt
      exact Option.some.inj (heq.symm.trans hp) ▸ hq
    · rw [ht.blank e hout] at hp
      cases hp
  · intro d c hc
    rcases hg.linked d c hc with hold | ⟨-,hp⟩
    · exact (hg.parent c (h.tree.child_lt d c hold)).trans (h.linked d c hold)
    · exact hp
  · intro e
    rcases hcase e with hold | ⟨hge,hlt⟩ | hout
    · rw [hg.name e hold]
      exact h.clean e
    · exact hg.freshName e hge hlt
    · rw [ht.blank e hout]
      exact ⟨List.not_mem_nil,List.not_mem_nil⟩
  · intro e r hr
    rcases hcase e with hold | ⟨hge,hlt⟩ | hout
    · exact h.redirects e r (hg.redirect e hold ▸ hr)
    · exact .inl (hg.freshRedirect e hge hlt r hr)
    · rw [ht.blank e hout] at hr
      cases hr
  · obtain ⟨d,hd,hv,hdir⟩ := h.root_vnode
    exact ⟨d,Nat.lt_of_lt_of_le hd hg.vnodes,hg.root.trans hv,(hg.nodeType d hd).trans hdir⟩
  · exact (hg.parent root hroot).trans h.root_parent
  · exact (hg.name root hroot).trans h.root_name
  · exact Nat.lt_of_lt_of_le h.proc_lt hg.entries
  · exact (hg.parent _ h.proc_lt).trans h.proc_parent
  · exact (hg.redirect _ h.proc_lt).trans h.proc_redirect

theorem root_lt (h : Shaped s) : root < s.numEntries := Nat.lt_trans Nat.zero_lt_one h.tree.null_lt

theorem ne_root (h : Shaped s) (hp : (s.entry e).parent = some parent) : e ≠ root := by
  rintro rfl
  rw [h.root_parent] at hp
  cases hp

theorem lookupNew (h : Shaped s) (hp : parent < s.numEntries) (hname : CleanName name) :
    Shaped (s.lookupNew parent name).1 :=
  h.grows (h.tree.lookupNew hp) (.lookupNew h.tree hp hname)

theorem setVNode (h : Shaped s) (htype : (g (s.vnode v)).nodeType = (s.vnode v).nodeType) :
    Shaped (s.setVNode v g) :=
  h.grows (h.tree.of_entries rfl rfl) (.setVNode htype)

theorem newVNode (h : Shaped s) (hp : (s.entry e).parent = some parent) {x : VNode} :
    Shaped (s.newVNode e x) :=
  h.grows (h.tree.newVNode hp) (.newVNode (h.ne_root hp))

theorem setVnode (h : Shaped s) (hp : (s.entry e).parent = some parent) {v : Option Nat} :
    Shaped (s.setVnode e v) :=
  h.grows (h.tree.setVnode hp) (.setEntry rfl rfl rfl (fun heq => absurd heq (h.ne_root hp)) fun _ hc => .inl hc)

theorem create (h : Shaped s) (hs : s.create e nodeType uid gid mode = some s') : Shaped s' := by
  refine h.grows (h.tree.create hs) ?_
  rw [State.create] at hs
  cases hpar : (s.entry e).parent with
  | none => simp [hpar] at hs
  | some parent =>
    rw [hpar] at hs
    have hn : ((s.makeNode e nodeType).attach parent e).numEntries = s.numEntries :=
      attach_numEntries.trans makeNode_numEntries
    have hlt : e < (s.makeNode e nodeType).numEntries := by
      rw [makeNode_numEntries]
      exact h.tree.lt_of_parent hpar
    have hgrows : Grows s ((s.makeNode e nodeType).attach parent e) :=
      (Grows.makeNode (h.ne_root hpar)).trans (.attach hlt (makeNode_parent.trans hpar))
    refine Option.some.inj hs ▸ hgrows.trans (.furnish ?_ ?_ ?_)
    · exact hn ▸ h.root_lt
    · exact hn ▸ h.tree.lt_of_parent hpar
    · exact hn ▸ h.tree.parent_lt e parent hpar

theorem setVnode_create (h : Shaped s) {v : Option Nat}
    (hs : (s.setVnode e v).create e nodeType uid gid mode = some s') : Shaped s' := by
  cases hpar : (s.entry e).parent with
  | none =>
    have hnone : ((s.setVnode e v).entry e).parent = none := by
      rw [State.setVnode,setEntry_same (g := Entry.parent) rfl,hpar]
    simp [State.create,hnone] at hs
  | some parent => exact (h.setVnode hpar).create hs

theorem remove (h : Shaped s) (hs : s.remove e = some s') : Shaped s' := by
  refine h.grows (h.tree.remove hs) ?_
  simp only [State.remove,Option.bind_eq_bind,Option.bind_eq_some_iff] at hs
  obtain ⟨v,-,hs⟩ := hs
  split_ifs at hs
  have hdetach : Grows s (s.detach e) := by
    rw [State.detach]
    cases (s.entry e).parent with
    | none => exact .refl
    | some p => exact .setEntry rfl rfl rfl (fun _ => rfl) fun c hc => .inl (List.mem_of_mem_erase hc)
  have hflag : Grows (s.detach e) (s.unlink e) :=
    .setEntry rfl rfl rfl (fun _ => rfl) fun _ hc => .inl hc
  exact Option.some.inj hs ▸ hdetach.trans (hflag.trans (.setVNode rfl))

end Shaped

end SabaOS.Vfs
