import SabaOS.Fs.Proper

namespace SabaOS.Vfs

open SabaOS.Fs SabaOS.Lib

structure Move where
  oldDir : Nat
  oldName : Name
  newDir : Nat
  newName : Name
  entry : Nat

namespace Move

def Special (m : Move) (d : Nat) (n : Name) : Prop :=
  (d = m.oldDir ∧ n = m.oldName) ∨ (d = m.newDir ∧ n = m.newName) ∨ (d = m.entry ∧ IsDots n)

structure Apart (m : Move) (s s' : State) : Prop where
  grows : s.numEntries ≤ s'.numEntries
  nodeType : ∀ v, (s'.vnode v).nodeType = (s.vnode v).nodeType
  contents : ∀ v, (s'.vnode v).contents = (s.vnode v).contents
  entry : ∀ e < s.numEntries, e ≠ m.entry → (s'.entry e).vnode = (s.entry e).vnode
  parent : ∀ e < s.numEntries, (s'.entry e).parent = (s.entry e).parent
  name : ∀ e < s.numEntries, (s'.entry e).name = (s.entry e).name
  reduce : ∀ e < s.numEntries, s'.reduce e = s.reduce e
  live : ∀ d < s.numEntries, ∀ n, ¬m.Special d n → s'.live d n = s.live d n

variable {m : Move} {s s' s'' : State} {e d v parent : Nat} {f : Entry → Entry}

theorem Apart.refl : m.Apart s s :=
  ⟨Nat.le_refl _,fun _ => rfl,fun _ => rfl,fun _ _ _ => rfl,fun _ _ => rfl,fun _ _ => rfl,
    fun _ _ => rfl,fun _ _ _ _ => rfl⟩

theorem Apart.trans (h : m.Apart s s') (h' : m.Apart s' s'') : m.Apart s s'' where
  grows := Nat.le_trans h.grows h'.grows
  nodeType v := (h'.nodeType v).trans (h.nodeType v)
  contents v := (h'.contents v).trans (h.contents v)
  entry e he hne := (h'.entry e (Nat.lt_of_lt_of_le he h.grows) hne).trans (h.entry e he hne)
  parent e he := (h'.parent e (Nat.lt_of_lt_of_le he h.grows)).trans (h.parent e he)
  name e he := (h'.name e (Nat.lt_of_lt_of_le he h.grows)).trans (h.name e he)
  reduce e he := (h'.reduce e (Nat.lt_of_lt_of_le he h.grows)).trans (h.reduce e he)
  live d hd n hn := (h'.live d (Nat.lt_of_lt_of_le hd h.grows) n hn).trans (h.live d hd n hn)

theorem live_congr {n : Name} (hfind : s'.findChild d n = s.findChild d n)
    (hv : ∀ c, s.findChild d n = some c → (s'.entry c).vnode = (s.entry c).vnode) :
    s'.live d n = s.live d n := by
  rw [State.live,State.live,hfind]
  cases hc : s.findChild d n with
  | none => rfl
  | some c => simp [hv c hc]

theorem Apart.setEntry (hvnode : e ≠ m.entry → (f (s.entry e)).vnode = (s.entry e).vnode)
    (hparent : (f (s.entry e)).parent = (s.entry e).parent)
    (hname : (f (s.entry e)).name = (s.entry e).name)
    (hredirect : (f (s.entry e)).redirect = (s.entry e).redirect)
    (hfind : ∀ d n, ¬m.Special d n → (s.setEntry e f).findChild d n = s.findChild d n)
    (hlive : ∀ d n, ¬m.Special d n → s.findChild d n = some e →
      (f (s.entry e)).vnode = (s.entry e).vnode) : m.Apart s (s.setEntry e f) where
  grows := Nat.le_refl _
  nodeType _ := rfl
  contents _ := rfl
  entry x _ hx := by
    rw [setEntry_entry]
    split_ifs with he
    · exact (hvnode (he ▸ hx)).trans (he ▸ rfl)
    · rfl
  parent x _ := setEntry_same (g := Entry.parent) hparent
  name x _ := setEntry_same (g := Entry.name) hname
  reduce x _ := reduceWithin_congr (fun y => setEntry_same (g := Entry.redirect) hredirect) _ x
  live d _ n hn := by
    refine live_congr (hfind d n hn) fun c hc => ?_
    rw [setEntry_entry]
    split_ifs with he
    · exact (hlive d n hn (he ▸ hc)).trans (he ▸ rfl)
    · rfl

theorem findChild_setEntry {n : Name} (hname : (f (s.entry e)).name = (s.entry e).name) :
    (s.setEntry e f).findChild d n = (if d = e then (f (s.entry e)).children
      else (s.entry d).children).find? fun c => (s.entry c).name = n := by
  rw [State.findChild]
  have hfun : (fun c => decide (((s.setEntry e f).entry c).name = n)) =
      fun c => decide ((s.entry c).name = n) := by
    funext c
    rw [setEntry_same (g := Entry.name) hname]
  rw [hfun,setEntry_entry]
  split_ifs
  · rfl
  · rfl

theorem find?_erase {l : List Nat} {p : Nat → Bool} (hp : p e = false) :
    (l.erase e).find? p = l.find? p := by
  induction l with
  | nil => rfl
  | cons c l ih =>
    by_cases hc : c = e
    · subst hc
      rw [List.erase_cons_head,List.find?_cons,hp]
    · rw [List.erase_cons_tail (by simpa using hc),List.find?_cons,List.find?_cons,ih]

theorem Apart.detach (hsp : ∀ p, (s.entry e).parent = some p → m.Special p (s.entry e).name) :
    m.Apart s (s.detach e) := by
  rw [State.detach]
  cases hp : (s.entry e).parent with
  | none => exact .refl
  | some p =>
    refine .setEntry (fun _ => rfl) rfl rfl rfl ?_ fun _ _ _ _ => rfl
    intro d n hn
    rw [findChild_setEntry rfl]
    split_ifs with hd
    · subst hd
      have hne : (s.entry e).name ≠ n := fun heq => hn (heq ▸ hsp d hp)
      exact find?_erase (by simpa using hne)
    · rfl

theorem Apart.flag {removed : Bool} :
    m.Apart s (s.setEntry e fun x => { x with removed := removed }) := by
  refine .setEntry (fun _ => rfl) rfl rfl rfl ?_ fun _ _ _ _ => rfl
  intro d n _
  rw [findChild_setEntry rfl]
  split_ifs with hd
  · rw [hd]
    rfl
  · rfl

theorem Apart.setVNode {g : VNode → VNode} (htype : (g (s.vnode v)).nodeType = (s.vnode v).nodeType)
    (hcontents : (g (s.vnode v)).contents = (s.vnode v).contents) : m.Apart s (s.setVNode v g) where
  grows := Nat.le_refl _
  nodeType x := by
    by_cases hx : x = v
    · subst hx
      simpa [State.setVNode] using htype
    · simp [State.setVNode,hx]
  contents x := by
    by_cases hx : x = v
    · subst hx
      simpa [State.setVNode] using hcontents
    · simp [State.setVNode,hx]
  entry _ _ _ := rfl
  parent _ _ := rfl
  name _ _ := rfl
  reduce x _ := by
    have hred : ∀ y, ((s.setVNode v g).entry y).redirect = (s.entry y).redirect := fun _ => rfl
    exact reduceWithin_congr hred _ x
  live _ _ _ _ := rfl

theorem Apart.remove (hs : s.remove e = some s')
    (hsp : ∀ p, (s.entry e).parent = some p → m.Special p (s.entry e).name) : m.Apart s s' := by
  simp only [State.remove,Option.bind_eq_bind,Option.bind_eq_some_iff] at hs
  obtain ⟨v,-,hs⟩ := hs
  split_ifs at hs
  rw [← Option.some.inj hs]
  exact (Apart.detach hsp).trans (.trans .flag (.setVNode rfl rfl))

theorem Apart.removeIfPresent (hs : s.removeIfPresent e = some s')
    (hsp : ∀ p, (s.entry e).parent = some p → m.Special p (s.entry e).name) : m.Apart s s' := by
  rw [State.removeIfPresent] at hs
  split_ifs at hs
  · exact Option.some.inj hs ▸ .refl
  · exact .remove hs hsp

theorem Apart.setVnode (h : Proper s)
    (hsp : ∀ p, (s.entry m.entry).parent = some p → m.Special p (s.entry m.entry).name)
    {v : Option Nat} : m.Apart s (s.setVnode m.entry v) := by
  refine .setEntry (fun hne => absurd rfl hne) rfl rfl rfl ?_ ?_
  · intro d n _
    rw [findChild_setEntry rfl]
    split_ifs with hd
    · rw [hd]
      rfl
    · rfl
  · intro d n hn hfind
    have hparent := h.linked d m.entry (List.mem_of_find?_eq_some hfind)
    have hname : (s.entry m.entry).name = n := by simpa using List.find?_some hfind
    exact absurd (hname ▸ hsp d hparent) hn

theorem Apart.addChild (hsp : m.Special parent (s.entry e).name) :
    m.Apart s (s.addChild parent e) := by
  let t := s.setEntry e fun x => { x with removed := false }
  have hname : (t.entry e).name = (s.entry e).name := setEntry_same (g := Entry.name) rfl
  have hflag : m.Apart s t := .flag
  refine hflag.trans (.setEntry (fun _ => rfl) rfl rfl rfl ?_ fun _ _ _ _ => rfl)
  intro d n hn
  rw [findChild_setEntry rfl]
  split_ifs with hd
  · subst hd
    have hne : (t.entry e).name ≠ n := fun heq => hn (heq ▸ hname ▸ hsp)
    rw [List.find?_cons,decide_eq_false hne]
    rfl
  · rfl

theorem Apart.attach (hsp : m.Special parent (s.entry e).name) : m.Apart s (s.attach parent e) := by
  rw [State.attach]
  split_ifs
  · exact .addChild hsp
  · exact .refl

theorem Apart.new (h : Tree s) {y : Entry} : m.Apart s (s.new y) where
  grows := Nat.le_succ _
  nodeType _ := rfl
  contents _ := rfl
  entry x hx _ := by rw [new_entry,if_neg (Nat.ne_of_lt hx)]
  parent x hx := by rw [new_entry,if_neg (Nat.ne_of_lt hx)]
  name x hx := by rw [new_entry,if_neg (Nat.ne_of_lt hx)]
  reduce x hx := h.reduce_new_old hx
  live d hd n _ := by
    have hold : ∀ x, x < s.numEntries → (s.new y).entry x = s.entry x := by
      intro x hx
      rw [new_entry,if_neg (Nat.ne_of_lt hx)]
    refine live_congr ?_ ?_
    · rw [State.findChild,hold d hd]
      refine List.find?_congr fun c hc => ?_
      rw [hold c (h.child_lt d c hc)]
    · intro c hc
      rw [hold c (h.child_lt d c (List.mem_of_find?_eq_some hc))]

theorem Apart.addDots (h : Proper s) (he : m.entry < s.numEntries) (hv : v < s.numVNodes) :
    m.Apart s (s.addDots m.entry v parent) := by
  have grow : ∀ {s : State} {y : Entry}, Tree s → IsDots y.name →
      m.Apart s ((s.new y).addChild m.entry s.numEntries) := by
    intro s y ht hy
    refine (Apart.new ht).trans (.addChild ?_)
    rw [new_entry,if_pos rfl]
    exact .inr (.inr ⟨rfl,hy⟩)
  have h1 : Proper ((s.new (.construct (some v) (some m.entry) dot (some m.entry))).addChild m.entry
      s.numEntries) := by
    refine h.newChild he rfl rfl ?_ (fun _ => .inl rfl) ?_ (.inl (.inl rfl))
    · rintro r ⟨⟩
      exact he
    · rintro x ⟨⟩
      exact hv
  exact (grow h.tree (.inl rfl)).trans (grow h1.tree (.inr rfl))

theorem Apart.furnish (h : Proper s) (he : m.entry < s.numEntries)
    {nodeType : NodeType} {uid gid mode : Option Nat} :
    m.Apart s (s.furnish m.entry parent nodeType uid gid mode) := by
  simp only [State.furnish]
  cases hv : (s.entry m.entry).vnode with
  | none => exact .refl
  | some v =>
    dsimp only
    split_ifs
    · exact (Apart.addDots h he (h.vnode_lt _ v hv)).trans (.setVNode rfl rfl)
    · exact .setVNode rfl rfl

end Move

section Children

variable {s s' : State} {e d x v parent : Nat} {n : Name}

theorem detach_children : ((s.detach e).entry d).children =
    if (s.entry e).parent = some d then (s.entry d).children.erase e else (s.entry d).children := by
  rw [State.detach]
  cases hp : (s.entry e).parent with
  | none => rfl
  | some p =>
    dsimp only
    rw [setEntry_entry]
    by_cases hd : d = p
    · subst hd
      rw [if_pos rfl,if_pos rfl]
    · rw [if_neg hd,if_neg fun heq => hd (Option.some.inj heq).symm]

theorem remove_children (hs : s.remove e = some s') : (s'.entry d).children =
    if (s.entry e).parent = some d then (s.entry d).children.erase e else (s.entry d).children := by
  simp only [State.remove,Option.bind_eq_bind,Option.bind_eq_some_iff] at hs
  obtain ⟨v,-,hs⟩ := hs
  split_ifs at hs
  have hflag : ((s.unlink e).entry d).children = ((s.detach e).entry d).children :=
    setEntry_same (g := Entry.children) rfl
  rw [← Option.some.inj hs,← detach_children]
  exact hflag

theorem remove_same {α : Type} {g : Entry → α}
    (hc : ∀ (y : Entry) (l : List Nat), g { y with children := l } = g y)
    (hr : ∀ (y : Entry) (b : Bool), g { y with removed := b } = g y) (hs : s.remove e = some s') :
    g (s'.entry x) = g (s.entry x) := by
  simp only [State.remove,Option.bind_eq_bind,Option.bind_eq_some_iff] at hs
  obtain ⟨v,-,hs⟩ := hs
  split_ifs at hs
  have hdetach : g ((s.detach e).entry x) = g (s.entry x) := by
    rw [State.detach]
    cases (s.entry e).parent with
    | none => rfl
    | some p => exact setEntry_same (hc _ _)
  have hflag : g ((s.unlink e).entry x) = g ((s.detach e).entry x) := setEntry_same (hr _ _)
  rw [← Option.some.inj hs,← hdetach]
  exact hflag

theorem remove_name (hs : s.remove e = some s') : (s'.entry x).name = (s.entry x).name :=
  remove_same (g := Entry.name) (fun _ _ => rfl) (fun _ _ => rfl) hs

theorem remove_vnode (hs : s.remove e = some s') : (s'.entry x).vnode = (s.entry x).vnode :=
  remove_same (g := Entry.vnode) (fun _ _ => rfl) (fun _ _ => rfl) hs

theorem remove_findChild (h : Proper s) (hmem : e ∈ (s.entry parent).children)
    (hdots : ¬IsDots (s.entry e).name) (hs : s.remove e = some s') :
    s'.findChild parent (s.entry e).name = none := by
  have hp := h.linked parent e hmem
  rw [findChild_none,remove_children hs,if_pos hp]
  intro c hc heq
  rw [remove_name hs] at heq
  obtain ⟨hce,hc'⟩ := (h.nodup parent).mem_erase_iff.mp hc
  exact hce (h.distinct parent c hc' e hmem heq (heq ▸ hdots))

theorem mem_removeIfPresent (hs : s.removeIfPresent e = some s') (hne : x ≠ e)
    (hmem : x ∈ (s.entry d).children) : x ∈ (s'.entry d).children := by
  rw [State.removeIfPresent] at hs
  split_ifs at hs
  · exact Option.some.inj hs ▸ hmem
  · rw [remove_children hs]
    split_ifs
    · exact (List.mem_erase_of_ne hne).mpr hmem
    · exact hmem

theorem mem_addChild (hmem : x ∈ (s.entry d).children) :
    x ∈ ((s.addChild parent e).entry d).children := by
  rw [addChild_children]
  split_ifs
  · exact List.mem_cons_of_mem _ hmem
  · exact hmem

theorem mem_attach (hmem : x ∈ (s.entry d).children) :
    x ∈ ((s.attach parent e).entry d).children := by
  rw [State.attach]
  split_ifs
  · exact mem_addChild hmem
  · exact hmem

theorem mem_furnish (hd : d < s.numEntries) (hmem : x ∈ (s.entry d).children)
    {nodeType : NodeType} {uid gid mode : Option Nat} :
    x ∈ ((s.furnish e parent nodeType uid gid mode).entry d).children := by
  have grow : ∀ {s : State} {y : Entry}, d < s.numEntries → x ∈ (s.entry d).children →
      x ∈ (((s.new y).addChild e s.numEntries).entry d).children := by
    intro s y hd hmem
    refine mem_addChild ?_
    rw [new_entry,if_neg (Nat.ne_of_lt hd)]
    exact hmem
  simp only [State.furnish]
  cases (s.entry e).vnode with
  | none => exact hmem
  | some v =>
    dsimp only
    split_ifs
    · exact grow (Nat.lt_succ_of_lt hd) (grow hd hmem)
    · exact hmem

end Children

section Effect

variable {s s' : State} {e₁ e₂ p₁ p₂ v : Nat} {ret : Except Errno Unit}

def State.move (s : State) (e₁ p₁ e₂ p₂ : Nat) : Move :=
  ⟨p₁,(s.entry e₁).name,p₂,(s.entry e₂).name,e₂⟩

variable (h : Proper s) (hp₁ : (s.entry e₁).parent = some p₁) (hp₂ : (s.entry e₂).parent = some p₂)

include h hp₁ hp₂

-- The states between the steps of `renameat_impl`.
theorem renameAt_steps (hs : s.renameAt e₁ e₂ = some (s',ret)) :
    ∃ t u, s.removeIfPresent e₂ = some t ∧ Proper t ∧ (s.move e₁ p₁ e₂ p₂).Apart s t ∧
      u = ((t.setVnode e₂ (t.entry e₁).vnode).attach p₂ e₂).furnish e₂ p₂ .hardLink none none none ∧
      Proper u ∧ (s.move e₁ p₁ e₂ p₂).Apart t u ∧
      u.remove e₁ = some s' ∧ Proper s' ∧ (s.move e₁ p₁ e₂ p₂).Apart u s' := by
  simp only [State.renameAt,done,Option.bind_eq_bind,Option.bind_eq_some_iff,
    Option.some.injEq] at hs
  obtain ⟨t,ht,u,hu,q,hq,⟨⟩⟩ := hs
  have he₁ := h.tree.lt_of_parent hp₁
  have he₂ := h.tree.lt_of_parent hp₂
  let m := s.move e₁ p₁ e₂ p₂
  have hst : m.Apart s t := by
    refine .removeIfPresent ht fun p hp => .inr (.inl ⟨?_,rfl⟩)
    exact Option.some.inj (hp.symm.trans hp₂)
  have htp : Proper t := h.removeIfPresent ht
  have hpar : (t.entry e₂).parent = some p₂ := (hst.parent e₂ he₂).trans hp₂
  have hnam : (t.entry e₂).name = m.newName := hst.name e₂ he₂
  have hpar' : ((t.setVnode e₂ (t.entry e₁).vnode).entry e₂).parent = some p₂ :=
    (setEntry_same (g := Entry.parent) rfl).trans hpar
  have hueq : u = ((t.setVnode e₂ (t.entry e₁).vnode).attach p₂ e₂).furnish e₂ p₂ .hardLink
      none none none := by
    rw [State.create,hpar'] at hu
    exact (Option.some.inj hu).symm
  have hup : Proper u := htp.setVnode_create (htp.vnode_lt e₁) hu
  have htu : m.Apart t u := by
    have ha : Proper (t.setVnode e₂ (t.entry e₁).vnode) := htp.setVnode hpar (htp.vnode_lt e₁)
    have hta : m.Apart t (t.setVnode e₂ (t.entry e₁).vnode) := by
      refine Move.Apart.setVnode htp fun p hp => .inr (.inl ⟨?_,hnam⟩)
      exact Option.some.inj (hp.symm.trans hpar)
    have hab : m.Apart (t.setVnode e₂ (t.entry e₁).vnode)
        ((t.setVnode e₂ (t.entry e₁).vnode).attach p₂ e₂) := by
      refine .attach (.inr (.inl ⟨rfl,?_⟩))
      exact (setEntry_same (g := Entry.name) rfl).trans hnam
    have hlt : e₂ < ((t.setVnode e₂ (t.entry e₁).vnode).attach p₂ e₂).numEntries :=
      Nat.lt_of_lt_of_le he₂ (hst.trans (hta.trans hab)).grows
    exact hueq ▸ hta.trans (hab.trans (.furnish (m := m) (ha.attach hpar') hlt))
  refine ⟨t,u,ht,htp,hst,hueq,hup,htu,hq,hup.remove hq,?_⟩
  refine .remove hq fun p hp => .inl ⟨?_,(hst.trans htu).name e₁ he₁⟩
  exact Option.some.inj (hp.symm.trans (((hst.trans htu).parent e₁ he₁).trans hp₁))

variable (hs : s.renameAt e₁ e₂ = some (s',ret))

include hs

theorem renameAt_apart : (s.move e₁ p₁ e₂ p₂).Apart s s' := by
  obtain ⟨t,u,-,-,hst,-,-,htu,-,-,hus⟩ := renameAt_steps h hp₁ hp₂ hs
  exact hst.trans (htu.trans hus)

theorem renameAt_old (hne : e₁ ≠ e₂) (hmem : e₁ ∈ (s.entry p₁).children)
    (hdots : ¬IsDots (s.entry e₁).name) : s'.live p₁ (s.entry e₁).name = none := by
  obtain ⟨t,u,ht,-,hst,hu,hup,htu,hrem,-,-⟩ := renameAt_steps h hp₁ hp₂ hs
  have hname := (hst.trans htu).name e₁ (h.tree.lt_of_parent hp₁)
  have hmem' : e₁ ∈ (u.entry p₁).children := by
    have h1 := mem_removeIfPresent ht hne hmem
    have hlt : p₁ < t.numEntries := Nat.lt_of_lt_of_le (h.tree.parent_lt e₁ p₁ hp₁) hst.grows
    have h2 : e₁ ∈ ((t.setVnode e₂ (t.entry e₁).vnode).entry p₁).children := by
      rw [State.setVnode,setEntry_same (g := Entry.children) rfl]
      exact h1
    rw [hu]
    refine mem_furnish ?_ (mem_attach h2)
    rw [attach_numEntries]
    exact hlt
  have hfind := remove_findChild hup hmem' (hname ▸ hdots) hrem
  rw [State.live,← hname,hfind]
  rfl

end Effect

section New

variable {s s' : State} {e₁ e₂ p₁ p₂ v : Nat} {ret : Except Errno Unit}

theorem attach_findChild (hdir : s.findChild p₂ (s.entry e₂).name = some e₂ ∨
    s.findChild p₂ (s.entry e₂).name = none) :
    (s.attach p₂ e₂).findChild p₂ (s.entry e₂).name = some e₂ := by
  rw [State.attach]
  rcases hdir with hfind | hnone
  · rw [if_neg (by simp [hfind])]
    exact hfind
  · rw [if_pos hnone,State.findChild,addChild_children,if_pos rfl,List.find?_cons]
    have hname : ((s.addChild p₂ e₂).entry e₂).name = (s.entry e₂).name :=
      addChild_same (g := Entry.name) (fun _ => rfl) fun _ => rfl
    simp [hname]

theorem setVnode_findChild {e d : Nat} {n : Name} {v : Option Nat} :
    (s.setVnode e v).findChild d n = s.findChild d n := by
  rw [State.setVnode,Move.findChild_setEntry rfl]
  split_ifs with hd
  · rw [hd]
    rfl
  · rfl

theorem removeIfPresent_findChild {t : State} (h : Proper s)
    (hfind : s.findChild p₂ (s.entry e₂).name = some e₂) (hdots : ¬IsDots (s.entry e₂).name)
    (ht : s.removeIfPresent e₂ = some t) :
    t.findChild p₂ (s.entry e₂).name = some e₂ ∨ t.findChild p₂ (s.entry e₂).name = none := by
  rw [State.removeIfPresent] at ht
  split_ifs at ht
  · exact .inl (Option.some.inj ht ▸ hfind)
  · exact .inr (remove_findChild h (List.mem_of_find?_eq_some hfind) hdots ht)

theorem renameAt_new (h : Proper s) (hs : s.renameAt e₁ e₂ = some (s',ret)) (hne : e₁ ≠ e₂)
    (hv : (s.entry e₁).vnode = some v) (hfind₁ : s.findChild p₁ (s.entry e₁).name = some e₁)
    (hfind₂ : s.findChild p₂ (s.entry e₂).name = some e₂) (hdots : ¬IsDots (s.entry e₂).name) :
    s'.live p₂ (s.entry e₂).name = some (e₂,v) := by
  have hp₁ := h.linked p₁ e₁ (List.mem_of_find?_eq_some hfind₁)
  have hp₂ := h.linked p₂ e₂ (List.mem_of_find?_eq_some hfind₂)
  have he₁ := h.tree.lt_of_parent hp₁
  have he₂ := h.tree.lt_of_parent hp₂
  obtain ⟨t,u,ht,htp,hst,hu,hup,htu,hrem,-,-⟩ := renameAt_steps h hp₁ hp₂ hs
  let a := t.setVnode e₂ (t.entry e₁).vnode
  let b := a.attach p₂ e₂
  have hpar : (t.entry e₂).parent = some p₂ := (hst.parent e₂ he₂).trans hp₂
  have hname : (a.entry e₂).name = (s.entry e₂).name :=
    (setEntry_same (g := Entry.name) rfl).trans (hst.name e₂ he₂)
  have hvnode : (b.entry e₂).vnode = some v := by
    have ha : (a.entry e₂).vnode = some v := by
      rw [show (a.entry e₂).vnode = (t.entry e₁).vnode by simp [a,State.setVnode,setEntry_entry]]
      exact (hst.entry e₁ he₁ hne).trans hv
    rw [← ha]
    simp only [b,State.attach]
    split_ifs
    · exact addChild_same (g := Entry.vnode) (fun _ => rfl) fun _ => rfl
    · rfl
  have hfind : b.findChild p₂ (s.entry e₂).name = some e₂ := by
    rw [← hname]
    refine attach_findChild ?_
    rw [hname,setVnode_findChild]
    exact removeIfPresent_findChild h hfind₂ hdots ht
  have hlive : b.live p₂ (s.entry e₂).name = some (e₂,v) := by
    simp [State.live,hfind,hvnode]
  have hbp : Proper b := (htp.setVnode hpar (htp.vnode_lt e₁)).attach
    ((setEntry_same (g := Entry.parent) rfl).trans hpar)
  have hnum : b.numEntries = t.numEntries := attach_numEntries
  have hlt : p₂ < t.numEntries := Nat.lt_of_lt_of_le (h.tree.parent_lt e₂ p₂ hp₂) hst.grows
  let m₁ : Move := ⟨e₂,dot,e₂,dot,e₂⟩
  have hbu : m₁.Apart b u := by
    rw [hu]
    exact .furnish (m := m₁) hbp (hnum ▸ Nat.lt_of_lt_of_le he₂ hst.grows)
  let m₂ : Move := ⟨p₁,(s.entry e₁).name,p₁,(s.entry e₁).name,e₂⟩
  have hus : m₂.Apart u s' := by
    refine .remove hrem fun p hp => .inl ⟨?_,(hst.trans htu).name e₁ he₁⟩
    exact Option.some.inj (hp.symm.trans (((hst.trans htu).parent e₁ he₁).trans hp₁))
  have hsp₁ : ¬m₁.Special p₂ (s.entry e₂).name := by
    rintro (⟨-,heq⟩ | ⟨-,heq⟩ | ⟨-,heq⟩)
    · exact hdots (.inl heq)
    · exact hdots (.inl heq)
    · exact hdots heq
  have hsp₂ : ¬m₂.Special p₂ (s.entry e₂).name := by
    have hplace : p₂ = p₁ → (s.entry e₂).name = (s.entry e₁).name → False := by
      rintro rfl heq
      rw [heq,hfind₁] at hfind₂
      exact hne (Option.some.inj hfind₂)
    rintro (⟨hd,heq⟩ | ⟨hd,heq⟩ | ⟨-,heq⟩)
    · exact hplace hd heq
    · exact hplace hd heq
    · exact hdots heq
  rw [hus.live p₂ (Nat.lt_of_lt_of_le hlt htu.grows) _ hsp₂,hbu.live p₂ (hnum ▸ hlt) _ hsp₁]
  exact hlive

end New

end SabaOS.Vfs
