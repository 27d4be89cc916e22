import SabaOS.Fs.Naming

namespace SabaOS.Vfs

open SabaOS.Fs SabaOS.Lib

def IsDots (name : Name) : Prop := name = dot ∨ name = dotDot

structure Proper (s : State) : Prop where
  tree : Tree s
  linked : ∀ d, ∀ c ∈ (s.entry d).children, (s.entry c).parent = some d
  nodup : ∀ d, (s.entry d).children.Nodup
  distinct : ∀ d, ∀ c ∈ (s.entry d).children, ∀ c' ∈ (s.entry d).children,
    (s.entry c).name = (s.entry c').name → ¬IsDots (s.entry c).name → c = c'
  dots : ∀ e, (s.entry e).redirect ≠ none → IsDots (s.entry e).name
  vnode_lt : ∀ e v, (s.entry e).vnode = some v → v < s.numVNodes
  text : ∀ v, (s.vnode v).nodeType = .symlink → 0 ∉ (s.vnode v).contents
  root_vnode : ∃ d, (s.entry root).vnode = some d ∧ (s.vnode d).nodeType = .directory
  root_parent : (s.entry root).parent = none
  root_redirect : (s.entry root).redirect = none

variable {s s' : State} {e d x parent v : Nat} {y : Entry} {name : Name}

theorem findChild_none : s.findChild d name = none ↔
    ∀ c ∈ (s.entry d).children, (s.entry c).name ≠ name := by
  simp [State.findChild]

namespace Proper

theorem setEntry (h : Proper s) {f : Entry → Entry} (ht : Tree (s.setEntry e f))
    (hparent : (f (s.entry e)).parent = (s.entry e).parent)
    (hredirect : (f (s.entry e)).redirect = (s.entry e).redirect)
    (hname : (f (s.entry e)).name = (s.entry e).name)
    (hvnode : ∀ v, (f (s.entry e)).vnode = some v → v < s.numVNodes)
    (hroot : e = root → (f (s.entry e)).vnode = (s.entry e).vnode)
    (hlinked : ∀ c ∈ (f (s.entry e)).children, (s.entry c).parent = some e)
    (hnodup : (f (s.entry e)).children.Nodup)
    (hdistinct : ∀ c ∈ (f (s.entry e)).children, ∀ c' ∈ (f (s.entry e)).children,
      (s.entry c).name = (s.entry c').name → ¬IsDots (s.entry c).name → c = c') :
    Proper (s.setEntry e f) := by
  have hred : ∀ x, ((s.setEntry e f).entry x).redirect = (s.entry x).redirect :=
    fun x => setEntry_same (g := Entry.redirect) hredirect
  have hpar : ∀ x, ((s.setEntry e f).entry x).parent = (s.entry x).parent :=
    fun x => setEntry_same (g := Entry.parent) hparent
  have hnam : ∀ x, ((s.setEntry e f).entry x).name = (s.entry x).name :=
    fun x => setEntry_same (g := Entry.name) hname
  refine ⟨ht,?_,?_,?_,?_,?_,h.text,?_,?_,?_⟩
  · intro d c hc
    rw [hpar]
    rw [setEntry_entry] at hc
    split_ifs at hc with hd
    · exact hd ▸ hlinked c hc
    · exact h.linked d c hc
  · intro d
    rw [setEntry_entry]
    split_ifs
    · exact hnodup
    · exact h.nodup d
  · intro d c hc c' hc'
    rw [hnam,hnam]
    rw [setEntry_entry] at hc hc'
    split_ifs at hc hc'
    · exact hdistinct c hc c' hc'
    · exact h.distinct d c hc c' hc'
  · intro x hx
    rw [hnam]
    rw [hred] at hx
    exact h.dots x hx
  · intro x v hx
    rw [setEntry_entry] at hx
    split_ifs at hx
    · exact hvnode v hx
    · exact h.vnode_lt x v hx
  · obtain ⟨d,hd,htype⟩ := h.root_vnode
    refine ⟨d,?_,htype⟩
    rw [setEntry_entry]
    split_ifs with hx
    · exact (hroot hx.symm).trans (hx ▸ hd)
    · exact hd
  · rw [hpar]
    exact h.root_parent
  · rw [hred]
    exact h.root_redirect

theorem of_entries (h : Proper s) (he : s'.entry = s.entry) (hn : s'.numEntries = s.numEntries)
    (hv : s.numVNodes ≤ s'.numVNodes)
    (htype : ∀ v < s.numVNodes, (s'.vnode v).nodeType = (s.vnode v).nodeType)
    (htext : ∀ v, (s'.vnode v).nodeType = .symlink → 0 ∉ (s'.vnode v).contents) : Proper s' := by
  refine ⟨h.tree.of_entries he hn,?_,?_,?_,?_,?_,htext,?_,?_,?_⟩
  · rw [he]
    exact h.linked
  · rw [he]
    exact h.nodup
  · rw [he]
    exact h.distinct
  · rw [he]
    exact h.dots
  · intro x v hx
    rw [he] at hx
    exact Nat.lt_of_lt_of_le (h.vnode_lt x v hx) hv
  · obtain ⟨d,hd,hdir⟩ := h.root_vnode
    exact ⟨d,he ▸ hd,(htype d (h.vnode_lt _ d hd)).trans hdir⟩
  · rw [he]
    exact h.root_parent
  · rw [he]
    exact h.root_redirect

theorem setVNode (h : Proper s) {g : VNode → VNode} (htype : (g (s.vnode v)).nodeType =
    (s.vnode v).nodeType) (htext : (g (s.vnode v)).nodeType = .symlink → 0 ∉ (g (s.vnode v)).contents) :
    Proper (s.setVNode v g) := by
  refine h.of_entries rfl rfl (Nat.le_refl _) ?_ ?_
  · intro x _
    by_cases hx : x = v
    · subst hx
      simpa [State.setVNode] using htype
    · simp [State.setVNode,hx]
  · intro x
    by_cases hx : x = v
    · subst hx
      simpa [State.setVNode] using htext
    · simpa [State.setVNode,hx] using h.text x

theorem root_ne (h : Proper s) (hp : (s.entry e).parent = some parent) : e ≠ root := by
  rintro rfl
  rw [h.root_parent] at hp
  cases hp

theorem setVnode (h : Proper s) (hp : (s.entry e).parent = some parent) {v : Option Nat}
    (hv : ∀ x, v = some x → x < s.numVNodes) :
    Proper (s.setEntry e fun x => { x with vnode := v }) :=
  h.setEntry (h.tree.setVnode hp) rfl rfl rfl hv (fun hr => absurd hr (h.root_ne hp))
    (h.linked e) (h.nodup e) (h.distinct e)

theorem flag (h : Proper s) (he : e < s.numEntries) {removed : Bool} :
    Proper (s.setEntry e fun x => { x with removed := removed }) := by
  refine h.setEntry ?_ rfl rfl rfl (h.vnode_lt e) (fun _ => rfl) (h.linked e) (h.nodup e)
    (h.distinct e)
  exact h.tree.setEntry he (fun hn => hn ▸ h.tree.null_vnode) rfl rfl (h.tree.child_lt e)

theorem addChild (h : Proper s) (hp : (s.entry e).parent = some parent)
    (hfree : IsDots (s.entry e).name ∧ e ∉ (s.entry parent).children ∨
      s.findChild parent (s.entry e).name = none) : Proper (s.addChild parent e) := by
  have he := h.tree.lt_of_parent hp
  have hlt := h.tree.parent_lt e parent hp
  let t := s.setEntry e fun x => { x with removed := false }
  have h1 : Proper t := h.flag he
  have hch : (t.entry parent).children = (s.entry parent).children :=
    setEntry_same (g := Entry.children) rfl
  have hname : ∀ x, (t.entry x).name = (s.entry x).name := fun x =>
    setEntry_same (g := Entry.name) rfl
  have hnew : e ∉ (s.entry parent).children := by
    rcases hfree with ⟨-,hnew⟩ | hnone
    · exact hnew
    · exact fun hmem => findChild_none.mp hnone e hmem rfl
  have hdiff : ∀ c ∈ (s.entry parent).children, (s.entry c).name = (s.entry e).name →
      IsDots (s.entry c).name := by
    intro c hc heq
    rcases hfree with ⟨hdots,-⟩ | hnone
    · exact heq ▸ hdots
    · exact absurd heq (findChild_none.mp hnone c hc)
  refine h1.setEntry (h.tree.addChild hlt he) rfl rfl rfl (h1.vnode_lt parent) (fun _ => rfl) ?_ ?_ ?_
  · intro c hc
    rcases List.mem_cons.mp hc with rfl | hmem
    · exact (setEntry_same (g := Entry.parent) rfl).trans hp
    · exact h1.linked parent c hmem
  · exact List.nodup_cons.mpr ⟨hch ▸ hnew,h1.nodup parent⟩
  · intro c hc c' hc' heq hdots
    rw [hch] at hc hc'
    rw [hname,hname] at heq
    rw [hname] at hdots
    rcases List.mem_cons.mp hc with rfl | hmem
    · rcases List.mem_cons.mp hc' with rfl | hmem'
      · rfl
      · exact absurd (heq ▸ hdiff c' hmem' heq.symm) hdots
    · rcases List.mem_cons.mp hc' with rfl | hmem'
      · exact absurd (hdiff c hmem heq) hdots
      · exact h.distinct parent c hmem c' hmem' heq hdots

theorem new (h : Proper s) (ht : Tree (s.new y)) (hc : y.children = [])
    (hdots : y.redirect ≠ none → IsDots y.name) (hv : ∀ v, y.vnode = some v → v < s.numVNodes) :
    Proper (s.new y) := by
  have hold : ∀ x, x < s.numEntries → (s.new y).entry x = s.entry x := by
    intro x hx
    rw [new_entry,if_neg (Nat.ne_of_lt hx)]
  have hchild : ∀ d c, c ∈ ((s.new y).entry d).children →
      c ∈ (s.entry d).children ∧ (s.new y).entry c = s.entry c := by
    intro d c hmem
    rw [new_entry] at hmem
    split_ifs at hmem
    · rw [hc] at hmem
      cases hmem
    · exact ⟨hmem,hold c (h.tree.child_lt d c hmem)⟩
  have hroot : (s.new y).entry root = s.entry root := by
    obtain ⟨d,hd,-⟩ := h.root_vnode
    exact hold root (h.tree.lt_of_vnode hd)
  refine ⟨ht,?_,?_,?_,?_,?_,h.text,?_,?_,?_⟩
  · intro d c hmem
    obtain ⟨hmem',heq⟩ := hchild d c hmem
    rw [heq]
    exact h.linked d c hmem'
  · intro d
    rw [new_entry]
    split_ifs
    · simp [hc]
    · exact h.nodup d
  · intro d c hmem c' hmem'
    obtain ⟨hm,heq⟩ := hchild d c hmem
    obtain ⟨hm',heq'⟩ := hchild d c' hmem'
    rw [heq,heq']
    exact h.distinct d c hm c' hm'
  · intro x hx
    rw [new_entry] at hx ⊢
    split_ifs at hx ⊢
    · exact hdots hx
    · exact h.dots x hx
  · intro x v hx
    rw [new_entry] at hx
    split_ifs at hx
    · exact hv v hx
    · exact h.vnode_lt x v hx
  · rw [hroot]
    exact h.root_vnode
  · rw [hroot]
    exact h.root_parent
  · rw [hroot]
    exact h.root_redirect

theorem newChild (h : Proper s) (hd : d < s.numEntries) (hc : y.children = [])
    (hp : y.parent = some d) (hr : ∀ r ∈ y.redirect, r < s.numEntries)
    (hdots : y.redirect ≠ none → IsDots y.name) (hv : ∀ v, y.vnode = some v → v < s.numVNodes)
    (hfree : IsDots y.name ∨ s.findChild d y.name = none) :
    Proper ((s.new y).addChild d s.numEntries) := by
  have hself : (s.new y).entry s.numEntries = y := by rw [new_entry,if_pos rfl]
  have hold : (s.new y).entry d = s.entry d := by rw [new_entry,if_neg (Nat.ne_of_lt hd)]
  have htree : Tree (s.new y) := by
    refine h.tree.new hc ?_ hr
    intro q hq
    rw [hp,Option.mem_def,Option.some.injEq] at hq
    exact hq ▸ hd
  refine (h.new htree hc hdots hv).addChild (by rw [hself]; exact hp) ?_
  rw [hself,hold]
  have hlt := h.tree.child_lt d
  refine hfree.imp (fun hn => ⟨hn,fun hmem => Nat.lt_irrefl _ (hlt _ hmem)⟩) fun hnone => ?_
  rw [findChild_none,hold]
  intro c hmem
  rw [new_entry,if_neg (Nat.ne_of_lt (hlt c hmem))]
  exact findChild_none.mp hnone c hmem

theorem lookupNew (h : Proper s) (hd : d < s.numEntries) (hnone : s.findChild d name = none) :
    Proper (s.lookupNew d name).1 := by
  have htree : Tree (s.new (.construct none (some d) name none)) := by
    refine h.tree.new rfl ?_ ?_
    · rintro q ⟨⟩
      exact hd
    · rintro r ⟨⟩
  simp only [State.lookupNew]
  split_ifs
  · exact h.newChild hd rfl rfl (by rintro r ⟨⟩) (fun hr => absurd rfl hr) (by rintro v ⟨⟩)
      (.inr hnone)
  · exact h.new htree rfl (fun hr => absurd rfl hr) (by rintro v ⟨⟩)

theorem addDots (h : Proper s) (he : e < s.numEntries) (hp : parent < s.numEntries)
    (hv : v < s.numVNodes) : Proper (s.addDots e v parent) := by
  have h1 : Proper ((s.new (.construct (some v) (some e) dot (some e))).addChild e s.numEntries) := by
    refine h.newChild he rfl rfl ?_ (fun _ => .inl rfl) ?_ (.inl (.inl rfl))
    · rintro r ⟨⟩
      exact he
    · rintro x ⟨⟩
      exact hv
  refine h1.newChild (Nat.lt_succ_of_lt he) rfl rfl ?_ (fun _ => .inr rfl) ?_ (.inl (.inr rfl))
  · rintro r ⟨⟩
    exact Nat.lt_succ_of_lt hp
  · exact h1.vnode_lt parent

theorem newVNode (h : Proper s) (hp : (s.entry e).parent = some parent) {nodeType : NodeType} :
    Proper (s.newVNode e (.fresh nodeType)) := by
  let t : State := { s with vnode := Function.update s.vnode s.numVNodes (.fresh nodeType),
                            numVNodes := s.numVNodes + 1 }
  have ht : Proper t := by
    refine h.of_entries rfl rfl (Nat.le_succ _) ?_ ?_
    · intro x hx
      simp [t,Function.update_of_ne (Nat.ne_of_lt hx)]
    · intro x hx
      by_cases heq : x = s.numVNodes
      · subst heq
        simp [t,VNode.fresh]
      · simp only [t,Function.update_of_ne heq] at hx ⊢
        exact h.text x hx
  refine ht.setVnode hp ?_
  rintro x ⟨⟩
  exact Nat.lt_succ_self _

theorem fsCreate (h : Proper s) (hp : (s.entry e).parent = some parent) {nodeType : NodeType} :
    Proper (s.fsCreate e nodeType) := by
  simp only [State.fsCreate]
  cases (s.entry e).vnode with
  | none => exact h.newVNode hp
  | some v => exact h.setVNode rfl (fun _ => by simp)

theorem makeNode (h : Proper s) (hp : (s.entry e).parent = some parent) {nodeType : NodeType} :
    Proper (s.makeNode e nodeType) := by
  rw [State.makeNode]
  split_ifs
  · exact h
  · exact h.fsCreate hp

theorem attach (h : Proper s) (hp : (s.entry e).parent = some parent) :
    Proper (s.attach parent e) := by
  rw [State.attach]
  split_ifs with hnone
  · exact h.addChild hp (.inr hnone)
  · exact h

theorem own (h : Proper s) {nodeType : NodeType} {uid gid mode : Option Nat} :
    Proper (s.own v nodeType uid gid mode) := h.setVNode rfl (h.text v)

theorem furnish (h : Proper s) (hp : parent < s.numEntries) (he : e < s.numEntries)
    {nodeType : NodeType} {uid gid mode : Option Nat} :
    Proper (s.furnish e parent nodeType uid gid mode) := by
  simp only [State.furnish]
  cases hv : (s.entry e).vnode with
  | none => exact h
  | some v =>
    dsimp only
    split_ifs
    · exact (h.addDots he hp (h.vnode_lt e v hv)).own
    · exact h.own

end Proper

section Made

variable {α : Type} {g : Entry → α} (hg : ∀ y v, g { y with vnode := v } = g y)

include hg

theorem newVNode_same {y : VNode} : g ((s.newVNode e y).entry x) = g (s.entry x) := by
  rw [State.newVNode]
  exact setEntry_same (hg _ _)

theorem makeNode_same {nodeType : NodeType} :
    g ((s.makeNode e nodeType).entry x) = g (s.entry x) := by
  rw [State.makeNode]
  split_ifs
  · rfl
  · rw [State.fsCreate]
    cases (s.entry e).vnode with
    | none => exact newVNode_same hg
    | some v => rfl

end Made

theorem makeNode_parent {nodeType : NodeType} :
    ((s.makeNode e nodeType).entry x).parent = (s.entry x).parent :=
  makeNode_same (g := Entry.parent) fun _ _ => rfl

namespace Proper

theorem create (h : Proper s) {nodeType : NodeType} {uid gid mode : Option Nat}
    (hs : s.create e nodeType uid gid mode = some s') : Proper s' := by
  rw [State.create] at hs
  cases hpar : (s.entry e).parent with
  | none => simp [hpar] at hs
  | some parent =>
    rw [hpar] at hs
    have hp := h.tree.parent_lt e parent hpar
    have he := h.tree.lt_of_parent hpar
    have hn : (s.makeNode e nodeType).numEntries = s.numEntries := makeNode_numEntries
    have hn' : ((s.makeNode e nodeType).attach parent e).numEntries = s.numEntries :=
      attach_numEntries.trans hn
    have h1 : Proper (s.makeNode e nodeType) := h.makeNode hpar
    have h2 := h1.attach (makeNode_parent.trans hpar)
    exact Option.some.inj hs ▸ h2.furnish (hn' ▸ hp) (hn' ▸ he)

theorem detach (h : Proper s) : Proper (s.detach e) := by
  have htree : Tree (s.detach e) := h.tree.detach
  rw [State.detach] at htree ⊢
  cases hp : (s.entry e).parent with
  | none => exact h
  | some p =>
    rw [hp] at htree
    refine h.setEntry htree rfl rfl rfl (h.vnode_lt p) (fun _ => rfl) ?_ ?_ ?_
    · exact fun c hc => h.linked p c (List.mem_of_mem_erase hc)
    · exact (h.nodup p).erase e
    · intro c hc c' hc'
      exact h.distinct p c (List.mem_of_mem_erase hc) c' (List.mem_of_mem_erase hc')

theorem unlink (h : Proper s) (he : e < s.numEntries) : Proper (s.unlink e) := by
  refine h.detach.flag ?_
  rw [detach_numEntries]
  exact he

theorem remove (h : Proper s) (hs : s.remove e = some s') : Proper s' := by
  simp only [State.remove,Option.bind_eq_bind,Option.bind_eq_some_iff] at hs
  obtain ⟨v,hv,hs⟩ := hs
  split_ifs at hs
  have h1 : Proper (s.unlink e) := h.unlink (h.tree.lt_of_vnode hv)
  exact Option.some.inj hs ▸ h1.setVNode rfl (h1.text v)

theorem pathToEntry (h : Proper s) {frame : Walk → List UInt8} {fuel : Nat} {path : Path}
    {start : Option Nat} {follow : Bool} {r : Nat × State}
    (hr : s.pathToEntry frame fuel path start follow = some r) : Proper r.2 := by
  rcases pathToEntry_state hr with heq | ⟨cur,name,d,hd,hnone,heq,-⟩
  · exact heq ▸ h
  · exact heq ▸ h.lookupNew (h.tree.lt_of_vnode hd) hnone

end Proper

theorem Proper.boot : Proper boot := by
  have hblank : Tree ⟨fun _ => .blank,Function.update (fun _ => .fresh .regular) 0
      (.fresh .directory),2,1⟩ := by
    refine ⟨by decide,rfl,rfl,fun _ _ => rfl,?_,?_,?_,fun _ => rfl⟩
    · rintro e c ⟨⟩
    · rintro e q ⟨⟩
    · rintro e r ⟨⟩
  let s : State := ⟨Function.update (fun _ => .blank) root { Entry.blank with vnode := some 0 },
    Function.update (fun _ => .fresh .regular) 0 (.fresh .directory),2,1⟩
  have ht : Tree s :=
    hblank.setEntry (f := fun x => { x with vnode := some 0 }) (by decide)
      (fun hn => absurd hn (by decide)) rfl rfl (hblank.child_lt root)
  have hchildren : ∀ d, (s.entry d).children = [] := by
    intro d
    by_cases hd : d = root
    · subst hd
      rfl
    · simp [s,hd,Entry.blank,Entry.construct]
  have hs : Proper s := by
    refine ⟨ht,?_,?_,?_,?_,?_,?_,⟨0,rfl,rfl⟩,rfl,rfl⟩
    · intro d c hc
      rw [hchildren] at hc
      cases hc
    · intro d
      rw [hchildren]
      exact List.nodup_nil
    · intro d c hc
      rw [hchildren] at hc
      cases hc
    · intro e he
      by_cases hd : e = root
      · subst hd
        exact absurd rfl he
      · simp [s,hd,Entry.blank,Entry.construct] at he
    · intro e v hv
      by_cases hd : e = root
      · subst hd
        cases hv
        exact Nat.one_pos
      · simp [s,hd,Entry.blank,Entry.construct] at hv
    · intro v
      by_cases hv : v = 0
      · subst hv
        simp [s,VNode.fresh]
      · simp [s,hv,VNode.fresh]
  have h1 : Proper (s.addDots root 0 root) := hs.addDots (by decide) (by decide) Nat.one_pos
  exact h1.setVNode (v := 0) (g := fun x => { x with uid := some 0, gid := some 0, mode := 0o755 })
    rfl (h1.text 0)

section Requests

variable {env : Env} {p : Process} {fuel o : Nat} {dirfd : Int} {path : Path}
variable {ret : Except Errno Unit}

theorem Proper.setVnode_create (h : Proper s) {v : Option Nat} {nodeType : NodeType}
    {uid gid mode : Option Nat} (hv : ∀ x, v = some x → x < s.numVNodes)
    (hs : (s.setVnode e v).create e nodeType uid gid mode = some s') : Proper s' := by
  cases hpar : (s.entry e).parent with
  | none =>
    have hnone : ((s.setVnode e v).entry e).parent = none := by
      rw [State.setVnode,setEntry_same (g := Entry.parent) rfl,hpar]
    simp [State.create,hnone] at hs
  | some parent => exact (h.setVnode hpar hv).create hs

theorem Proper.kept : Kept Proper where
  path h hr := h.pathToEntry hr
  create h hs := h.create hs
  node h hp := h.newVNode hp
  target _ h := h.setVNode rfl fun _ => zero_notMem_cstr
  link h hs := h.setVnode_create (h.vnode_lt _) hs
  remove h hs := h.remove hs

theorem Proper.removeIfPresent (h : Proper s) (hs : s.removeIfPresent e = some s') : Proper s' :=
  kept.removeIfPresent h hs

theorem Proper.renameAt (h : Proper s) (hs : s.renameAt o e = some (s',ret)) : Proper s' :=
  kept.renameAt h hs

theorem Proper.perform (h : Proper s) {req : Request}
    (hs : s.perform env p fuel dirfd path req = some (s',ret)) : Proper s' :=
  kept.perform h hs

end Requests

end SabaOS.Vfs
