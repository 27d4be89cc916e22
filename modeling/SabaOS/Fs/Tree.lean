import SabaOS.Fs.Entry

namespace SabaOS.Vfs

open SabaOS.Fs

def Entry.blank : Entry := .construct none none [] none

structure Tree (s : State) : Prop where
  null_lt : nullEntry < s.numEntries
  null_vnode : (s.entry nullEntry).vnode = none
  null_parent : (s.entry nullEntry).parent = none
  blank : ∀ e, s.numEntries ≤ e → s.entry e = .blank
  child_lt : ∀ e, ∀ c ∈ (s.entry e).children, c < s.numEntries
  parent_lt : ∀ e p, (s.entry e).parent = some p → p < s.numEntries
  redirect_lt : ∀ e r, (s.entry e).redirect = some r → r < s.numEntries
  grounded : ∀ e, (s.entry (s.reduce e)).redirect = none

variable {s s' : State} {e x parent v : Nat} {y : Entry} {f : Entry → Entry}

theorem reduceWithin_congr (h : ∀ e, (s'.entry e).redirect = (s.entry e).redirect)
    (n e : Nat) : s'.reduceWithin n e = s.reduceWithin n e := by
  induction n generalizing e with
  | zero => rfl
  | succ n ih =>
    simp only [State.reduceWithin,h]
    cases (s.entry e).redirect with
    | none => rfl
    | some r => exact ih r

theorem reduceWithin_succ {n : Nat} (h : (s.entry (s.reduceWithin n e)).redirect = none) :
    s.reduceWithin (n + 1) e = s.reduceWithin n e := by
  induction n generalizing e with
  | zero =>
    simp only [State.reduceWithin] at h ⊢
    rw [h]
  | succ n ih =>
    rw [State.reduceWithin,State.reduceWithin]
    rw [State.reduceWithin] at h
    cases hr : (s.entry e).redirect with
    | none => rfl
    | some r =>
      rw [hr] at h
      exact ih h

theorem makeNode_numEntries {nodeType : NodeType} :
    (s.makeNode e nodeType).numEntries = s.numEntries := by
  simp only [State.makeNode,State.fsCreate]
  split_ifs
  · rfl
  · cases (s.entry e).vnode with
    | none => rfl
    | some v => rfl

theorem attach_numEntries : (s.attach parent e).numEntries = s.numEntries := by
  rw [State.attach]
  split_ifs
  · rfl
  · rfl

theorem detach_numEntries : (s.detach e).numEntries = s.numEntries := by
  rw [State.detach]
  cases (s.entry e).parent with
  | none => rfl
  | some p => rfl

namespace Tree

theorem lt_of_vnode (h : Tree s) (he : (s.entry e).vnode = some v) : e < s.numEntries := by
  by_contra hlt
  rw [h.blank e (by omega)] at he
  cases he

theorem reduceWithin_new (h : Tree s) (n : Nat) {e : Nat} (he : e < s.numEntries) :
    (s.new y).reduceWithin n e = s.reduceWithin n e := by
  induction n generalizing e with
  | zero => rfl
  | succ n ih =>
    rw [State.reduceWithin,State.reduceWithin,new_entry,if_neg (Nat.ne_of_lt he)]
    cases hr : (s.entry e).redirect with
    | none => rfl
    | some r => exact ih (h.redirect_lt e r hr)

theorem reduceWithin_lt (h : Tree s) (n : Nat) {e : Nat} (he : e < s.numEntries) :
    s.reduceWithin n e < s.numEntries := by
  induction n generalizing e with
  | zero => exact he
  | succ n ih =>
    rw [State.reduceWithin]
    cases hr : (s.entry e).redirect with
    | none => exact he
    | some r => exact ih (h.redirect_lt e r hr)

theorem reduce_new_old (h : Tree s) (he : e < s.numEntries) : (s.new y).reduce e = s.reduce e := by
  rw [State.reduce,show (s.new y).numEntries = s.numEntries + 1 from rfl,h.reduceWithin_new _ he]
  exact reduceWithin_succ (h.grounded e)

theorem reduce_new_self : (s.new y).reduce s.numEntries =
    match y.redirect with
    | some r => (s.new y).reduceWithin s.numEntries r
    | none => s.numEntries := by
  have hnum : (s.new y).numEntries = s.numEntries + 1 := rfl
  cases hr : y.redirect with
  | none => rw [State.reduce,hnum,State.reduceWithin,new_entry,if_pos rfl,hr]
  | some r => rw [State.reduce,hnum,State.reduceWithin,new_entry,if_pos rfl,hr]

theorem new (h : Tree s) (hc : y.children = []) (hp : ∀ p ∈ y.parent, p < s.numEntries)
    (hr : ∀ r ∈ y.redirect, r < s.numEntries) : Tree (s.new y) := by
  have hnum : (s.new y).numEntries = s.numEntries + 1 := rfl
  refine ⟨?_,?_,?_,?_,?_,?_,?_,?_⟩
  · exact Nat.lt_succ_of_lt h.null_lt
  · rw [new_entry,if_neg (Nat.ne_of_lt h.null_lt)]
    exact h.null_vnode
  · rw [new_entry,if_neg (Nat.ne_of_lt h.null_lt)]
    exact h.null_parent
  · intro e he
    rw [new_entry,if_neg (by omega)]
    exact h.blank e (by omega)
  · intro e c hmem
    rw [new_entry] at hmem
    split_ifs at hmem
    · rw [hc] at hmem
      cases hmem
    · exact Nat.lt_succ_of_lt (h.child_lt e c hmem)
  · intro e p hmem
    rw [new_entry] at hmem
    split_ifs at hmem
    · exact Nat.lt_succ_of_lt (hp p hmem)
    · exact Nat.lt_succ_of_lt (h.parent_lt e p hmem)
  · intro e r hmem
    rw [new_entry] at hmem
    split_ifs at hmem
    · exact Nat.lt_succ_of_lt (hr r hmem)
    · exact Nat.lt_succ_of_lt (h.redirect_lt e r hmem)
  · intro e
    have hold : ∀ d, d < s.numEntries → ((s.new y).entry (s.reduce d)).redirect = none := by
      intro d hd
      have hlt : s.reduce d < s.numEntries := h.reduceWithin_lt _ hd
      rw [new_entry,if_neg (Nat.ne_of_lt hlt)]
      exact h.grounded d
    rcases Nat.lt_trichotomy e s.numEntries with hlt | rfl | hgt
    · rw [h.reduce_new_old hlt]
      exact hold e hlt
    · rw [reduce_new_self]
      cases hy : y.redirect with
      | none =>
        rw [new_entry,if_pos rfl]
        exact hy
      | some r =>
        have hlt := hr r hy
        dsimp only
        rw [h.reduceWithin_new _ hlt]
        exact hold r hlt
    · have hblank : (s.new y).entry e = .blank := by
        rw [new_entry,if_neg (Nat.ne_of_gt hgt)]
        exact h.blank e (Nat.le_of_lt hgt)
      have hred : (s.new y).reduce e = e := by
        rw [State.reduce,hnum,State.reduceWithin,hblank]
        rfl
      rw [hred,hblank]
      rfl

theorem setEntry (h : Tree s) (he : e < s.numEntries)
    (hnull : e = nullEntry → (f (s.entry e)).vnode = none)
    (hparent : (f (s.entry e)).parent = (s.entry e).parent)
    (hredirect : (f (s.entry e)).redirect = (s.entry e).redirect)
    (hchildren : ∀ c ∈ (f (s.entry e)).children, c < s.numEntries) : Tree (s.setEntry e f) := by
  have hred : ∀ x, ((s.setEntry e f).entry x).redirect = (s.entry x).redirect :=
    fun x => setEntry_same (g := Entry.redirect) hredirect
  have hpar : ∀ x, ((s.setEntry e f).entry x).parent = (s.entry x).parent :=
    fun x => setEntry_same (g := Entry.parent) hparent
  refine ⟨h.null_lt,?_,?_,?_,?_,?_,?_,?_⟩
  · rw [setEntry_entry]
    split_ifs with hx
    · exact hnull hx.symm
    · exact h.null_vnode
  · rw [hpar]
    exact h.null_parent
  · intro x hx
    have hne : x ≠ e := Nat.ne_of_gt (Nat.lt_of_lt_of_le he hx)
    rw [setEntry_entry,if_neg hne]
    exact h.blank x hx
  · intro x c hc
    rw [setEntry_entry] at hc
    split_ifs at hc
    · exact hchildren c hc
    · exact h.child_lt x c hc
  · intro x p hp
    rw [hpar] at hp
    exact h.parent_lt x p hp
  · intro x r hr
    rw [hred] at hr
    exact h.redirect_lt x r hr
  · intro x
    rw [hred,State.reduce,reduceWithin_congr hred]
    exact h.grounded x

theorem addChild (h : Tree s) (hp : parent < s.numEntries) (he : e < s.numEntries) :
    Tree (s.addChild parent e) := by
  have hnull : ∀ x, x = nullEntry → (s.entry x).vnode = none := fun x hx => hx ▸ h.null_vnode
  refine (h.setEntry he (hnull e) rfl rfl (h.child_lt e)).setEntry hp ?_ rfl rfl ?_
  · intro hx
    rw [setEntry_same (g := Entry.vnode) rfl]
    exact hnull parent hx
  · intro c hc
    rcases List.mem_cons.mp hc with rfl | hmem
    · exact he
    · rw [setEntry_same (g := Entry.children) rfl] at hmem
      exact h.child_lt parent c hmem

theorem of_entries (h : Tree s) (he : s'.entry = s.entry) (hn : s'.numEntries = s.numEntries) :
    Tree s' := by
  refine ⟨?_,?_,?_,?_,?_,?_,?_,?_⟩
  · exact hn ▸ h.null_lt
  · exact he ▸ h.null_vnode
  · exact he ▸ h.null_parent
  · rw [he,hn]
    exact h.blank
  · rw [he,hn]
    exact h.child_lt
  · rw [he,hn]
    exact h.parent_lt
  · rw [he,hn]
    exact h.redirect_lt
  · intro e
    have hred : ∀ x, (s'.entry x).redirect = (s.entry x).redirect := fun x => he ▸ rfl
    rw [hred,State.reduce,hn,reduceWithin_congr hred]
    exact h.grounded e

theorem ne_null (h : Tree s) (hp : (s.entry e).parent = some parent) : e ≠ nullEntry := by
  rintro rfl
  rw [h.null_parent] at hp
  cases hp

theorem lt_of_parent (h : Tree s) (hp : (s.entry e).parent = some parent) : e < s.numEntries := by
  by_contra hlt
  rw [h.blank e (by omega)] at hp
  cases hp

theorem setVnode (h : Tree s) (he : (s.entry e).parent = some parent) {v : Option Nat} :
    Tree (s.setEntry e fun x => { x with vnode := v }) :=
  h.setEntry (h.lt_of_parent he) (fun hnull => absurd hnull (h.ne_null he)) rfl rfl (h.child_lt e)

theorem newVNode (h : Tree s) (he : (s.entry e).parent = some parent) {x : VNode} :
    Tree (s.newVNode e x) := by
  have hs : Tree { s with vnode := Function.update s.vnode s.numVNodes x,
                          numVNodes := s.numVNodes + 1 } := h.of_entries rfl rfl
  exact hs.setVnode he

theorem fsCreate (h : Tree s) (he : (s.entry e).parent = some parent) {nodeType : NodeType} :
    Tree (s.fsCreate e nodeType) := by
  simp only [State.fsCreate]
  cases (s.entry e).vnode with
  | none => exact h.newVNode he
  | some v => exact h.of_entries rfl rfl

theorem addDots (h : Tree s) (he : e < s.numEntries) (hp : parent < s.numEntries) :
    Tree (s.addDots e v parent) := by
  have grow : ∀ {s : State} {y : Entry}, Tree s → e < s.numEntries → y.children = [] →
      y.parent = some e → (∀ r ∈ y.redirect, r < s.numEntries) →
      Tree ((s.new y).addChild e s.numEntries) := by
    intro s y h he hc hy hr
    refine (h.new hc ?_ hr).addChild (Nat.lt_succ_of_lt he) (Nat.lt_succ_self _)
    intro q hq
    rw [hy,Option.mem_def,Option.some.injEq] at hq
    exact hq ▸ he
  have h1 := grow h he (y := .construct (some v) (some e) dot (some e)) rfl rfl (by
    rintro r ⟨⟩
    exact he)
  refine grow h1 (Nat.lt_succ_of_lt he) rfl rfl ?_
  rintro r ⟨⟩
  exact Nat.lt_succ_of_lt hp

theorem makeNode (h : Tree s) (he : (s.entry e).parent = some parent) {nodeType : NodeType} :
    Tree (s.makeNode e nodeType) := by
  rw [State.makeNode]
  split_ifs
  · exact h
  · exact h.fsCreate he

theorem attach (h : Tree s) (hp : parent < s.numEntries) (he : e < s.numEntries) :
    Tree (s.attach parent e) := by
  rw [State.attach]
  split_ifs
  · exact h.addChild hp he
  · exact h

theorem furnish (h : Tree s) (hp : parent < s.numEntries) (he : e < s.numEntries)
    {nodeType : NodeType} {uid gid mode : Option Nat} :
    Tree (s.furnish e parent nodeType uid gid mode) := by
  simp only [State.furnish]
  cases (s.entry e).vnode with
  | none => exact h
  | some v =>
    dsimp only
    split_ifs
    · exact (h.addDots he hp).of_entries rfl rfl
    · exact h.of_entries rfl rfl

theorem create (h : Tree s) {nodeType : NodeType} {uid gid mode : Option Nat}
    (hs : s.create e nodeType uid gid mode = some s') : Tree s' := by
  rw [State.create] at hs
  cases hpar : (s.entry e).parent with
  | none => simp [hpar] at hs
  | some parent =>
    rw [hpar] at hs
    have hp := h.parent_lt e parent hpar
    have he := h.lt_of_parent hpar
    have hn : (s.makeNode e nodeType).numEntries = s.numEntries := makeNode_numEntries
    have hn' : ((s.makeNode e nodeType).attach parent e).numEntries = s.numEntries :=
      attach_numEntries.trans hn
    have h1 : Tree (s.makeNode e nodeType) := h.makeNode hpar
    have h2 := h1.attach (hn ▸ hp) (hn ▸ he)
    exact Option.some.inj hs ▸ h2.furnish (hn' ▸ hp) (hn' ▸ he)

theorem detach (h : Tree s) : Tree (s.detach e) := by
  rw [State.detach]
  cases hp : (s.entry e).parent with
  | none => exact h
  | some p =>
    refine h.setEntry (h.parent_lt e p hp) (fun hnull => hnull ▸ h.null_vnode) rfl rfl ?_
    intro c hc
    exact h.child_lt p c (List.mem_of_mem_erase hc)

theorem remove (h : Tree s) (hs : s.remove e = some s') : Tree s' := by
  simp only [State.remove,Option.bind_eq_bind,Option.bind_eq_some_iff] at hs
  obtain ⟨v,hv,hs⟩ := hs
  split_ifs at hs
  have he : e < (s.detach e).numEntries := by
    rw [detach_numEntries]
    exact h.lt_of_vnode hv
  have h1 : Tree (s.unlink e) :=
    h.detach.setEntry he (fun hnull => hnull ▸ h.detach.null_vnode) rfl rfl (h.detach.child_lt e)
  exact Option.some.inj hs ▸ h1.of_entries rfl rfl

end Tree

end SabaOS.Vfs
