import SabaOS.Fs.Arrives
import SabaOS.Fs.Count

namespace SabaOS.Vfs

open SabaOS.Fs SabaOS.Lib

structure Whole (s : State) (opened : Nat → Option Nat) : Prop where
  neat : Neat s
  furnished : Furnished s
  counted : s.Counted opened
  opened_lt : ∀ d v, opened d = some v → v < s.numVNodes

structure Onward (s s' : State) : Prop where
  grows : Grows s s'
  dirs : ∀ x, s.IsDir x → (s'.entry x).vnode = (s.entry x).vnode

structure Rises (s s' : State) : Prop where
  onward : Onward s s'
  counts : ∀ x v, s.IsDir x → (s.entry x).vnode = some v →
    (s.vnode v).refCount ≤ (s'.vnode v).refCount

structure Within (s : State) (p : Process) : Prop where
  cwd : p.cwd < s.numEntries
  description : ∀ fd d, p.description fd = some d → d.entry < s.numEntries

def FoundAt (s : State) (e : Nat) : Prop :=
  e = nullEntry ∨ e = root ∨ ∃ d, e ∈ (s.entry d).children

structure Located (s t : State) (opened : Nat → Option Nat) (e : Nat) : Prop where
  whole : Whole t opened
  onward : Onward s t
  vnodes : t.vnode = s.vnode
  vnode : ∀ x, (t.entry x).vnode = (s.entry x).vnode
  places : ∀ d, ∀ c ∈ (s.entry d).children, c ∈ (t.entry d).children
  found : FoundAt t e

variable {s s' s'' : State} {e d o v parent : Nat} {opened : Nat → Option Nat}
variable {nodeType : NodeType} {uid gid mode : Option Nat}

namespace Onward

theorem refl : Onward s s := ⟨.refl,fun _ _ => rfl⟩

theorem isDir (h : Onward s s') (hp : Proper s) {x : Nat} (hx : s.IsDir x) : s'.IsDir x := by
  have hsame := h.dirs x hx
  obtain ⟨v,hv,hdir⟩ := hx
  exact ⟨v,hsame.trans hv,(h.grows.nodeType v (hp.vnode_lt x v hv)).trans hdir⟩

theorem trans (h : Onward s s') (hp : Proper s) (h' : Onward s' s'') : Onward s s'' :=
  ⟨h.grows.trans h'.grows,fun x hx => (h'.dirs x (h.isDir hp hx)).trans (h.dirs x hx)⟩

theorem of_alters (ha : s.Alters e s') (hp : Proper s) (hfile : ¬s.IsDir e) : Onward s s' := by
  refine ⟨ha.grows,fun x hx => ?_⟩
  have hne : x ≠ e := fun heq => hfile (heq ▸ hx)
  obtain ⟨v,hv,-⟩ := hx
  exact (ha.keeps x (hp.tree.lt_of_vnode hv) hne).vnode

end Onward

namespace Rises

theorem refl : Rises s s := ⟨.refl,fun _ _ _ _ => Int.le_refl _⟩

theorem trans (h : Rises s s') (hp : Proper s) (h' : Rises s' s'') : Rises s s'' := by
  refine ⟨h.onward.trans hp h'.onward,fun x v hx hv => ?_⟩
  have hle := h.counts x v hx hv
  have hle' := h'.counts x v (h.onward.isDir hp hx) ((h.onward.dirs x hx).trans hv)
  omega

theorem of_same (h : Onward s s') (hv : s'.vnode = s.vnode) : Rises s s' :=
  ⟨h,fun _ _ _ _ => by rw [hv]⟩

theorem of_links (hl : s.Links e v s') (hp : Proper s) (hfile : ¬s.IsDir e) : Rises s s' := by
  refine ⟨.of_alters hl.alters hp hfile,fun x u _ _ => ?_⟩
  rw [hl.refCount]
  split_ifs
  · omega
  · omega

end Rises

theorem getStartingPoint_lt {p : Process} (hp : Within s p) {dirfd : Int} {path : Path}
    {start : Option Nat} (hs : s.getStartingPoint p dirfd path = .ok start) :
    ∀ x, start = some x → x < s.numEntries := by
  rintro x rfl
  simp only [State.getStartingPoint] at hs
  split_ifs at hs
  · cases hs
  · exact Option.some.inj (Except.ok.inj hs) ▸ hp.cwd
  · cases hd : p.description dirfd with
    | none => simp [hd] at hs
    | some d =>
      simp only [hd] at hs
      split_ifs at hs
      exact Option.some.inj (Except.ok.inj hs) ▸ hp.description dirfd d hd

theorem Located.rises (hl : Located s s' opened e) (hp : Proper s) (hr : Rises s' s'') : Rises s s'' :=
  (Rises.of_same hl.onward hl.vnodes).trans hp hr

theorem Located.foundAt (hl : Located s s' opened e) (h : FoundAt s o) : FoundAt s' o :=
  h.imp id (Or.imp id fun ⟨d,hmem⟩ => ⟨d,hl.places d o hmem⟩)

theorem Within.onward {p : Process} (hp : Within s p) (ho : Onward s s') : Within s' p :=
  ⟨Nat.lt_of_lt_of_le hp.cwd ho.grows.entries,fun fd d hd =>
    Nat.lt_of_lt_of_le (hp.description fd d hd) ho.grows.entries⟩

theorem not_isDir (hv : (s.entry e).vnode = none) : ¬s.IsDir e := by
  rintro ⟨v,hv',-⟩
  rw [hv] at hv'
  cases hv'

theorem create_dots (h : Proper s) (hs : s.create e nodeType uid gid mode = some s')
    (hdir : s'.IsDir e) {n : Name} (hn : IsDots n) :
    ∃ c ∈ (s'.entry e).children, (s'.entry c).name = n := by
  rw [State.create] at hs
  cases hpar : (s.entry e).parent with
  | none => simp [hpar] at hs
  | some parent =>
    rw [hpar] at hs
    rw [← Option.some.inj hs] at hdir ⊢
    refine furnish_dots ?_ hdir hn
    rw [attach_numEntries,makeNode_numEntries]
    exact h.tree.lt_of_parent hpar

theorem foundAt_of_naming (h : s.naming e = some v) : FoundAt s e := by
  simp only [State.naming] at h
  cases hp : (s.entry e).parent with
  | none => simp [hp] at h
  | some p =>
    simp only [hp] at h
    split_ifs at h with hmem
    exact .inr (.inr ⟨p,hmem.1⟩)

namespace Whole

variable (h : Whole s opened)

include h

theorem proper : Proper s := h.neat.proper

theorem found_linked (hfound : FoundAt s e) (hroot : e ≠ root) (hnull : e ≠ nullEntry) :
    ∃ parent, (s.entry e).parent = some parent ∧ e ∈ (s.entry parent).children := by
  rcases hfound with heq | heq | ⟨d,hmem⟩
  · exact absurd heq hnull
  · exact absurd heq hroot
  · exact ⟨d,h.proper.linked d e hmem,hmem⟩

theorem ne_root_of_negative (hv : (s.entry e).vnode = none) : e ≠ root := by
  rintro rfl
  obtain ⟨v,hv',-⟩ := h.proper.root_vnode
  rw [hv] at hv'
  cases hv'

theorem ne_null_of_parent (hp : (s.entry e).parent ≠ none) : e ≠ nullEntry :=
  fun heq => hp (heq ▸ h.proper.tree.null_parent)

theorem ne_null_of_vnode (hv : (s.entry e).vnode = some v) : e ≠ nullEntry := by
  rintro rfl
  rw [h.proper.tree.null_vnode] at hv
  cases hv

theorem lookup (hstand : Stands s d) (hd : s.IsDir d) {name : Name}
    (hnone : s.findChild d name = none) (hname : CleanName name) :
    Whole (s.lookupNew d name).1 opened ∧ Onward s (s.lookupNew d name).1 := by
  have ha : ∀ e, s.Alters e (s.lookupNew d name).1 :=
    fun e => .lookupNew h.proper hstand hnone hname
  have hneat : Neat (s.lookupNew d name).1 := h.neat.lookupNew h.furnished hstand hd hnone
  have hnew : ¬IsDots (s.entry s.numEntries).name := by
    rw [h.proper.tree.blank _ (Nat.le_refl _)]
    rintro (heq | heq)
    · cases heq
    · cases heq
  have hnegative : ((s.lookupNew d name).1.entry s.numEntries).vnode = none := by
    rw [lookupNew_vnode,if_pos rfl]
  refine ⟨⟨hneat,?_,?_,fun x v hx => ?_⟩,.of_alters (ha s.numEntries) h.proper ?_⟩
  · exact (ha s.numEntries).furnished h.neat hneat h.furnished hnew
      fun hdir => absurd hdir (not_isDir hnegative)
  · refine h.counted.same (fun x => ?_) fun x => by rw [lookupNew_vnodes]
    exact (ha (x + 1)).naming x (Nat.ne_of_lt (Nat.lt_succ_self x))
  · exact Nat.lt_of_lt_of_le (h.opened_lt x v hx) (ha 0).grows.vnodes
  · rw [State.IsDir,h.proper.tree.blank _ (Nat.le_refl _)]
    rintro ⟨v,hv,-⟩
    cases hv

theorem located {frame : Walk → List UInt8} {follow : Bool} {path : Path} {start : Option Nat}
    {fuel : Nat} {r : Nat × State} (hstart : ∀ x, start = some x → x < s.numEntries)
    (hr : s.pathToEntry frame fuel path start follow = some r) : Located s r.2 opened r.1 := by
  have hp := h.proper
  have harrives : Arrives s (Stands s) r :=
    hp.tree.pathToEntry_arrives hp.stands_root (fun x hx => hp.stands_reduce (hstart x hx))
      (fun d c _ hc => hp.stands_reduce (hp.tree.child_lt d c hc))
      (fun d hd => hp.stands_reduce hd.lt) hr
  cases harrives with
  | fixed hs he =>
    rw [hs]
    exact ⟨h,.refl,rfl,fun _ => rfl,fun _ _ hc => hc,he.imp id .inl⟩
  | child d _ hs he =>
    rw [hs]
    exact ⟨h,.refl,rfl,fun _ => rfl,fun _ _ hc => hc,.inr (.inr ⟨d,he⟩)⟩
  | fresh d name hstand hd hnone hname hs he =>
    obtain ⟨hwhole,honward⟩ := h.lookup hstand hd hnone hname
    have hagree := hp.tree.lookupNew_agree hstand.lt hnone
    rw [hs]
    refine ⟨hwhole,honward,lookupNew_vnodes,hagree.entry,fun x c hc => ?_,?_⟩
    · exact (State.Keeps.lookupNew hp.tree (hp.tree.child_lt x c hc)).places x hc
    · rcases he with he | he
      · refine .inr (.inr ⟨d,?_⟩)
        rw [he]
        exact List.mem_of_find?_eq_some (lookupNew_findChild hp hstand hnone)
      · exact .inl he

theorem created (hfound : FoundAt s e) (hv : (s.entry e).vnode = none)
    (hpar : (s.entry e).parent ≠ none) (hne : nodeType ≠ .hardLink)
    (hs : s.create e nodeType uid gid mode = some s') : Whole s' opened ∧ Rises s s' ∧
      s.Links e s.numVNodes s' ∧ (s'.entry e).vnode = some s.numVNodes := by
  obtain ⟨parent,hp,hmem⟩ := h.found_linked hfound (h.ne_root_of_negative hv) (h.ne_null_of_parent hpar)
  have hfile := not_isDir hv
  have hdots := h.neat.notDots hfile
  obtain ⟨hbare,hself⟩ := h.neat.bare hfile
  have hneat : Neat s' := h.neat.create hbare hself hs
  obtain ⟨hlinks,hvnode⟩ := create_links h.proper hp hmem hdots hv
    (h.counted.zero h.proper h.opened_lt) hne hs
  refine ⟨⟨hneat,?_,h.counted.link hlinks (naming_none hv),fun x u hx => ?_⟩,
    .of_links hlinks h.proper hfile,hlinks,hvnode⟩
  · exact hlinks.alters.furnished h.neat hneat h.furnished hdots
      fun hdir n hn => create_dots h.proper hs hdir hn
  · exact Nat.lt_of_lt_of_le (h.opened_lt x u hx) hlinks.alters.grows.vnodes

theorem linked (hp : (s.entry e).parent = some parent)
    (hfree : e ∈ (s.entry parent).children ∨ s.findChild parent (s.entry e).name = none)
    (hdots : ¬IsDots (s.entry e).name) (hfile : ¬s.IsDir e) (hnaming : s.naming e = none)
    (hv : v < s.numVNodes)
    (hs : (s.setVnode e (some v)).create e .hardLink none none none = some s') :
    Whole s' opened ∧ s.Links e v s' := by
  have hset : Neat (s.setVnode e (some v)) := by
    refine h.neat.setVnode hp hfile hdots ?_
    rintro x ⟨⟩
    exact hv
  obtain ⟨hbare,hself⟩ := h.neat.bare hfile
  have hneat : Neat s' := by
    refine hset.create ?_ ?_ hs
    · exact (setEntry_same (g := Entry.children) rfl).trans hbare
    · intro heq
      exact hself ((setEntry_same (g := Entry.parent) rfl).symm.trans heq)
  have hlinks : s.Links e v s' := link_links h.proper hp hfree hdots hv hs
  refine ⟨⟨hneat,?_,h.counted.link hlinks hnaming,fun x u hx => ?_⟩,hlinks⟩
  · exact hlinks.alters.furnished h.neat hneat h.furnished hdots
      fun hdir n hn => create_dots hset.proper hs hdir hn
  · exact Nat.lt_of_lt_of_le (h.opened_lt x u hx) hlinks.alters.grows.vnodes

theorem removed (hfound : FoundAt s e) (hroot : e ≠ root) (hdots : ¬IsDots (s.entry e).name)
    (hv : (s.entry e).vnode = some v) (hs : s.remove e = some s') :
    Whole s' opened ∧ Onward s s' ∧ s.Unlinks e v s' := by
  obtain ⟨parent,hp,hmem⟩ := h.found_linked hfound hroot (h.ne_null_of_vnode hv)
  have hneat : Neat s' := h.neat.remove hs
  have hunlinks : s.Unlinks e v s' := remove_unlinks h.proper hv hs
  have hnaming : s.naming e = some v := (naming_linked hp hmem hdots).trans hv
  refine ⟨⟨hneat,?_,h.counted.unlink hunlinks hnaming,fun x u hx => ?_⟩,
    ⟨hunlinks.alters.grows,fun x _ => remove_vnode hs⟩,hunlinks⟩
  · refine hunlinks.alters.furnished h.neat hneat h.furnished hdots fun hdir n hn => ?_
    have he := h.proper.tree.lt_of_vnode hv
    obtain ⟨u,hu,htype⟩ := hdir
    rw [remove_vnode hs] at hu
    rw [hunlinks.alters.grows.nodeType u (h.proper.vnode_lt e u hu)] at htype
    have hred : (s.entry e).redirect = none := not_not.mp fun hr => hdots (h.proper.dots e hr)
    obtain ⟨c,hc,hname⟩ := h.furnished e ⟨u,hu,htype⟩ hred n hn
    have hclt := h.proper.tree.child_lt e c hc
    have hce : c ≠ e := by
      rintro rfl
      exact hdots (hname ▸ hn)
    exact ⟨c,(hunlinks.alters.keeps c hclt hce).places e hc,
      (hunlinks.alters.grows.name c hclt).trans hname⟩
  · exact Nat.lt_of_lt_of_le (h.opened_lt x u hx) hunlinks.alters.grows.vnodes

theorem setVNode {g : VNode → VNode} (htype : (g (s.vnode v)).nodeType = (s.vnode v).nodeType)
    (htext : (g (s.vnode v)).nodeType = .symlink → 0 ∉ (g (s.vnode v)).contents)
    {opened' : Nat → Option Nat} (hcounted : (s.setVNode v g).Counted opened')
    (hopened : ∀ d u, opened' d = some u → u < s.numVNodes) :
    Whole (s.setVNode v g) opened' ∧ Onward s (s.setVNode v g) := by
  have hneat : Neat (s.setVNode v g) := h.neat.setVNode (h.proper.setVNode htype htext) htype
  have ha : s.Alters nullEntry (s.setVNode v g) := .setVNode htype
  have hnull : ¬s.IsDir nullEntry := not_isDir h.proper.tree.null_vnode
  refine ⟨⟨hneat,?_,hcounted,hopened⟩,.of_alters ha h.proper hnull⟩
  exact ha.furnished h.neat hneat h.furnished (h.neat.notDots hnull)
    fun hdir => absurd hdir (not_isDir h.proper.tree.null_vnode)

theorem setContents {contents : List UInt8} (htext : 0 ∉ contents) :
    Whole (s.setVNode v fun x => { x with contents := contents }) opened ∧
      Rises s (s.setVNode v fun x => { x with contents := contents }) := by
  have hsame : ∀ x, ((s.setVNode v fun x => { x with contents := contents }).vnode x).refCount =
      (s.vnode x).refCount := by
    intro x
    rw [State.setVNode]
    rcases eq_or_ne x v with rfl | hx
    · simp
    · simp [hx]
  obtain ⟨hwhole,honward⟩ := h.setVNode (v := v) (g := fun x => { x with contents := contents }) rfl
    (fun _ => htext) (h.counted.same (fun _ => rfl) hsame) h.opened_lt
  exact ⟨hwhole,honward,fun x u _ _ => Int.le_of_eq (hsame u).symm⟩

theorem hold {opened' : Nat → Option Nat} (hv : v < s.numVNodes) (hd : opened d = none)
    (hopened : ∀ x, opened' x = Function.update opened d (some v) x) :
    Whole (s.setVNode v fun x => { x with refCount := x.refCount + 1 }) opened' ∧
      Rises s (s.setVNode v fun x => { x with refCount := x.refCount + 1 }) := by
  obtain ⟨hwhole,honward⟩ := h.setVNode (v := v) (g := fun x => { x with refCount := x.refCount + 1 }) rfl
    (h.proper.text v) (h.counted.hold hd hopened) fun x u hx => by
      rw [hopened] at hx
      rcases eq_or_ne x d with rfl | hne
      · rw [Function.update_self,Option.some.injEq] at hx
        exact hx ▸ hv
      · rw [Function.update_of_ne hne] at hx
        exact h.opened_lt x u hx
  refine ⟨hwhole,honward,fun x u _ _ => ?_⟩
  rw [State.setVNode]
  rcases eq_or_ne u v with rfl | hu
  · simp only [Function.update_self]
    omega
  · simp only [Function.update_of_ne hu]
    exact Int.le_refl _

theorem release {opened' : Nat → Option Nat} (hd : opened d = some v)
    (hopened : ∀ x, opened' x = Function.update opened d none x) :
    Whole (s.setVNode v fun x => { x with refCount := x.refCount - 1 }) opened' ∧
      Onward s (s.setVNode v fun x => { x with refCount := x.refCount - 1 }) := by
  refine h.setVNode (v := v) (g := fun x => { x with refCount := x.refCount - 1 }) rfl
    (h.proper.text v) (h.counted.release hd hopened) fun x u hx => ?_
  rw [hopened] at hx
  rcases eq_or_ne x d with rfl | hne
  · rw [Function.update_self] at hx
    cases hx
  · rw [Function.update_of_ne hne] at hx
    exact h.opened_lt x u hx

section Requests

variable {p : Process} {ret : Except Errno Unit}

theorem mkdirAt (hfound : FoundAt s e) {mode : Nat} (hs : s.mkdirAt p e mode = some (s',ret)) :
    Whole s' opened ∧ Rises s s' := by
  simp only [State.mkdirAt,fail,done] at hs
  split_ifs at hs with hv hpar
  · cases hs
    exact ⟨h,.refl⟩
  · cases hs
    exact ⟨h,.refl⟩
  · simp only [Option.bind_eq_bind,Option.bind_eq_some_iff,Option.some.injEq] at hs
    obtain ⟨t,ht,⟨⟩⟩ := hs
    obtain ⟨hwhole,hrises,-⟩ := h.created hfound (not_not.mp hv) hpar (by decide) ht
    exact ⟨hwhole,hrises⟩

theorem symlinkAt (hfound : FoundAt s e) {target : Path}
    (hs : s.symlinkAt p e target = some (s',ret)) : Whole s' opened ∧ Rises s s' := by
  simp only [State.symlinkAt,fail,done] at hs
  split_ifs at hs with hpar hv
  · cases hs
    exact ⟨h,.refl⟩
  · cases hs
    exact ⟨h,.refl⟩
  · simp only [Option.bind_eq_bind,Option.bind_eq_some_iff,Option.some.injEq] at hs
    obtain ⟨t,ht,v,-,⟨⟩⟩ := hs
    obtain ⟨hwhole,hrises,-⟩ := h.created hfound (not_not.mp hv) hpar (by decide) ht
    have htext : 0 ∉ cstr target := zero_notMem_cstr
    obtain ⟨hwhole',hrises'⟩ := hwhole.setContents (v := v) htext
    exact ⟨hwhole',hrises.trans h.proper hrises'⟩

theorem linkAt (hfound : FoundAt s e) (hold : (s.entry o).vnode = some v)
    (hs : s.linkAt (s.entry o).vnode e = some (s',ret)) : Whole s' opened ∧ Rises s s' := by
  simp only [State.linkAt,fail,done] at hs
  split_ifs at hs with hv
  · cases hs
    exact ⟨h,.refl⟩
  · rw [hold] at hs
    simp only [Option.bind_eq_bind,Option.bind_eq_some_iff,Option.some.injEq] at hs
    obtain ⟨t,ht,⟨⟩⟩ := hs
    have hnone := not_not.mp hv
    have hpar : (s.entry e).parent ≠ none := by
      intro hp
      have hp' : ((s.setVnode e (some v)).entry e).parent = none :=
        (setEntry_same (g := Entry.parent) rfl).trans hp
      simp [State.create,hp'] at ht
    obtain ⟨parent,hp,hmem⟩ := h.found_linked hfound (h.ne_root_of_negative hnone)
      (h.ne_null_of_parent hpar)
    have hfile := not_isDir hnone
    obtain ⟨hwhole,hlinks⟩ := h.linked hp (.inl hmem) (h.neat.notDots hfile) hfile (naming_none hnone)
      (h.proper.vnode_lt o v hold) ht
    exact ⟨hwhole,.of_links hlinks h.proper hfile⟩

theorem unlinkAt (hfound : FoundAt s e) {flags : Nat}
    (hsafe : ∀ v, (s.entry e).vnode = some v →
      ¬((s.vnode v).nodeType = .directory ∧ flags &&& atRemovedir = 0) →
      e ≠ root ∧ ¬IsDots (s.entry e).name)
    (hs : s.unlinkAt e flags = some (s',ret)) : Whole s' opened ∧ Onward s s' ∧
      ∀ x, (s'.vnode x).refCount = (s.vnode x).refCount ∨ (s.entry e).vnode = some x ∧
        ¬((s.vnode x).nodeType = .directory ∧ flags &&& atRemovedir = 0) ∧
        (s'.vnode x).refCount = (s.vnode x).refCount - 1 := by
  rw [State.unlinkAt] at hs
  cases hv : (s.entry e).vnode with
  | none =>
    simp only [hv,fail,Option.some.injEq,Prod.mk.injEq] at hs
    exact hs.1 ▸ ⟨h,.refl,fun _ => .inl rfl⟩
  | some v =>
    simp only [hv,fail,done] at hs
    split_ifs at hs with hrefused
    · cases hs
      exact ⟨h,.refl,fun _ => .inl rfl⟩
    · simp only [Option.bind_eq_bind,Option.bind_eq_some_iff,Option.some.injEq] at hs
      obtain ⟨t,ht,⟨⟩⟩ := hs
      obtain ⟨hroot,hdots⟩ := hsafe v hv hrefused
      obtain ⟨hwhole,honward,hunlinks⟩ := h.removed hfound hroot hdots hv ht
      refine ⟨hwhole,honward,fun x => ?_⟩
      rw [hunlinks.refCount]
      rcases eq_or_ne x v with rfl | hx
      · exact .inr ⟨rfl,hrefused,by rw [if_pos rfl]⟩
      · exact .inl (by rw [if_neg hx,Int.sub_zero])

theorem vacated (hfound : FoundAt s e) (hfile : ¬s.IsDir e) (hnull : e ≠ nullEntry)
    (hs : s.removeIfPresent e = some s') : Whole s' opened ∧ Rises s s' ∧ s.Alters e s' ∧
      s'.naming e = none ∧ (∀ x, (s'.entry x).vnode = (s.entry x).vnode) ∧
      ∃ parent, (s'.entry e).parent = some parent ∧
        (e ∈ (s'.entry parent).children ∨ s'.findChild parent (s'.entry e).name = none) := by
  have hdots := h.neat.notDots hfile
  have hroot : e ≠ root := by
    rintro rfl
    exact hfile h.proper.root_vnode
  obtain ⟨parent,hp,hmem⟩ := h.found_linked hfound hroot hnull
  rw [State.removeIfPresent] at hs
  split_ifs at hs with hv
  · cases hs
    exact ⟨h,.refl,.refl,naming_none hv,fun _ => rfl,parent,hp,.inl hmem⟩
  · obtain ⟨w,hw⟩ := Option.ne_none_iff_exists'.mp hv
    obtain ⟨hwhole,honward,hunlinks⟩ := h.removed hfound hroot hdots hw hs
    refine ⟨hwhole,⟨honward,fun x u hx hu => ?_⟩,hunlinks.alters,hunlinks.naming,
      fun x => remove_vnode hs,parent,?_,.inr ?_⟩
    · rw [hunlinks.refCount,if_neg,Int.sub_zero]
      rintro rfl
      obtain ⟨z,hz,hdir⟩ := hx
      rw [hu,Option.some.injEq] at hz
      exact hfile ⟨u,hw,hz ▸ hdir⟩
    · rw [hunlinks.alters.grows.parent e (h.proper.tree.lt_of_parent hp),hp]
    · rw [remove_name hs]
      exact remove_findChild h.proper hmem hdots hs

theorem renameAt (hfoundOld : FoundAt s o) (hrootOld : o ≠ root) (hdotsOld : ¬IsDots (s.entry o).name)
    (hold : (s.entry o).vnode = some v) (hfound : FoundAt s e) (hfile : ¬s.IsDir e)
    (hs : s.renameAt o e = some (s',ret)) : Whole s' opened ∧ Rises s s' := by
  simp only [State.renameAt,done,Option.bind_eq_bind,Option.bind_eq_some_iff,
    Option.some.injEq] at hs
  obtain ⟨t,ht,u,hu,q,hq,⟨⟩⟩ := hs
  have hnull : e ≠ nullEntry := by
    rintro rfl
    have heq : t = s := by
      rw [State.removeIfPresent,if_pos h.proper.tree.null_vnode] at ht
      exact (Option.some.inj ht).symm
    have hpar : ((t.setVnode nullEntry (t.entry o).vnode).entry nullEntry).parent = none := by
      rw [State.setVnode,setEntry_same (g := Entry.parent) rfl,heq]
      exact h.proper.tree.null_parent
    simp [State.create,hpar] at hu
  obtain ⟨parentOld,hpOld,hmemOld⟩ := h.found_linked hfoundOld hrootOld (h.ne_null_of_vnode hold)
  have hlt := h.proper.tree.lt_of_vnode hold
  obtain ⟨hwt,hst,hast,hnaming,hvt,parent,hp,hfree⟩ := h.vacated hfound hfile hnull ht
  have hfile' : ¬t.IsDir e := by
    rintro ⟨w,hw,hdir⟩
    rw [hvt] at hw
    rw [hast.grows.nodeType w (h.proper.vnode_lt e w hw)] at hdir
    exact hfile ⟨w,hw,hdir⟩
  have hvold : (t.entry o).vnode = some v := (hvt o).trans hold
  rw [hvold] at hu
  obtain ⟨hwu,hlinks⟩ := hwt.linked hp hfree (hwt.neat.notDots hfile') hfile' hnaming
    (hwt.proper.vnode_lt o v hvold) hu
  have hnamingOld : u.naming o = some v := by
    rcases eq_or_ne o e with rfl | hne
    · exact hlinks.naming
    · rw [hlinks.alters.naming o hne,hast.naming o hne,naming_linked hpOld hmemOld hdotsOld]
      exact hold
  have hdots : ¬IsDots (u.entry o).name := by
    rw [hlinks.alters.grows.name o (Nat.lt_of_lt_of_le hlt hast.grows.entries),hast.grows.name o hlt]
    exact hdotsOld
  obtain ⟨hwhole,honward,hunlinks⟩ := hwu.removed (foundAt_of_naming hnamingOld) hrootOld hdots
    (vnode_of_naming hnamingOld) hq
  have htu : Onward t u := .of_alters hlinks.alters hwt.proper hfile'
  refine ⟨hwhole,hst.onward.trans h.proper (htu.trans hwt.proper honward),fun x w hx hw => ?_⟩
  have hle := hst.counts x w hx hw
  rw [hunlinks.refCount,hlinks.refCount]
  split_ifs
  · omega
  · omega

theorem locate (hp : Within s p) {env : Env} {dirfd : Int} {path : Path} {fuel : Nat}
    (hr : s.locate env p fuel dirfd path = some (.ok (e,s'))) : Located s s' opened e := by
  rw [State.locate] at hr
  cases hstart : s.getStartingPoint p dirfd path with
  | error err => simp [hstart] at hr
  | ok start =>
    simp only [hstart,Option.map_eq_some_iff,Except.ok.injEq] at hr
    obtain ⟨r,hr,rfl⟩ := hr
    exact h.located (getStartingPoint_lt hp hstart) hr

theorem locateThen (hp : Within s p) {env : Env} {dirfd : Int} {path : Path} {fuel : Nat}
    {k : Nat → State → Result} {Q : State → Prop} (hfail : Q s)
    (hk : ∀ e t, s.locate env p fuel dirfd path = some (.ok (e,t)) → Located s t opened e →
      k e t = some (s',ret) → Q s')
    (hs : s.locateThen env p fuel dirfd path k = some (s',ret)) : Q s' := by
  rw [State.locateThen] at hs
  cases hloc : s.locate env p fuel dirfd path with
  | none => simp [hloc] at hs
  | some r =>
    cases r with
    | error err =>
      simp only [hloc,fail,Option.some.injEq,Prod.mk.injEq] at hs
      exact hs.1 ▸ hfail
    | ok r =>
      simp only [hloc] at hs
      exact hk r.1 r.2 hloc (h.locate hp hloc) hs

theorem locateBoth (hp : Within s p) {env : Env} {oldDirfd dirfd : Int} {old path : Path} {fuel : Nat}
    {k : Nat → Nat → State → Result}
    (hk : ∀ o t e u v, s.locate env p fuel oldDirfd old = some (.ok (o,t)) → (t.entry o).vnode ≠ none →
      t.locate env p fuel dirfd path = some (.ok (e,u)) → Whole u opened → FoundAt u o → FoundAt u e →
      (u.entry o).vnode = some v → k o e u = some (s',ret) → Whole s' opened ∧ Rises u s')
    (hs : s.locateBoth env p fuel oldDirfd old dirfd path k = some (s',ret)) :
    Whole s' opened ∧ Rises s s' := by
  refine h.locateThen (Q := fun x => Whole x opened ∧ Rises s x) hp ⟨h,.refl⟩ ?_ hs
  intro o t hold hlo hret
  have hst : Rises s t := .of_same hlo.onward hlo.vnodes
  by_cases hv : (t.entry o).vnode = none
  · rw [if_pos hv,fail,Option.some.injEq,Prod.mk.injEq] at hret
    exact hret.1 ▸ ⟨hlo.whole,hst⟩
  · rw [if_neg hv] at hret
    refine hlo.whole.locateThen (Q := fun x => Whole x opened ∧ Rises s x) (hp.onward hlo.onward)
      ⟨hlo.whole,hst⟩ ?_ hret
    intro e u hnew hle hret
    obtain ⟨v,hvo⟩ := Option.ne_none_iff_exists'.mp hv
    have hvu : (u.entry o).vnode = some v := (hle.vnode o).trans hvo
    obtain ⟨hwhole,hrises⟩ := hk o t e u v hold hv hnew hle.whole (hle.foundAt hlo.found) hle.found hvu hret
    exact ⟨hwhole,hst.trans h.proper (hle.rises hlo.whole.proper hrises)⟩

end Requests

end Whole

end SabaOS.Vfs
