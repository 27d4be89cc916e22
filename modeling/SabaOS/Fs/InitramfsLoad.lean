import SabaOS.Fs.InitramfsTree

namespace SabaOS.Initramfs

open SabaOS.Fs SabaOS.Klib SabaOS.Lib SabaOS.Vfs

section Mirrored

variable {s s' t : State} {img img' : Image} {place : Nat → Nat} {path p q : List Name} {n : Name}
variable {d e i v fuel : Nat} {node : Node} {bytes : List UInt8} {nodeType : NodeType}
variable {mode : Option Nat} {frame : Walk → List UInt8} {follow : Bool} {path' : Path}

structure Shows (v : VNode) (node : Node) : Prop where
  nodeType : v.nodeType = node.nodeType
  contents : v.contents = node.contents
  mode : v.mode = node.mode
  uid : v.uid = some 0
  gid : v.gid = some 0

structure Mirrors (s : State) (img : Image) (place : Nat → Nat) : Prop where
  whole : Whole s fun _ => none
  injective : ∀ i < img.nodes.length, ∀ j < img.nodes.length, place i = place j → i = j
  made : ∀ i < img.nodes.length, place i < s.numVNodes
  files : ∀ path, Plain path → vnodeAt s path = (img.files path).map place
  nodes : ∀ i node, img.nodes[i]? = some node → Shows (s.vnode (place i)) node

structure Vacant (s : State) (path : List Name) (e : Nat) : Prop where
  found : FoundAt s e
  negative : (s.entry e).vnode = none
  plain : Plain path
  place : ∃ p n d, path = p ++ [n] ∧ (s.entry e).parent = some d ∧ (s.entry e).name = n ∧
    entryAt s p = some d

theorem entryAt_vnode (h : Proper s) (he : entryAt s path = some e) :
    ∃ v, (s.entry e).vnode = some v := by
  rcases List.eq_nil_or_concat' path with rfl | ⟨p,n,rfl⟩
  · obtain ⟨v,hv,-⟩ := h.root_vnode
    exact ⟨v,Option.some.inj he ▸ hv⟩
  · obtain ⟨d,v,-,hlive⟩ := entryAt_of_concat he
    exact ⟨v,(live_mem hlive).2⟩

theorem vnodeAt_links (h : Neat s) (h' : Neat s') (hl : s.Links e v s') (hvac : Vacant s path e)
    (hnew : entryAt s path = none) (hq : Plain q) :
    vnodeAt s' q = if q = path then some v else vnodeAt s q := by
  obtain ⟨p,n,d,rfl,hpar,hname,hd⟩ := hvac.place
  simp only [vnodeAt,entryAt_links h h' hl hvac.negative hpar hname hvac.plain hd hnew hq]
  split_ifs
  · exact vnode_of_naming hl.naming
  · cases hx : entryAt s q with
    | none => rfl
    | some x =>
      obtain ⟨u,hu⟩ := entryAt_vnode h.proper hx
      have hne : x ≠ e := by
        rintro rfl
        rw [hvac.negative] at hu
        cases hu
      exact (hl.alters.keeps x (h.proper.tree.lt_of_vnode hu) hne).vnode

theorem pathToEntry_le {start : Option Nat} {fuel' : Nat} {r : Nat × State}
    (h : s.pathToEntry frame fuel path' start follow = some r) (hle : fuel ≤ fuel') :
    s.pathToEntry frame fuel' path' start follow = some r := by
  simp only [State.pathToEntry] at h ⊢
  cases henter : s.enter path' start with
  | again w =>
    rw [henter] at h
    exact run_le h hle
  | stop r' =>
    rw [henter] at h
    exact h
  | stuck =>
    rw [henter] at h
    cases h

theorem create_some (nodeType : NodeType) (uid gid mode : Option Nat)
    (hpar : (s.entry e).parent = some d) : ∃ s', s.create e nodeType uid gid mode = some s' := by
  rw [State.create,hpar]
  exact ⟨_,rfl⟩

theorem Spells.plain {text : List UInt8} (h : Spells path text) : Plain path := by
  rcases h with hjoin | ⟨rest,-,hjoin⟩
  · exact hjoin.plain
  · exact hjoin.plain

theorem Spells.ne_nil {text : List UInt8} (h : Spells path text) : path ≠ [] := by
  rcases h with hjoin | ⟨rest,-,hjoin⟩
  · exact hjoin.path_ne_nil
  · exact hjoin.path_ne_nil

theorem Joined.first {text : List UInt8} (h : Joined path text) :
    ∃ n, FileName n ∧ text.takeWhile (· ≠ slash) = n := by
  have hname : ∀ {n r : List UInt8}, FileName n →
      (n ++ slash :: r).takeWhile (· ≠ slash) = n := by
    intro n r hn
    have hall : ∀ c ∈ n, decide (c ≠ slash) = true := fun c hc =>
      decide_eq_true (ne_of_mem_of_not_mem hc hn.clean.1)
    rw [List.takeWhile_append_of_pos hall]
    simp
  cases h with
  | last hn =>
    refine ⟨_,hn,List.takeWhile_eq_self_iff.mpr fun c hc => ?_⟩
    exact decide_eq_true (ne_of_mem_of_not_mem hc hn.clean.1)
  | slashed hn => exact ⟨_,hn,hname hn⟩
  | cons hn _ => exact ⟨_,hn,hname hn⟩

theorem Describes.name_ne_root {hdr : USTARHeader} {m : Member} {length : Nat}
    (h : Describes hdr m length) : cstr (readPath hdr.name hdr.leading) ≠ dot ++ [slash] := by
  rw [cstr_readPath]
  intro heq
  have hname := h.name
  rw [heq] at hname
  rcases hname with hjoin | ⟨rest,hrest,hjoin⟩
  · obtain ⟨n,hn,hfirst⟩ := hjoin.first
    exact hn.notDots (.inl hfirst.symm)
  · cases rest with
    | nil => exact hjoin.ne_nil rfl
    | cons c rest => cases hrest

namespace Mirrors

variable (h : Mirrors s img place)

include h

theorem file (hpath : Plain path) (hi : img.files path = some i) :
    ∃ e, entryAt s path = some e ∧ (s.entry e).vnode = some (place i) := by
  have hat : vnodeAt s path = some (place i) := by rw [h.files path hpath,hi,Option.map_some]
  exact Option.bind_eq_some_iff.mp hat

theorem absent (hpath : Plain path) (hnone : img.files path = none) : entryAt s path = none := by
  have hat : vnodeAt s path = none := by rw [h.files path hpath,hnone,Option.map_none]
  cases he : entryAt s path with
  | none => rfl
  | some e =>
    obtain ⟨v,hv⟩ := entryAt_vnode h.whole.proper he
    simp [vnodeAt,he,hv] at hat

theorem directory (hpath : Plain path) (hdir : img.IsDir path) :
    ∃ y, entryAt s path = some y ∧ s.IsDir y := by
  obtain ⟨node,hnode,htype⟩ := hdir
  obtain ⟨i,hi,hget⟩ := Image.node_some hnode
  obtain ⟨y,hy,hv⟩ := h.file hpath hi
  exact ⟨y,hy,place i,hv,(h.nodes i node hget).nodeType.trans htype⟩

theorem through (hg : img.Good) (hpath : Plain path) (hdir : img.IsDir path.dropLast) :
    ∀ r, r ≠ path → r <+: path → ∃ y, entryAt s r = some y ∧ s.IsDir y := by
  intro r hne hpre
  exact h.directory (fun n hn => hpath n (hpre.subset hn)) (hg.through hdir hne hpre)

theorem located (hr : s.pathToEntry frame fuel path' (some root) follow = some (e,t)) :
    Mirrors t img place ∧ FoundAt t e := by
  obtain ⟨d,hd,-⟩ := h.whole.proper.root_vnode
  have hstart : ∀ x, some root = some x → x < s.numEntries := by
    rintro x ⟨⟩
    exact h.whole.proper.tree.lt_of_vnode hd
  obtain ⟨hwhole,honward,hvnodes,-,-,hfound⟩ := h.whole.located hstart hr
  have hagree : Agree s t := (h.whole.proper.tree.pathToEntry hr).2
  refine ⟨⟨hwhole,h.injective,fun i hi => ?_,fun path hpath => ?_,fun i node hi => ?_⟩,hfound⟩
  · exact Nat.lt_of_lt_of_le (h.made i hi) honward.grows.vnodes
  · exact (vnodeAt_agree hagree).trans (h.files path hpath)
  · exact hagree.vnode ▸ h.nodes i node hi

variable (frame) (follow)

theorem vacant (hg : img.Good) (hspell : Spells path (cstr path')) (hnew : img.files path = none)
    (hdir : img.IsDir path.dropLast) : ∃ fuel e t,
      s.pathToEntry frame fuel path' (some root) follow = some (e,t) ∧ Mirrors t img place ∧
        Vacant t path e := by
  have hplain : Plain path := hspell.plain
  obtain ⟨p,n,d,fuel,e,t,hpath,-,hd,hr,hneg,hpar,hname⟩ := pathToEntry_new frame follow h.whole.neat
    h.whole.furnished hspell (h.through hg hplain hdir) (h.absent hplain hnew)
  obtain ⟨hmirrors,hfound⟩ := h.located hr
  have hagree : Agree s t := (h.whole.proper.tree.pathToEntry hr).2
  exact ⟨fuel,e,t,hr,hmirrors,hfound,hneg,hplain,p,n,d,hpath,hpar,hname,
    (entryAt_agree hagree).trans hd⟩

theorem resolves (hg : img.Good) (hspell : Spells path (cstr path'))
    (hi : img.files path = some i) (hlink : follow = true → ∀ node, img.nodes[i]? = some node →
      node.nodeType ≠ .symlink) : ∃ e fuel,
        s.pathToEntry frame fuel path' (some root) follow = some (e,s) ∧
          (s.entry e).vnode = some (place i) := by
  obtain ⟨e,he,hv⟩ := h.file hspell.plain hi
  have hfollowed : ¬(follow = true ∧ (s.vnode (place i)).nodeType = .symlink) := by
    rintro ⟨hfollow,htype⟩
    obtain ⟨x,hget⟩ : ∃ x, img.nodes[i]? = some x :=
      ⟨_,List.getElem?_eq_getElem (hg.bound path i hi)⟩
    exact hlink hfollow x hget ((h.nodes i x hget).nodeType.symm.trans htype)
  obtain ⟨fuel,hr⟩ := pathToEntry_old frame follow h.whole.neat h.whole.furnished hspell
    (h.through hg hspell.plain (hg.dropLast hspell.ne_nil hi)) he hv hfollowed
  exact ⟨e,fuel,hr,hv⟩

variable {frame} {follow}

section Made

variable (hvac : Vacant s path e) (hnew : img.files path = none)

include hvac hnew

theorem grow (hg : img.Good) (hne : nodeType ≠ .hardLink)
    (hs : s.create e nodeType (some 0) (some 0) mode = some s') :
    Mirrors s' (img.grow path ⟨nodeType,[],if nodeType = .symlink then 0o777 else mode.getD 0⟩)
        (Function.update place img.nodes.length s.numVNodes) ∧
      (s'.entry e).vnode = some s.numVNodes := by
  obtain ⟨p,n,d,hpath,hpar,-⟩ := hvac.place
  have hpar' : (s.entry e).parent ≠ none := by simp [hpar]
  obtain ⟨hwhole,-,hlinks,hv⟩ := h.whole.created hvac.found hvac.negative hpar' hne hs
  have hvnode : s'.vnode = Function.update s.vnode s.numVNodes
      (VNode.made nodeType (some 0) (some 0) mode) := create_vnode hvac.negative hne hs
  have habsent : entryAt s path = none := h.absent hvac.plain hnew
  have hold : ∀ j < img.nodes.length,
      Function.update place img.nodes.length s.numVNodes j = place j := by
    intro j hj
    exact Function.update_of_ne (Nat.ne_of_lt hj) _ _
  have hlt : ∀ j < img.nodes.length, place j ≠ s.numVNodes := fun j hj =>
    Nat.ne_of_lt (h.made j hj)
  have hcases : ∀ j, j < (img.nodes ++ [(⟨nodeType,[],if nodeType = .symlink then 0o777
      else mode.getD 0⟩ : Node)]).length → j < img.nodes.length ∨ j = img.nodes.length := by
    intro j hj
    rw [List.length_append,List.length_singleton] at hj
    omega
  refine ⟨⟨hwhole,fun i hi j hj heq => ?_,fun i hi => ?_,fun q hq => ?_,fun i node hi => ?_⟩,hv⟩
  · rcases hcases i hi with hi | rfl
    · rcases hcases j hj with hj | rfl
      · rw [hold i hi,hold j hj] at heq
        exact h.injective i hi j hj heq
      · rw [hold i hi,Function.update_self] at heq
        exact absurd heq (hlt i hi)
    · rcases hcases j hj with hj | rfl
      · rw [hold j hj,Function.update_self] at heq
        exact absurd heq.symm (hlt j hj)
      · rfl
  · rcases hcases i hi with hi | rfl
    · rw [hold i hi]
      exact Nat.lt_of_lt_of_le (h.made i hi) hlinks.alters.grows.vnodes
    · rw [Function.update_self]
      exact hwhole.proper.vnode_lt e _ hv
  · rw [vnodeAt_links h.whole.neat hwhole.neat hlinks hvac habsent hq]
    by_cases heq : q = path
    · simp [Image.grow,Image.setFile,heq]
    · rw [if_neg heq,h.files q hq]
      simp only [Image.grow,Image.setFile,ne_eq,heq,not_false_eq_true,Function.update_of_ne]
      cases hf : img.files q with
      | none => rfl
      | some i => simp [hold i (hg.bound q i hf)]
  · rcases hcases i (List.getElem?_eq_some_iff.mp hi).1 with hi' | rfl
    · rw [hold i hi',hvnode,Function.update_of_ne (hlt i hi')]
      refine h.nodes i node ?_
      rwa [Image.grow,List.getElem?_append_left hi'] at hi
    · rw [Function.update_self,hvnode,Function.update_self]
      rw [Image.grow,List.getElem?_concat_length,Option.some.injEq] at hi
      subst hi
      exact ⟨rfl,rfl,rfl,rfl,rfl⟩

theorem setFile (hi : i < img.nodes.length)
    (hs : (s.setVnode e (some (place i))).create e .hardLink none none none = some s') :
    Mirrors s' (img.setFile path i) place := by
  obtain ⟨p,n,d,hpath,hpar,hname,hd⟩ := hvac.place
  have hfile : ¬s.IsDir e := not_isDir hvac.negative
  have hnull : e ≠ nullEntry := h.whole.ne_null_of_parent (by simp [hpar])
  obtain ⟨parent,hparent,hmem⟩ := h.whole.found_linked hvac.found
    (h.whole.ne_root_of_negative hvac.negative) hnull
  obtain ⟨hwhole,hlinks⟩ := h.whole.linked hparent (.inl hmem) (h.whole.neat.notDots hfile) hfile
    (naming_none hvac.negative) (h.made i hi) hs
  have hvnode := link_vnode hs
  refine ⟨hwhole,h.injective,fun j hj => ?_,fun q hq => ?_,fun j node hj => ?_⟩
  · exact Nat.lt_of_lt_of_le (h.made j hj) hlinks.alters.grows.vnodes
  · rw [vnodeAt_links h.whole.neat hwhole.neat hlinks hvac (h.absent hvac.plain hnew) hq]
    by_cases heq : q = path
    · simp [Image.setFile,heq]
    · rw [if_neg heq,h.files q hq]
      simp [Image.setFile,heq]
  · have hshows : Shows (s.vnode (place j)) node := h.nodes j node hj
    rw [hvnode]
    rcases eq_or_ne (place j) (place i) with heq | hne
    · rw [heq,Function.update_self]
      rw [heq] at hshows
      exact ⟨hshows.nodeType,hshows.contents,hshows.mode,hshows.uid,hshows.gid⟩
    · rw [Function.update_of_ne hne]
      exact hshows

end Made

variable (bytes) in
theorem write (hi : img.nodes[i]? = some node) (hv : (s.entry e).vnode = some (place i))
    (hempty : node.contents = []) (hdir : node.nodeType ≠ .directory)
    (htext : node.nodeType = .symlink → 0 ∉ bytes) : ∃ s', writeEntry s e bytes = some s' ∧
      Mirrors s' { img with nodes := img.nodes.set i { node with contents := bytes } } place := by
  have hshows : Shows (s.vnode (place i)) node := h.nodes i node hi
  have hlt : i < img.nodes.length := (List.getElem?_eq_some_iff.mp hi).1
  refine ⟨s.setVNode (place i) fun x => { x with contents := bytes },?_,?_⟩
  · rw [writeEntry,hv]
    simp [State.setVNode,hshows.nodeType,hdir,hshows.contents,hempty]
  · have hsame : ∀ x, ((s.setVNode (place i) fun x => { x with contents := bytes }).vnode x).refCount =
        (s.vnode x).refCount := by
      intro x
      rw [State.setVNode]
      rcases eq_or_ne x (place i) with rfl | hx
      · simp
      · simp [hx]
    obtain ⟨hwhole,-⟩ := h.whole.setVNode (v := place i)
      (g := fun x => { x with contents := bytes }) rfl
      (fun htype => htext (hshows.nodeType.symm.trans htype))
      (h.whole.counted.same (fun _ => rfl) hsame) h.whole.opened_lt
    refine ⟨hwhole,?_,?_,h.files,fun j x hj => ?_⟩
    · simpa using h.injective
    · intro j hj
      exact h.made j (by simpa using hj)
    · have hvnode : (s.setVNode (place i) fun x => { x with contents := bytes }).vnode =
          Function.update s.vnode (place i) { s.vnode (place i) with contents := bytes } := rfl
      rw [hvnode]
      rcases eq_or_ne j i with rfl | hne
      · rw [List.getElem?_set_self hlt,Option.some.injEq] at hj
        subst hj
        rw [Function.update_self]
        exact ⟨hshows.nodeType,rfl,hshows.mode,hshows.uid,hshows.gid⟩
      · rw [List.getElem?_set_ne hne.symm] at hj
        have hj' : j < img.nodes.length := (List.getElem?_eq_some_iff.mp hj).1
        rw [Function.update_of_ne fun heq => hne (h.injective j hj' i hlt heq)]
        exact h.nodes j x hj

section Kinds

variable (nodeType) (mode)
variable (hvac : Vacant s path e) (hnew : img.files path = none) (hg : img.Good)
  (hne : nodeType ≠ .hardLink)

include hvac hnew hg hne

theorem makes : ∃ s' place', s.create e nodeType (some 0) (some 0) mode = some s' ∧
    Mirrors s' (img.grow path ⟨nodeType,[],if nodeType = .symlink then 0o777 else mode.getD 0⟩)
      place' ∧ (s'.entry e).vnode = some (place' img.nodes.length) := by
  obtain ⟨-,-,d,-,hpar,-⟩ := hvac.place
  obtain ⟨s',hs⟩ := create_some nodeType (some 0) (some 0) mode hpar
  obtain ⟨hmirrors,hv⟩ := h.grow hvac hnew hg hne hs
  exact ⟨s',_,hs,hmirrors,by rw [hv,Function.update_self]⟩

theorem makes_written (bytes : List UInt8) (hdir : nodeType ≠ .directory)
    (htext : nodeType = .symlink → 0 ∉ bytes) :
    ∃ t s' place', s.create e nodeType (some 0) (some 0) mode = some t ∧
      writeEntry t e bytes = some s' ∧ Mirrors s'
        (img.grow path ⟨nodeType,bytes,if nodeType = .symlink then 0o777 else mode.getD 0⟩)
          place' := by
  obtain ⟨t,place',hs,hmirrors,hv⟩ := h.makes nodeType mode hvac hnew hg hne
  have hget : (img.grow path ⟨nodeType,[],if nodeType = .symlink then 0o777
      else mode.getD 0⟩).nodes[img.nodes.length]? = some ⟨nodeType,[],if nodeType = .symlink
        then 0o777 else mode.getD 0⟩ := by
    simp [Image.grow]
  obtain ⟨s',hw,hwritten⟩ := hmirrors.write bytes hget hv rfl hdir htext
  rw [Image.grow_set] at hwritten
  exact ⟨t,s',place',hs,hw,hwritten⟩

end Kinds

section Filled

variable (env : Env) {mem : Bytes} {current length : Nat} {hdr : USTARHeader} {m : Member}
variable (hg : img.Good)

include hg

theorem fill_hardLink (hvac : Vacant s path e) (hnew : img.files path = none)
    {target : List Name} (hflag : hdr.typeflag = '1'.toUInt8)
    (hspell : Spells target (fullName hdr.linkname hdr.leading)) (hi : img.files target = some i)
    (hget : img.nodes[i]? = some node) (hns : node.nodeType ≠ .symlink) :
    ∃ s', Mirrors s' (img.setFile path i) place ∧
      ∃ n, ∀ fuel, n ≤ fuel → fill env fuel root mem current hdr s e = some s' := by
  obtain ⟨-,-,d,-,hpar,-⟩ := hvac.place
  rw [← cstr_readPath] at hspell
  obtain ⟨o,fuel,hr,hv⟩ := h.resolves env.frame true hg hspell hi
    fun _ x hx => Option.some.inj (hget.symm.trans hx) ▸ hns
  have hpar' : ((s.setVnode e (some (place i))).entry e).parent = some d :=
    (setEntry_same (g := Entry.parent) rfl).trans hpar
  obtain ⟨s',hs⟩ := create_some .hardLink none none none hpar'
  refine ⟨s',h.setFile hvac hnew (hg.bound target i hi) hs,fuel,fun fuel' hle => ?_⟩
  simp only [Initramfs.fill,hflag]
  rw [if_neg (by decide),if_pos trivial]
  simp [pathToEntry_le hr hle,hv,hs]

section Own

variable (hdesc : Describes hdr m length) (hmode : hdr.mode.length = 8)
  (hsize : hdr.size.length = 12)
  (hcontents : ∀ contents, m.kind = .regular contents → copyOut mem (current + 512) length = contents)

include hdesc hmode hsize hcontents

theorem fill_own (hvac : Vacant s m.path e) (hnew : img.files m.path = none)
    (hnode : m.node = some node) : ∃ s' place', Mirrors s' (img.grow m.path node) place' ∧
      ∀ fuel, fill env fuel root mem current hdr s e = some s' := by
  have hmodeOf : modeOf (octalToBin hdr.mode) = some m.mode := modeOf_octal hdesc.mode hmode
  have hlength : (octalToBin hdr.size).toNat = length := (octalToBin_octal hdesc.size (by omega)).1
  have hmade : ∀ nodeType, nodeType ≠ .hardLink → nodeType ≠ .symlink → node = ⟨nodeType,[],m.mode⟩ →
      (∀ fuel, fill env fuel root mem current hdr s e =
        s.create e nodeType (some 0) (some 0) (some m.mode)) →
      ∃ s' place', Mirrors s' (img.grow m.path node) place' ∧
        ∀ fuel, fill env fuel root mem current hdr s e = some s' := by
    intro nodeType hne hlink heq hfill
    obtain ⟨s',place',hs,hmirrors,-⟩ := h.makes nodeType (some m.mode) hvac hnew hg hne
    rw [if_neg hlink,Option.getD_some,← heq] at hmirrors
    exact ⟨s',place',hmirrors,fun fuel => (hfill fuel).trans hs⟩
  have hkind' := hdesc.kind
  cases hkind : m.kind with
  | hardLink target => simp [Member.node,hkind] at hnode
  | regular contents =>
    simp only [hkind] at hkind'
    simp only [Member.node,hkind,Option.some.injEq] at hnode
    obtain ⟨t,s',place',hs,hw,hmirrors⟩ := h.makes_written .regular (some m.mode) hvac hnew hg
      (by decide) contents (by decide) (fun heq => by cases heq)
    refine ⟨s',place',hnode ▸ hmirrors,fun fuel => ?_⟩
    simp only [Initramfs.fill]
    rw [if_pos hkind'.1,hmodeOf,hlength,hcontents contents hkind]
    simp [hs,hw]
  | symlink text =>
    simp only [hkind] at hkind'
    simp only [Member.node,hkind,Option.some.injEq] at hnode
    obtain ⟨htype,hbare,heq⟩ := hkind'
    have htext : 0 ∉ text := heq ▸ zero_notMem_cstr
    obtain ⟨t,s',place',hs,hw,hmirrors⟩ := h.makes_written .symlink (some 0o777) hvac hnew hg
      (by decide) text (by decide) (fun _ => htext)
    refine ⟨s',place',hnode ▸ hmirrors,fun fuel => ?_⟩
    simp only [Initramfs.fill,htype]
    rw [if_neg (by decide),if_neg (by decide),if_pos trivial,cstr_readPath,fullName_bare hbare,← heq]
    simp [hs,hw]
  | charDevice =>
    simp only [hkind] at hkind'
    simp only [Member.node,hkind,Option.some.injEq] at hnode
    refine hmade .charDevice (by decide) (by decide) hnode.symm fun fuel => ?_
    simp only [Initramfs.fill,hkind']
    rw [if_neg (by decide),if_neg (by decide),if_neg (by decide),if_pos trivial,
      createDevice_eq env hvac.negative (by decide),hmodeOf]
  | blockDevice =>
    simp only [hkind] at hkind'
    simp only [Member.node,hkind,Option.some.injEq] at hnode
    refine hmade .blockDevice (by decide) (by decide) hnode.symm fun fuel => ?_
    simp only [Initramfs.fill,hkind']
    rw [if_neg (by decide),if_neg (by decide),if_neg (by decide),if_neg (by decide),if_pos trivial,
      createDevice_eq env hvac.negative (by decide),hmodeOf]
  | directory =>
    simp only [hkind] at hkind'
    simp only [Member.node,hkind,Option.some.injEq] at hnode
    refine hmade .directory (by decide) (by decide) hnode.symm fun fuel => ?_
    simp only [Initramfs.fill,hkind']
    rw [if_neg (by decide),if_neg (by decide),if_neg (by decide),if_neg (by decide),
      if_neg (by decide),if_pos trivial,hmodeOf]

variable (hadd : img.add m = some img')

include hadd

theorem fill (hvac : Vacant s m.path e) : ∃ s' place', Mirrors s' img' place' ∧
    ∃ n, ∀ fuel, n ≤ fuel → fill env fuel root mem current hdr s e = some s' := by
  obtain ⟨hnew,-,⟨target,i,node,hkind,hi,hget,-,hns,rfl⟩ | ⟨node,hnode,rfl⟩⟩ := Image.add_cases hadd
  · have hlinked := hdesc.kind
    simp only [hkind] at hlinked
    obtain ⟨htype,hbare,hspell⟩ := hlinked
    rw [← fullName_bare hbare] at hspell
    obtain ⟨s',hmirrors,hfill⟩ := h.fill_hardLink env hg hvac hnew htype hspell hi hget hns
    exact ⟨s',place,hmirrors,hfill⟩
  · obtain ⟨s',place',hmirrors,hfill⟩ :=
      h.fill_own env hg hdesc hmode hsize hcontents hvac hnew hnode
    exact ⟨s',place',hmirrors,0,fun fuel _ => hfill fuel⟩

theorem placed : ∃ s' place', Mirrors s' img' place' ∧ ∃ n, ∀ fuel, n ≤ fuel →
    Initramfs.place env fuel root mem current hdr s = some s' := by
  obtain ⟨hnew,hdir,-⟩ := Image.add_cases hadd
  have hspell : Spells m.path (cstr (readPath hdr.name hdr.leading)) := cstr_readPath ▸ hdesc.name
  obtain ⟨fuel,e,t,hr,hmirrors,hvac⟩ := h.vacant env.frame true hg hspell hnew hdir
  obtain ⟨s',place',hdone,n,hfill⟩ := hmirrors.fill env hg hdesc hmode hsize hcontents hadd hvac
  refine ⟨s',place',hdone,max fuel n,fun fuel' hle => ?_⟩
  rw [Initramfs.place,if_neg hdesc.name_ne_root,
    pathToEntry_le hr (Nat.le_trans (Nat.le_max_left _ _) hle)]
  simp [hvac.negative,hfill fuel' (Nat.le_trans (Nat.le_max_right _ _) hle)]

end Own

end Filled

end Mirrors

end Mirrored

section Loaded

variable {env : Env} {mem : Bytes} {a b size fileEnd turns n : Nat} {members : List Member}
variable {s t : State} {img img' : Image} {place : Nat → Nat} {hdr : USTARHeader}

theorem Laid.le (h : Laid mem a members b) : a ≤ b := by
  induction h with
  | done => exact Nat.le_refl _
  | root _ _ _ _ ih => omega
  | member _ _ _ ih => omega

theorem Laid.members_nil (h : Laid mem a members a) : members = [] := by
  cases h with
  | done => rfl
  | root _ _ _ hrest =>
    have := hrest.le
    omega
  | member _ _ hrest =>
    have := hrest.le
    omega

def Loads (env : Env) (mem : Bytes) (fileEnd a : Nat) (s : State) (img : Image) : Prop :=
  ∃ s' place, Mirrors s' img place ∧ ∃ n, ∀ fuel turns, n ≤ fuel → n ≤ turns →
    loadFrom env fuel root mem fileEnd turns a s = some s'

theorem loads_on (hmagic : (readHeader mem a).magic.take 5 = ustar)
    (hsize : Octal (readHeader mem a).size size) (hlaid : Laid mem (a + 512 + blocks size) members b)
    (hend : b ≤ fileEnd) (hlt : fileEnd < 2 ^ 64) (h : Mirrors t img place)
    (hload : members.foldlM Image.add img = some img')
    (hplace : ∃ n, ∀ fuel, n ≤ fuel →
      Initramfs.place env fuel root mem a (readHeader mem a) s = some t)
    (hrest : a + 512 + blocks size < fileEnd → Loads env mem fileEnd (a + 512 + blocks size) t img') :
    Loads env mem fileEnd a s img' := by
  have hle : a + 512 + blocks size ≤ b := hlaid.le
  have hnext : following a (readHeader mem a) = a + 512 + blocks size :=
    following_eq hsize (copyOut_length _ _ _) (by omega)
  obtain ⟨n,hplace⟩ := hplace
  have hturn : ∀ fuel turns, n ≤ fuel → loadFrom env fuel root mem fileEnd (turns + 1) a s =
      if fileEnd ≤ a + 512 + blocks size then some t
      else loadFrom env fuel root mem fileEnd turns (a + 512 + blocks size) t := by
    intro fuel turns hfuel
    rw [loadFrom]
    simp [hmagic,hplace fuel hfuel,hnext]
  by_cases hover : fileEnd ≤ a + 512 + blocks size
  · obtain rfl : a + 512 + blocks size = b := Nat.le_antisymm hle (Nat.le_trans hend hover)
    rw [hlaid.members_nil,List.foldlM_nil] at hload
    cases hload
    refine ⟨t,place,h,n + 1,fun fuel turns hfuel hturns => ?_⟩
    obtain ⟨k,rfl⟩ : ∃ k, turns = k + 1 := ⟨turns - 1,by omega⟩
    rw [hturn fuel k (by omega),if_pos hover]
  · obtain ⟨s',place',hdone,m,hrun⟩ := hrest (Nat.lt_of_not_le hover)
    refine ⟨s',place',hdone,max n m + 1,fun fuel turns hfuel hturns => ?_⟩
    obtain ⟨k,rfl⟩ : ∃ k, turns = k + 1 := ⟨turns - 1,by omega⟩
    rw [hturn fuel k (by omega),if_neg hover]
    exact hrun fuel k (by omega) (by omega)

theorem Laid.loads (env : Env) (hlaid : Laid mem a members b) (hend : b ≤ fileEnd) (hlt : fileEnd < 2 ^ 64)
    (hstop : (readHeader mem b).magic.take 5 ≠ ustar ∨ b = fileEnd ∧ a < b)
    (h : Mirrors s img place) (hg : img.Good) (hload : members.foldlM Image.add img = some img') :
    Loads env mem fileEnd a s img' := by
  induction hlaid generalizing s img place with
  | @done a =>
    have hmagic : (readHeader mem a).magic.take 5 ≠ ustar :=
      hstop.resolve_right fun hover => Nat.lt_irrefl a hover.2
    rw [List.foldlM_nil] at hload
    cases hload
    refine ⟨s,place,h,1,fun fuel turns _ hturns => ?_⟩
    obtain ⟨k,rfl⟩ : ∃ k, turns = k + 1 := ⟨turns - 1,by omega⟩
    rw [loadFrom]
    exact if_pos hmagic
  | @root a b size members hmagic hname hsize hrest ih =>
    refine loads_on hmagic hsize hrest hend hlt h hload ⟨0,fun fuel _ => ?_⟩ fun hover => ?_
    · rw [Initramfs.place,if_pos (cstr_readPath.trans hname)]
    · exact ih hend (hstop.imp id fun (hb : b = fileEnd ∧ a < b) =>
      ⟨hb.1,Nat.lt_of_lt_of_eq hover hb.1.symm⟩) h hg hload
  | @member a b size m members hdesc hcontents hrest ih =>
    rw [List.foldlM_cons] at hload
    obtain ⟨img₁,hadd,hload⟩ := Option.bind_eq_some_iff.mp hload
    obtain ⟨t,place₁,hmirrors,hplace⟩ := h.placed env hg hdesc
      (copyOut_length _ _ _) (copyOut_length _ _ _) hcontents hadd
    refine loads_on hdesc.magic hdesc.size hrest hend hlt hmirrors hload hplace fun hover => ?_
    exact ih hend (hstop.imp id fun (hb : b = fileEnd ∧ a < b) =>
      ⟨hb.1,Nat.lt_of_lt_of_eq hover hb.1.symm⟩) hmirrors (hg.add hadd) hload

theorem Image.Good.load (h : Image.load members = some img) : img.Good := by
  rw [Image.load] at h
  have hrun : ∀ {members : List Member} {img₀ : Image}, img₀.Good →
      members.foldlM Image.add img₀ = some img → img.Good := by
    intro members
    induction members with
    | nil =>
      intro img₀ hg hload
      rw [List.foldlM_nil] at hload
      cases hload
      exact hg
    | cons m members ih =>
      intro img₀ hg hload
      rw [List.foldlM_cons] at hload
      obtain ⟨img₁,hadd,hload⟩ := Option.bind_eq_some_iff.mp hload
      exact ih (hg.add hadd) hload
  exact hrun .empty h

theorem Mirrors.boot : Mirrors boot Image.empty fun _ => 0 := by
  have hdots : ∀ c ∈ (Vfs.boot.entry root).children, (Vfs.boot.entry c).name = dot ∨
      (Vfs.boot.entry c).name = dotDot := by decide +kernel
  refine ⟨.boot fun _ => rfl,fun i hi j hj _ => ?_,fun _ _ => Nat.zero_lt_one,fun path hpath => ?_,
    fun i node hi => ?_⟩
  · simp only [Image.empty,List.length_singleton] at hi hj
    omega
  · cases path with
    | nil => rfl
    | cons n path =>
      have hn : ¬IsDots n := hpath n (by simp)
      have hnone : Vfs.boot.live root n = none := by
        have hfind : Vfs.boot.findChild root n = none :=
          findChild_none.mpr fun c hc heq => hn (heq ▸ hdots c hc)
        simp [State.live,hfind]
      simp [vnodeAt,entryAt,hnone,Image.empty]
  · cases i with
    | zero => exact Option.some.inj hi ▸ ⟨rfl,rfl,rfl,rfl,rfl⟩
    | succ i => cases hi

structure Installed (s : State) (img : Image) (place : Nat → Nat) : Prop where
  mirrors : Mirrors s img place
  found : ∀ path i path' frame, img.files path = some i → Spells path (cstr path') →
    s.Resolves frame path' (some root) false (place i)

def headerByte (name : List UInt8) (size typeflag : UInt8) (i : Nat) : UInt8 :=
  if i < 100 then name.getD i 0
  else if i = 100 then 54
  else if i = 101 ∨ i = 102 then 52
  else if i = 124 then size
  else if i = 156 then typeflag
  else if 257 ≤ i then ustar.getD (i - 257) 0
  else 0

def archive : Bytes := fun i =>
  if i < 512 then headerByte [100,slash] 48 53 i
  else if i < 1024 then headerByte [100,slash,102] 50 48 (i - 512)
  else if i = 1024 then 104
  else if i = 1025 then 105
  else 0

def archived : List Member :=
  [⟨[[100]],0o644,.directory⟩,⟨[[100],[102]],0o644,.regular [104,105]⟩]

theorem archive_laid : Laid archive 0 archived 1536 := by
  have hname : ∀ c : UInt8, c ≠ slash → c ≠ 0 → c ≠ 46 → FileName [c] := by
    intro c hslash hzero hdot
    refine ⟨⟨by simpa using hslash.symm,by simpa using hzero.symm⟩,by simp,?_⟩
    rintro (heq | heq)
    · exact hdot (List.singleton_inj.mp heq)
    · cases heq
  have hd : FileName [100] := hname 100 (by decide) (by decide) (by decide)
  have hf : FileName [102] := hname 102 (by decide) (by decide) (by decide)
  have hmode : ∀ a, (readHeader archive a).mode = [54,52,52,0,0,0,0,0] →
      Octal (readHeader archive a).mode 0o644 := fun a ha =>
    ⟨[6,4,4],by decide,rfl,.inr ⟨List.replicate 4 0,ha⟩⟩
  have hdirectory : Describes (readHeader archive 0) ⟨[[100]],0o644,.directory⟩ 0 := by
    refine ⟨by decide +kernel,.inl ?_,hmode 0 (by decide +kernel),?_,by decide +kernel⟩
    · rw [show fullName _ _ = [100] ++ [slash] by decide +kernel]
      exact .slashed hd
    · exact ⟨[0],by decide,rfl,.inr ⟨List.replicate 10 0,by decide +kernel⟩⟩
  have hfile : Describes (readHeader archive 512) ⟨[[100],[102]],0o644,.regular [104,105]⟩ 2 := by
    refine ⟨by decide +kernel,.inl ?_,hmode 512 (by decide +kernel),?_,by decide +kernel⟩
    · rw [show fullName _ _ = [100] ++ slash :: [102] by decide +kernel]
      exact .cons hd (.last hf)
    · exact ⟨[2],by decide,rfl,.inr ⟨List.replicate 10 0,by decide +kernel⟩⟩
  refine .member hdirectory (fun _ h => by cases h) (.member hfile ?_ .done)
  rintro contents ⟨⟩
  decide +kernel

end Loaded

end SabaOS.Initramfs
