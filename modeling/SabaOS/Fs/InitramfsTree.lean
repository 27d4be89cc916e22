import SabaOS.Fs.Initramfs

namespace SabaOS.Initramfs

open SabaOS.Fs SabaOS.Klib SabaOS.Lib SabaOS.Vfs

def entryAt (s : State) (path : List Name) : Option Nat :=
  path.foldlM (fun d n => (s.live d n).map Prod.fst) root

def vnodeAt (s : State) (path : List Name) : Option Nat :=
  (entryAt s path).bind fun e => (s.entry e).vnode

def Plain (path : List Name) : Prop := ∀ n ∈ path, ¬IsDots n

variable {s s' t : State} {c d e u v x y fuel : Nat} {n : Name} {p q path : List Name}
variable {text : List UInt8} {frame : Walk → List UInt8} {follow : Bool} {w : Walk}
variable {opened : Nat → Option Nat} {nodeType : NodeType} {uid gid mode : Option Nat}

theorem entryAt_concat : entryAt s (p ++ [n]) =
    (entryAt s p).bind fun d => (s.live d n).map Prod.fst := by
  simp [entryAt,List.foldlM_append]

theorem entryAt_of_concat (h : entryAt s (p ++ [n]) = some y) :
    ∃ d v, entryAt s p = some d ∧ s.live d n = some (y,v) := by
  rw [entryAt_concat] at h
  obtain ⟨d,hd,hy⟩ := Option.bind_eq_some_iff.mp h
  obtain ⟨⟨y',v⟩,hlive,rfl⟩ := Option.map_eq_some_iff.mp hy
  exact ⟨d,v,hd,hlive⟩

theorem entryAt_agree (h : Agree s s') : entryAt s' path = entryAt s path := by
  simp only [entryAt,h.live]

theorem vnodeAt_agree (h : Agree s s') : vnodeAt s' path = vnodeAt s path := by
  simp only [vnodeAt,entryAt_agree h,h.entry]

section Names

variable (h : Neat s)

include h

theorem live_iff (hn : ¬IsDots n) : s.live d n = some (c,v) ↔
    (s.entry c).parent = some d ∧ (s.entry c).name = n ∧ s.naming c = some v := by
  constructor
  · intro hlive
    obtain ⟨hfind,hv⟩ := live_mem hlive
    have hmem := List.mem_of_find?_eq_some hfind
    have hname : (s.entry c).name = n := by simpa using List.find?_some hfind
    have hpar := h.proper.linked d c hmem
    exact ⟨hpar,hname,(naming_linked hpar hmem (hname ▸ hn)).trans hv⟩
  · rintro ⟨hpar,hname,hnaming⟩
    have hmem : c ∈ (s.entry d).children := by
      by_contra hnot
      rw [naming_unlinked fun p hp => Option.some.inj (hpar.symm.trans hp) ▸ hnot] at hnaming
      cases hnaming
    have hfind : s.findChild d n = some c := by
      cases hfind : s.findChild d n with
      | none => exact absurd hname (findChild_none.mp hfind c hmem)
      | some c' =>
        have hname' : (s.entry c').name = n := by simpa using List.find?_some hfind
        rw [h.names d c' (List.mem_of_find?_eq_some hfind) c hmem (hname'.trans hname.symm)]
    simp [State.live,hfind,vnode_of_naming hnaming]

theorem live_links (h' : Neat s') (hl : s.Links e v s') (he : e < s.numEntries)
    (hnone : s.naming e = none) (hn : ¬IsDots n) : s'.live d n = some (c,u) ↔
      (c = e ∧ u = v ∧ (s.entry e).parent = some d ∧ (s.entry e).name = n) ∨
        s.live d n = some (c,u) := by
  rw [live_iff h' hn,live_iff h hn]
  rcases eq_or_ne c e with rfl | hc
  · rw [hl.naming,hnone,hl.alters.grows.parent c he,hl.alters.grows.name c he]
    simp only [true_and,reduceCtorEq,and_false,or_false,Option.some.injEq,eq_comm (a := v)]
    exact ⟨fun ⟨hp,hname,hu⟩ => ⟨hu,hp,hname⟩,fun ⟨hu,hp,hname⟩ => ⟨hp,hname,hu⟩⟩
  · rw [hl.alters.naming c hc]
    simp only [hc,false_and,false_or]
    have hold : s.naming c = some u → c < s.numEntries := fun hnaming =>
      h.proper.tree.lt_of_vnode (vnode_of_naming hnaming)
    constructor
    · rintro ⟨hp,hname,hnaming⟩
      have hlt := hold hnaming
      exact ⟨hl.alters.grows.parent c hlt ▸ hp,hl.alters.grows.name c hlt ▸ hname,hnaming⟩
    · rintro ⟨hp,hname,hnaming⟩
      have hlt := hold hnaming
      exact ⟨(hl.alters.grows.parent c hlt).trans hp,(hl.alters.grows.name c hlt).trans hname,hnaming⟩

theorem entryAt_injective (hp : Plain p) (hq : Plain q) (hx : entryAt s p = some x)
    (hy : entryAt s q = some x) : p = q := by
  have hroot : ∀ {r : List Name} {n : Name}, ¬IsDots n → entryAt s (r ++ [n]) ≠ some root := by
    intro r n hn hr
    obtain ⟨d,v,-,hlive⟩ := entryAt_of_concat hr
    have hpar := ((live_iff h hn).mp hlive).1
    rw [h.proper.root_parent] at hpar
    cases hpar
  induction p using List.reverseRecOn generalizing q x with
  | nil =>
    cases Option.some.inj hx
    rcases List.eq_nil_or_concat' q with rfl | ⟨r,n,rfl⟩
    · rfl
    · exact absurd hy (hroot (hq n (by simp)))
  | append_singleton p n ih =>
    have hn : ¬IsDots n := hp n (by simp)
    rcases List.eq_nil_or_concat' q with rfl | ⟨r,m,rfl⟩
    · cases Option.some.inj hy
      exact absurd hx (hroot hn)
    · obtain ⟨d,v,hd,hlive⟩ := entryAt_of_concat hx
      obtain ⟨d',v',hd',hlive'⟩ := entryAt_of_concat hy
      have hm : ¬IsDots m := hq m (by simp)
      obtain ⟨hpar,hname,-⟩ := (live_iff h hn).mp hlive
      obtain ⟨hpar',hname',-⟩ := (live_iff h hm).mp hlive'
      have hdd : d = d' := Option.some.inj (hpar.symm.trans hpar')
      rw [ih (fun k hk => hp k (by simp [hk])) (fun k hk => hq k (by simp [hk])) hd (hdd ▸ hd'),
        hname.symm.trans hname']

theorem entryAt_links (h' : Neat s') (hl : s.Links e v s') (hneg : (s.entry e).vnode = none)
    (hpar : (s.entry e).parent = some d) (hname : (s.entry e).name = n) (hpn : Plain (p ++ [n]))
    (hd : entryAt s p = some d) (hnew : entryAt s (p ++ [n]) = none) (hq : Plain q) :
    entryAt s' q = if q = p ++ [n] then some e else entryAt s q := by
  have he : e < s.numEntries := h.proper.tree.lt_of_parent hpar
  have hbare : ∀ {m : Name}, s.live e m = none := by
    intro m
    simp [State.live,State.findChild,(h.bare (not_isDir hneg)).1]
  have hp : Plain p := fun k hk => hpn k (by simp [hk])
  induction q using List.reverseRecOn with
  | nil => rw [if_neg (by simp)]; rfl
  | append_singleton q m ih =>
    have hm : ¬IsDots m := hq m (by simp)
    have hq' : Plain q := fun k hk => hq k (by simp [hk])
    have hlive : ∀ {x : Nat}, s'.live x m =
        if x = d ∧ m = n then some (e,v) else s.live x m := by
      intro x
      have hiff : ∀ c u, s'.live x m = some (c,u) ↔ _ := fun c u =>
        live_links h h' hl he (naming_none hneg) hm
      split_ifs with hx
      · exact (hiff e v).mpr (.inl ⟨rfl,rfl,hx.1 ▸ hpar,hx.2 ▸ hname⟩)
      · have hold : ∀ r : Nat × Nat, s'.live x m = some r ↔ s.live x m = some r := by
          rintro ⟨c,u⟩
          refine (hiff c u).trans (or_iff_right ?_)
          rintro ⟨-,-,hx',hm'⟩
          exact hx ⟨Option.some.inj (hx'.symm.trans hpar),hm'.symm.trans hname⟩
        exact Option.ext hold
    rw [entryAt_concat,ih hq']
    by_cases hqp : q = p ++ [n]
    · have hne : ¬(e = d ∧ m = n) := by
        rintro ⟨rfl,-⟩
        exact (h.bare (not_isDir hneg)).2 hpar
      rw [if_pos hqp,if_neg (by rw [hqp]; simp),entryAt_concat,hqp,hnew]
      simp [hlive,hne,hbare]
    · rw [if_neg hqp,entryAt_concat]
      cases hx : entryAt s q with
      | none =>
        rw [if_neg]
        · rfl
        · intro heq
          rw [(List.append_inj' heq rfl).1,hd] at hx
          cases hx
      | some x =>
        have hsame : q ++ [m] = p ++ [n] ↔ x = d ∧ m = n := by
          constructor
          · intro heq
            obtain ⟨rfl,hmn⟩ := List.append_inj' heq rfl
            exact ⟨Option.some.inj (hx.symm.trans hd),List.singleton_inj.mp hmn⟩
          · rintro ⟨rfl,rfl⟩
            rw [entryAt_injective h hq' hp hx hd]
        simp only [Option.bind_some,hlive,hsame]
        split_ifs
        · rfl
        · rfl

end Names

section Walk

theorem Joined.ne_nil (h : Joined path text) : text ≠ [] := by
  cases h with
  | last hn => exact hn.ne_nil
  | slashed hn => simp
  | cons hn _ => simp

theorem Joined.path_ne_nil (h : Joined path text) : path ≠ [] := by
  cases h with
  | last hn => simp
  | slashed hn => simp
  | cons hn _ => simp

theorem Joined.plain (h : Joined path text) : Plain path := by
  induction h with
  | last hn => simpa [Plain] using hn.notDots
  | slashed hn => simpa [Plain] using hn.notDots
  | cons hn _ ih => simpa [Plain] using ⟨hn.notDots,ih⟩

theorem walkStep_name (hn : slash ∉ n) (hne : n ≠ []) (htext : text ≠ [])
    (hlive : s.live w.cur n = some (y,v)) (hcur : s.IsDir w.cur)
    (hdir : (s.vnode v).nodeType ≠ .symlink) (hw : Reads w (n ++ slash :: text) 0) :
    ∃ u, s.walkStep frame follow w = .again u ∧ u.cur = s.reduce y ∧ Reads u text 0 := by
  obtain ⟨c,hc,hcdir⟩ := hcur
  obtain ⟨hfind,hvnode⟩ := live_mem hlive
  have hcomp : w.component = .name n.length false := by
    rw [component_split hw hn,if_neg fun heq => htext heq.1,if_neg hne]
  refine ⟨⟨s.reduce y,_,_⟩,?_,rfl,reads_next hw⟩
  simp only [State.walkStep,hc,hcdir,hcomp,State.descend,cstr_take_split hw,hfind,hvnode]
  simp [hdir]

theorem walk (hp : Proper s) (hjoin : Joined path text) (hw : Reads w text 0)
    (hcur : entryAt s q = some w.cur)
    (hdirs : ∀ r, r ≠ path → r <+: path → ∃ y, entryAt s (q ++ r) = some y ∧ s.IsDir y) :
    ∃ p n u len, path = p ++ [n] ∧ Visits (s.walkStep frame follow) w u ∧
      entryAt s (q ++ p) = some u.cur ∧ s.IsDir u.cur ∧ u.component = .name len true ∧
      cstr (u.path.take len) = n ∧ FileName n := by
  induction hjoin generalizing w q with
  | @last n hn =>
    obtain ⟨y,hy,hdir⟩ := hdirs [] (by simp) (List.nil_prefix)
    rw [List.append_nil,hcur,Option.some.injEq] at hy
    exact ⟨[],n,w,_,rfl,.refl,by simpa using hcur,hy ▸ hdir,component_last hw hn.clean.1,
      cstr_take_pathLen hw,hn⟩
  | @slashed n hn =>
    obtain ⟨y,hy,hdir⟩ := hdirs [] (by simp) (List.nil_prefix)
    rw [List.append_nil,hcur,Option.some.injEq] at hy
    refine ⟨[],n,w,n.length,rfl,.refl,by simpa using hcur,hy ▸ hdir,?_,cstr_take_split hw,hn⟩
    rw [component_split hw hn.clean.1,if_pos ⟨rfl,rfl⟩]
  | @cons n path text hn hjoin ih =>
    obtain ⟨x,hx,hxdir⟩ := hdirs [] (by simp) (List.nil_prefix)
    rw [List.append_nil,hcur,Option.some.injEq] at hx
    obtain ⟨y,hy,hydir⟩ := hdirs [n] (by simpa using hjoin.path_ne_nil.symm) (by simp)
    obtain ⟨d,v,hd,hlive⟩ := entryAt_of_concat hy
    rw [hcur,Option.some.injEq] at hd
    obtain ⟨hfind,hv⟩ := live_mem hlive
    have hname : (s.entry y).name = n := by simpa using List.find?_some hfind
    have hlink : (s.vnode v).nodeType ≠ .symlink := by
      obtain ⟨v',hv',htype⟩ := hydir
      rw [Option.some.inj (hv.symm.trans hv'),htype]
      decide
    obtain ⟨u,hstep,hu,hreads⟩ : ∃ u, s.walkStep frame follow w = .again u ∧
        u.cur = s.reduce y ∧ Reads u text 0 :=
      walkStep_name hn.clean.1 hn.ne_nil hjoin.ne_nil (hd ▸ hlive) (hx ▸ hxdir) hlink hw
    rw [hp.reduce_self (hname ▸ hn.notDots)] at hu
    obtain ⟨p,m,u',len,rfl,hvisits,hrest⟩ := ih hreads (hu ▸ hy) fun r hr hpre => by
      obtain ⟨z,hz,hzdir⟩ := hdirs (n :: r) (by simpa using hr) (by simpa using hpre)
      exact ⟨z,by simpa using hz,hzdir⟩
    exact ⟨n :: p,m,u',len,rfl,hvisits.head hstep,by simpa using hrest⟩

theorem Joined.head (h : Joined path text) : ∃ c r, text = c :: r ∧ c ≠ slash := by
  have hname : ∀ {n : Name} (r : List UInt8), FileName n → ∃ c r', n ++ r = c :: r' ∧ c ≠ slash := by
    intro n r hn
    obtain ⟨c,l,rfl⟩ := List.exists_cons_of_ne_nil hn.ne_nil
    exact ⟨c,l ++ r,rfl,fun hc => hn.clean.1 (hc ▸ List.mem_cons_self)⟩
  cases h with
  | last hn => simpa using hname [] hn
  | slashed hn => exact hname _ hn
  | cons hn _ => exact hname _ hn

section Located

variable (h : Neat s) (hf : Furnished s)

include h hf

theorem live_dot : ∃ c v, s.live root dot = some (c,v) ∧ s.reduce c = root ∧
    (s.vnode v).nodeType = .directory := by
  obtain ⟨v,hv,hdir⟩ := h.proper.root_vnode
  obtain ⟨c,hc,hname⟩ := hf root ⟨v,hv,hdir⟩ h.proper.root_redirect dot (.inl rfl)
  have hpar := h.proper.linked root c hc
  obtain ⟨r,hr⟩ := Option.ne_none_iff_exists'.mp (h.dotted c (hname ▸ .inl rfl))
  obtain ⟨d,hd,hrd,hsame⟩ := h.aliases c r hr
  obtain rfl : root = d := Option.some.inj (hpar.symm.trans hd)
  obtain rfl : r = root := by
    refine hrd.resolve_right fun hp => ?_
    rw [h.proper.root_parent] at hp
    cases hp
  have hfind : s.findChild root dot = some c := by
    cases hfind : s.findChild root dot with
    | none => exact absurd hname (findChild_none.mp hfind c hc)
    | some c' =>
      have hname' : (s.entry c').name = dot := by simpa using List.find?_some hfind
      rw [h.names root c' (List.mem_of_find?_eq_some hfind) c hc (hname'.trans hname.symm)]
  refine ⟨c,v,by simp [State.live,hfind,hsame,hv],?_,hdir⟩
  obtain ⟨k,hk⟩ : ∃ k, s.numEntries = k + 1 := ⟨s.numEntries - 1,by have := h.proper.tree.null_lt; omega⟩
  rw [State.reduce,hk,State.reduceWithin,hr]
  exact reduceWithin_of_none h.proper.root_redirect

theorem begins (frame : Walk → List UInt8) (follow : Bool) {path' : Path}
    (hspell : Spells path (cstr path')) : ∃ w u text,
    s.enter path' (some root) = .again w ∧ Visits (s.walkStep frame follow) w u ∧
      u.cur = root ∧ Reads u text 0 ∧ Joined path text := by
  have henter : ∀ {c : UInt8} {r : List UInt8}, c ≠ slash → cstr path' = c :: r →
      s.enter path' (some root) = .again ⟨root,path',r.length + 1⟩ := by
    intro c r hc hr
    have hroot : s.reduce root = root := reduceWithin_of_none h.proper.root_redirect
    simp only [enter_relative hc hr,hroot]
  rcases hspell with hjoin | ⟨rest,hrest,hjoin⟩
  · obtain ⟨c,r,hr,hc⟩ := hjoin.head
    refine ⟨_,_,cstr path',henter hc hr,.refl,rfl,⟨rfl,?_⟩,hjoin⟩
    rw [hr]
    rfl
  · have hw : Reads ⟨root,path',(slash :: rest).length + 1⟩ (dot ++ slash :: rest) 0 := ⟨hrest,rfl⟩
    obtain ⟨c,v,hlive,hred,hdir⟩ := live_dot h hf
    have hlink : (s.vnode v).nodeType ≠ .symlink := by
      rw [hdir]
      decide
    have hdirRoot : s.IsDir root := h.proper.root_vnode
    obtain ⟨u,hstep,hu,hreads⟩ : ∃ u,
        s.walkStep frame follow ⟨root,path',(slash :: rest).length + 1⟩ = .again u ∧
          u.cur = s.reduce c ∧ Reads u rest 0 :=
      walkStep_name clean_dot.1 (by decide) hjoin.ne_nil hlive hdirRoot hlink hw
    exact ⟨_,u,rest,henter (by decide) hrest,.single hstep,hu.trans hred,hreads,hjoin⟩

variable (frame) (follow) {path' : Path} (hspell : Spells path (cstr path'))
  (hdirs : ∀ r, r ≠ path → r <+: path → ∃ y, entryAt s r = some y ∧ s.IsDir y)

include hspell hdirs

theorem arrives : ∃ p n w u len, path = p ++ [n] ∧ s.enter path' (some root) = .again w ∧
    Visits (s.walkStep frame follow) w u ∧ entryAt s p = some u.cur ∧ s.IsDir u.cur ∧
    u.component = .name len true ∧ cstr (u.path.take len) = n ∧ FileName n := by
  obtain ⟨w,u,text,henter,hvisits,hcur,hreads,hjoin⟩ :=
    begins h hf frame follow hspell
  obtain ⟨p,n,u',len,heq,hvisits',hp,hdir,hcomp,hname,hn⟩ :=
    walk h.proper (q := []) hjoin hreads (congrArg some hcur.symm) hdirs
  exact ⟨p,n,w,u',len,heq,henter,hvisits.trans hvisits',hp,hdir,hcomp,hname,hn⟩

theorem pathToEntry_new (hnew : entryAt s path = none) : ∃ p n d fuel e t, path = p ++ [n] ∧
    FileName n ∧ entryAt s p = some d ∧
    s.pathToEntry frame fuel path' (some root) follow = some (e,t) ∧ (t.entry e).vnode = none ∧
    (t.entry e).parent = some d ∧ (t.entry e).name = n := by
  obtain ⟨p,n,w,u,len,rfl,henter,hvisits,hp,⟨x,hx,hdir⟩,hcomp,rfl,hn⟩ :=
    arrives frame follow h hf hspell hdirs
  have hlive : s.live u.cur (cstr (u.path.take len)) = none := by
    rw [entryAt_concat,hp] at hnew
    simpa using hnew
  suffices hlast : ∃ e t, s.walkStep frame follow u = .stop (e,t) ∧ (t.entry e).vnode = none ∧
      (t.entry e).parent = some u.cur ∧ (t.entry e).name = cstr (u.path.take len) by
    obtain ⟨e,t,hstop,hrest⟩ := hlast
    obtain ⟨fuel,hfuel⟩ := pathToEntry_iff.mpr (show EndsFrom (s.walkStep frame follow)
      (s.enter path' (some root)) (e,t) by
        rw [henter]
        exact (ends_visits hvisits).mpr (.stop hstop))
    exact ⟨p,_,_,fuel,e,t,rfl,hn,hp,hfuel,hrest⟩
  simp only [State.walkStep,hx,hdir,hcomp,State.descend]
  cases hfind : s.findChild u.cur (cstr (u.path.take len)) with
  | none =>
    refine ⟨_,_,rfl,?_,?_,lookupNew_self_name⟩
    · exact lookupNew_vnode.trans (if_pos rfl)
    · exact (lookupNew_same (g := Entry.parent) (fun _ => rfl) fun _ => rfl).trans
        (congrArg Entry.parent (if_pos rfl))
  | some e =>
    have hv : (s.entry e).vnode = none := by simpa [State.live,hfind] using hlive
    simp only [hv]
    exact ⟨_,_,rfl,hv,h.proper.linked _ _ (List.mem_of_find?_eq_some hfind),
      by simpa using List.find?_some hfind⟩

theorem pathToEntry_old (he : entryAt s path = some e) (hv : (s.entry e).vnode = some v)
    (hlink : ¬(follow = true ∧ (s.vnode v).nodeType = .symlink)) :
    ∃ fuel, s.pathToEntry frame fuel path' (some root) follow = some (e,s) := by
  obtain ⟨p,n,w,u,len,rfl,henter,hvisits,hp,⟨x,hx,hdir⟩,hcomp,rfl,hn⟩ :=
    arrives frame follow h hf hspell hdirs
  obtain ⟨d,v',hd,hlive⟩ := entryAt_of_concat he
  obtain rfl : u.cur = d := Option.some.inj (hp.symm.trans hd)
  obtain ⟨hfind,hv'⟩ := live_mem hlive
  obtain rfl : v = v' := Option.some.inj (hv.symm.trans hv')
  have hstop : s.walkStep frame follow u = .stop (e,s) := by
    simp only [State.walkStep,hx,hdir,hcomp,State.descend,hfind,hv]
    simpa using fun hfollow htype => absurd ⟨hfollow,htype⟩ hlink
  refine pathToEntry_iff.mpr ?_
  rw [henter]
  exact (ends_visits hvisits).mpr (.stop hstop)

end Located

end Walk

section Effects

def VNode.made (nodeType : NodeType) (uid gid mode : Option Nat) : VNode :=
  ⟨nodeType,[],1,uid,gid,if nodeType = .symlink then 0o777 else mode.getD 0⟩

theorem furnish_vnodes (hv : (s.entry e).vnode = some v) {parent : Nat} :
    (s.furnish e parent nodeType uid gid mode).vnode = (s.own v nodeType uid gid mode).vnode := by
  simp only [State.furnish,hv]
  split_ifs
  · rfl
  · rfl

theorem create_vnode (hneg : (s.entry e).vnode = none) (hne : nodeType ≠ .hardLink)
    (hs : s.create e nodeType uid gid mode = some s') :
    s'.vnode = Function.update s.vnode s.numVNodes (VNode.made nodeType uid gid mode) := by
  rw [State.create] at hs
  cases hpar : (s.entry e).parent with
  | none => simp [hpar] at hs
  | some parent =>
    rw [hpar,Option.some.injEq,makeNode_new hneg hne] at hs
    have hv : (((s.newVNode e (.fresh nodeType)).attach parent e).entry e).vnode =
        some s.numVNodes := by
      rw [attach_vnode,State.newVNode,setEntry_entry,if_pos rfl]
    rw [← hs,furnish_vnodes hv,State.own,State.setVNode,attach_vnodes]
    simp [State.newVNode,State.setEntry,VNode.fresh,VNode.made]

theorem link_vnode (hs : (s.setVnode e (some v)).create e .hardLink none none none = some s') :
    s'.vnode = Function.update s.vnode v { s.vnode v with refCount := (s.vnode v).refCount + 1 } := by
  rw [State.create] at hs
  cases hpar : ((s.setVnode e (some v)).entry e).parent with
  | none => simp [hpar] at hs
  | some parent =>
    rw [hpar,Option.some.injEq,makeNode_link] at hs
    have hv : (((s.setVnode e (some v)).attach parent e).entry e).vnode = some v := by
      rw [attach_vnode,State.setVnode,setEntry_entry,if_pos rfl]
    rw [← hs,furnish_vnodes hv,State.own,State.setVNode,attach_vnodes]
    simp [State.setVnode,State.setEntry]

theorem createDevice_eq (env : Env) {devId : Nat} (hneg : (s.entry e).vnode = none)
    (hne : nodeType ≠ .hardLink) : createDevice env s e devId nodeType mode =
      s.create e nodeType (some 0) (some 0) mode := by
  rw [createDevice]
  split_ifs
  · have hpar : ((s.newVNode e (.fresh nodeType)).entry e).parent = (s.entry e).parent :=
      newVNode_same (g := Entry.parent) fun _ _ => rfl
    have hmake : (s.newVNode e (.fresh nodeType)).makeNode e nodeType = s.makeNode e nodeType := by
      rw [makeNode_new hneg hne,State.makeNode,if_neg hne,State.fsCreate,State.newVNode,
        setEntry_entry,if_pos rfl]
      simp [State.setVNode,State.setEntry,VNode.fresh]
    simp only [State.create,hpar,hmake]
  · rfl

end Effects

end SabaOS.Initramfs
