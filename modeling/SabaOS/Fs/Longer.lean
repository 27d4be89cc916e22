import SabaOS.Fs.Slashes

namespace SabaOS.Vfs

open SabaOS.Fs SabaOS.Lib

structure Longer (rest : List UInt8) (w w' : Walk) : Prop where
  cur : w'.cur = w.cur
  reads : ∃ str d d', Reads w str d ∧ Reads w' (str ++ slash :: rest) d'

variable {s : State} {frame : Walk → List UInt8} {follow : Bool} {w w' u l : Walk} {path path' : Path}
variable {start : Option Nat} {rest : List UInt8}

theorem enter_longer (h : s.enter path start = .again w)
    (hpath : cstr path' = cstr path ++ slash :: rest) :
    ∃ w', s.enter path' start = .again w' ∧ Longer rest w w' := by
  cases hstr : cstr path with
  | nil =>
    rw [enter_empty hstr] at h
    cases h
  | cons c r =>
    rw [hstr] at hpath
    by_cases hc : c = slash
    · subst hc
      rw [enter_slash hstr] at h
      split_ifs at h
      have henter : s.enter path' start =
          .again ⟨root,path'.drop 1,(r ++ slash :: rest).length⟩ := by
        have hlonger : s.enter path' start = _ := enter_slash hpath
        rwa [if_neg (by simp)] at hlonger
      cases h
      exact ⟨_,henter,rfl,r,0,0,reads_drop_one hstr,reads_drop_one hpath⟩
    · rw [enter_relative hc hstr] at h
      cases start with
      | none => cases h
      | some e =>
        cases h
        exact ⟨_,enter_relative hc hpath,rfl,c :: r,0,0,⟨hstr,rfl⟩,⟨hpath,rfl⟩⟩

theorem follow_longer {frame₁ frame₂ : List UInt8} {cur v : Nat}
    (htext : 0 ∉ (s.vnode v).contents) (h : s.follow frame₁ cur v path = .again w)
    (hpath : cstr path' = cstr path ++ slash :: rest) :
    s.follow frame₂ cur v path' = .stuck ∨
      ∃ w', s.follow frame₂ cur v path' = .again w' ∧ Longer rest w w' := by
  have henter := follow_again h
  have htake : 0 ∉ (s.vnode v).contents.take 128 := fun hmem => htext (List.mem_of_mem_take hmem)
  have hshort : ¬127 < ((s.vnode v).contents.take 128).length ∧
      ¬256 < ((s.vnode v).contents.take 128).length + strlen path + 1 := by
    simp only [State.follow,State.splice] at h
    split_ifs at h with hlong hover
    · cases h
    · cases h
    · exact ⟨hlong,hover⟩
  simp only [State.follow,State.splice,if_neg hshort.1]
  by_cases hover : 256 < ((s.vnode v).contents.take 128).length + strlen path' + 1
  · rw [if_pos hover]
    exact .inl rfl
  · have hnew := cstr_newPath frame₁ ((s.vnode v).contents.take 128)
      (show 0 ∉ cstr path from zero_notMem_cstr) (Nat.le_of_not_lt hshort.2)
    have hnew' := cstr_newPath frame₂ ((s.vnode v).contents.take 128)
      (show 0 ∉ cstr path' from zero_notMem_cstr) (Nat.le_of_not_lt hover)
    rw [if_neg htake] at hnew hnew'
    obtain ⟨w',hw',hlonger⟩ := enter_longer henter
      (by rw [hnew',hnew,hpath,List.append_assoc])
    rw [if_neg hover,hw']
    exact .inr ⟨w',rfl,hlonger⟩

section Component

variable (h : Longer rest w w') (hrest : rest ≠ []) (hsmooth : s.Smooth follow w)

include h hrest hsmooth

theorem longer_component :
    (w.component = .skip ∧ w'.component = .skip ∧
      Longer rest { w with path := w.path.drop 1 } { w' with path := w'.path.drop 1 }) ∨
    ∃ len len' last t, w.component = .name len last ∧ w'.component = .name len' false ∧
      cstr (w'.path.take len') = cstr (w.path.take len) ∧
      cstr (w'.path.drop len') = t ++ slash :: rest ∧
      (last = false ∨ w.pathLen = strlen w.path → cstr (w.path.drop len) = t) ∧
      (last = false → ∀ cur, Longer rest ⟨cur,w.path.drop (len + 1),w.pathLen - (len + 1)⟩
        ⟨cur,w'.path.drop (len' + 1),w'.pathLen - (len' + 1)⟩) := by
  obtain ⟨hcur,str,d,d',hr,hr'⟩ := h
  have htimely : ¬∀ c ∈ str, c = slash := fun hall => hsmooth.timely (late_of_reads hr hall)
  by_cases hhead : ∃ r, str = slash :: r
  · obtain ⟨r,rfl⟩ := hhead
    have hr0 : ¬(r = [] ∧ d = 0) := by
      rintro ⟨rfl,-⟩
      exact htimely (by simp)
    refine .inl ⟨?_,?_,hcur,r,d + 1,d' + 1,reads_skip hr,reads_skip hr'⟩
    · rw [component_split (n := []) hr (by simp),if_neg hr0,if_pos rfl]
    · rw [component_split (n := []) hr' (by simp),if_neg (by simp),if_pos rfl]
  · obtain ⟨n,t,hn0,hn,rfl,ht⟩ := exists_split (fun r hr => hhead ⟨r,hr⟩)
      (by rintro rfl; exact htimely (by simp))
    refine .inr ?_
    rcases ht with rfl | ⟨r,rfl⟩
    · rw [List.append_nil] at hr hr' htimely
      refine ⟨w.pathLen,n.length,true,[],component_last hr hn,?_,?_,?_,?_,?_⟩
      · rw [component_split hr' hn,if_neg (by simp [hrest]),if_neg hn0]
      · rw [cstr_take_split hr',cstr_take_pathLen hr]
      · exact cstr_drop_split hr'
      · rintro (hlast | hlen)
        · cases hlast
        · rw [hlen,cstr_drop (Nat.le_refl _),strlen,List.drop_length]
      · intro hlast
        cases hlast
    · rw [List.append_assoc,List.cons_append] at hr'
      have hcomp' : w'.component = .name n.length false := by
        rw [component_split hr' hn,if_neg (by simp),if_neg hn0]
      have htake : cstr (w'.path.take n.length) = cstr (w.path.take n.length) := by
        rw [cstr_take_split hr',cstr_take_split hr]
      have hdrop : cstr (w'.path.drop n.length) = (slash :: r) ++ slash :: rest :=
        cstr_drop_split hr'
      by_cases hr0 : r = [] ∧ d = 0
      · refine ⟨n.length,n.length,true,slash :: r,?_,hcomp',htake,hdrop,
          fun _ => cstr_drop_split hr,?_⟩
        · rw [component_split hr hn,if_pos hr0]
        · intro hlast
          cases hlast
      · refine ⟨n.length,n.length,false,slash :: r,?_,hcomp',htake,hdrop,
          fun _ => cstr_drop_split hr,fun _ cur => ?_⟩
        · rw [component_split hr hn,if_neg hr0,if_neg hn0]
        · exact ⟨rfl,r,d,d',reads_next hr,reads_next hr'⟩

end Component

section Look

variable (htext : ∀ v, (s.vnode v).nodeType = .symlink → 0 ∉ (s.vnode v).contents)
variable (h : Longer rest w w') (hrest : rest ≠ []) (hsmooth : s.Smooth true w)

include htext h hrest hsmooth

theorem longer_look (hlook : s.look frame true w = .again u) :
    s.look frame follow w' = .stuck ∨
      ∃ u', s.look frame follow w' = .again u' ∧ Longer rest u u' := by
  obtain ⟨x,hx,hdir,hcase⟩ := look_again hlook
  have hx' : (s.entry w'.cur).vnode = some x := h.cur ▸ hx
  rcases longer_component h hrest hsmooth with ⟨hskip,hskip',hnext⟩ |
    ⟨len,len',last,t,hcomp,hcomp',htake,hdrop,htail,hnext⟩
  · rcases hcase with ⟨-,rfl⟩ | ⟨_,_,_,_,hname,-⟩
    · exact .inr ⟨_,by simp [State.look,hx',hdir,hskip'],hnext⟩
    · cases hskip.symm.trans hname
  · rcases hcase with ⟨hskip,-⟩ | ⟨len,last,e,v,hname,hlive,hcase⟩
    · cases hcomp.symm.trans hskip
    · cases hcomp.symm.trans hname
      have hlive' : s.live w'.cur (cstr (w'.path.take len')) = some (e,v) := by
        rw [h.cur,htake]
        exact hlive
      rcases hcase with ⟨⟨-,hlink⟩,hfollow⟩ | ⟨hlink,rfl,rfl⟩
      · have hinside : last = false ∨ w.pathLen = strlen w.path := by
          cases last with
          | false => exact .inl rfl
          | true =>
            refine .inr (not_not.mp fun hne => hsmooth.inside ?_)
            exact ⟨rfl,hne,len,e,v,hcomp,hlive,hlink⟩
        have hlook' : s.look frame follow w' =
            s.follow (frame w') w'.cur v (w'.path.drop len') := by
          simp [State.look,hx',hdir,hcomp',State.pick,hlive',hlink]
        rw [hlook',h.cur]
        exact follow_longer (htext v hlink) hfollow (by rw [hdrop,htail hinside])
      · refine .inr ⟨_,?_,hnext rfl (s.reduce e)⟩
        have hfile : (s.vnode v).nodeType ≠ .symlink := fun hsym => hlink ⟨rfl,hsym⟩
        simp [State.look,hx',hdir,hcomp',State.pick,hlive',hfile]

omit htext in
theorem longer_last {len e v : Nat} (follow : Bool) (hcomp : w.component = .name len true)
    (hdir : ∃ x, (s.entry w.cur).vnode = some x ∧ (s.vnode x).nodeType = .directory)
    (hlive : s.live w.cur (cstr (w.path.take len)) = some (e,v))
    (hlink : (s.vnode v).nodeType ≠ .symlink) :
    ∃ u', s.look frame follow w' = .again u' ∧ u'.cur = s.reduce e := by
  obtain ⟨x,hx,hx'⟩ := hdir
  rcases longer_component h hrest hsmooth with ⟨hskip,-,-⟩ |
    ⟨len₁,len',last,t,hcomp₁,hcomp',htake,-,-,-⟩
  · cases hcomp.symm.trans hskip
  · cases hcomp.symm.trans hcomp₁
    refine ⟨⟨s.reduce e,w'.path.drop (len' + 1),w'.pathLen - (len' + 1)⟩,?_,rfl⟩
    simp [State.look,State.pick,h.cur,hx,hx',hcomp',htake,hlive,hlink]

end Look

theorem longer_visits (follow : Bool) (htext : ∀ v, (s.vnode v).nodeType = .symlink → 0 ∉ (s.vnode v).contents)
    (hrest : rest ≠ []) (hv : Visits (s.look frame true) w l)
    (hsmooth : ∀ u, Visits (s.look frame true) w u → s.Smooth true u) (h : Longer rest w w') :
    (∃ u', Visits (s.look frame follow) w' u' ∧ s.look frame follow u' = .stuck) ∨
      ∃ l', Visits (s.look frame follow) w' l' ∧ Longer rest l l' := by
  induction hv with
  | refl => exact .inr ⟨w',.refl,h⟩
  | tail hu hstep ih =>
    rcases ih with hstuck | ⟨u',hu',hlonger⟩
    · exact .inl hstuck
    · rcases longer_look htext hlonger hrest (hsmooth _ hu) hstep with hstuck | ⟨l',hl',hlonger'⟩
      · exact .inl ⟨u',hu',hstuck⟩
      · exact .inr ⟨l',hu'.tail hl',hlonger'⟩

end SabaOS.Vfs
