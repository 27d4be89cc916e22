import SabaOS.Fs.Proper
import SabaOS.Lib.Thin

namespace SabaOS.Vfs

open SabaOS.Fs SabaOS.Lib

structure Reads (w : Walk) (str : List UInt8) (d : Nat) : Prop where
  cstr : cstr w.path = str
  pathLen : w.pathLen = str.length + d

variable {s : State} {frame : Walk → List UInt8} {follow : Bool} {w w' : Walk} {path path' : Path}
variable {str n r : List UInt8} {d k : Nat} {loose : Prop}

theorem cstr_take : cstr (path.take k) = (cstr path).take k := List.take_takeWhile.symm

theorem cstr_drop (hk : k ≤ strlen path) : cstr (path.drop k) = (cstr path).drop k := by
  induction k generalizing path with
  | zero => rfl
  | succ k ih =>
    cases path with
    | nil => rfl
    | cons c path =>
      by_cases hc : c = 0
      · simp [strlen,cstr,hc] at hk
      · have hcons : cstr (c :: path) = c :: cstr path := by simp [cstr,hc]
        rw [strlen,hcons] at hk
        rw [hcons]
        exact ih (Nat.le_of_succ_le_succ hk)

theorem cstr_append {a b : List UInt8} (ha : 0 ∉ a) : cstr (a ++ b) = a ++ cstr b := by
  refine List.takeWhile_append_of_pos fun c hc => ?_
  simpa using fun h0 : c = 0 => ha (h0 ▸ hc)

theorem cstr_append_zero {a b : List UInt8} (ha : 0 ∈ a) : cstr (a ++ b) = cstr a := by
  rw [cstr,List.takeWhile_append,if_neg]
  · rfl
  · intro hlen
    have hall := List.takeWhile_eq_self_iff.mp ((List.takeWhile_prefix _).eq_of_length hlen)
    simpa using hall 0 ha

theorem cstr_newPath (frame text : List UInt8) {rest : List UInt8} (hrest : 0 ∉ rest)
    (hlen : text.length + rest.length + 1 ≤ 256) :
    cstr (State.newPath frame text rest) = if 0 ∈ text then cstr text else text ++ rest := by
  obtain ⟨m,hm⟩ : ∃ m, 256 - (text.length + rest.length) = m + 1 :=
    ⟨255 - (text.length + rest.length),by omega⟩
  rw [State.newPath,hm,List.replicate_succ,List.append_assoc,List.append_assoc]
  split_ifs with h0
  · exact cstr_append_zero h0
  · rw [cstr_append h0,cstr_append hrest]
    simp [cstr]

theorem strchr_none (h : slash ∉ cstr path) : strchr path slash = none := by
  rw [strchr,List.findIdx?_eq_none_iff]
  intro c hc
  simpa using fun heq : c = slash => h (heq ▸ hc)

theorem strchr_some (hn : slash ∉ n) (h : cstr path = n ++ slash :: r) :
    strchr path slash = some n.length := by
  rw [strchr,h]
  clear h
  induction n with
  | nil => simp [List.findIdx?_cons]
  | cons c n ih =>
    have hc : c ≠ slash := by
      rintro rfl
      exact hn List.mem_cons_self
    have ih' := ih fun hmem => hn (List.mem_cons_of_mem _ hmem)
    simp [List.findIdx?_cons,hc] at ih' ⊢
    exact ih'

theorem Reads.strlen (h : Reads w str d) : strlen w.path = str.length := by
  rw [Vfs.strlen,h.cstr]

section NoSlash

variable (h : Reads w str d) (hn : slash ∉ str)

include h hn

theorem component_last : w.component = .name w.pathLen true := by
  rw [Walk.component,strchr_none (h.cstr ▸ hn)]

omit hn in
theorem cstr_take_pathLen : cstr (w.path.take w.pathLen) = str := by
  rw [cstr_take,h.cstr,h.pathLen]
  exact List.take_of_length_le (by omega)

end NoSlash

section Split

variable (h : Reads w (n ++ slash :: r) d)

include h

theorem component_split (hn : slash ∉ n) : w.component =
    if r = [] ∧ d = 0 then .name n.length true
    else if n = [] then .skip else .name n.length false := by
  have hlen : n.length + 1 = w.pathLen ↔ r = [] ∧ d = 0 := by
    rw [h.pathLen]
    constructor
    · intro heq
      simp only [List.length_append,List.length_cons] at heq
      exact ⟨List.length_eq_zero_iff.mp (by omega),by omega⟩
    · rintro ⟨rfl,rfl⟩
      simp
  simp only [Walk.component,strchr_some hn h.cstr,hlen,List.length_eq_zero_iff]

theorem cstr_take_split : cstr (w.path.take n.length) = n := by
  rw [cstr_take,h.cstr]
  exact List.take_left

theorem cstr_drop_split : cstr (w.path.drop n.length) = slash :: r := by
  rw [cstr_drop (by rw [h.strlen]; simp),h.cstr]
  exact List.drop_left

theorem reads_next {cur : Nat} :
    Reads ⟨cur,w.path.drop (n.length + 1),w.pathLen - (n.length + 1)⟩ r d := by
  constructor
  · rw [cstr_drop (by rw [h.strlen]; simp),h.cstr]
    simp [List.drop_append]
  · rw [h.pathLen]
    simp only [List.length_append,List.length_cons]
    omega

end Split

theorem reads_skip (h : Reads w (slash :: r) d) :
    Reads { w with path := w.path.drop 1 } r (d + 1) := by
  constructor
  · rw [cstr_drop (by rw [h.strlen]; simp),h.cstr]
    rfl
  · rw [h.pathLen]
    simp only [List.length_cons]
    omega

def Walk.Late (w : Walk) : Prop :=
  (∀ c ∈ cstr w.path, c = slash) ∨
    ∃ len, w.component = .name len false ∧ ∀ c ∈ cstr (w.path.drop len), c = slash

namespace State

def Overread (s : State) (follow : Bool) (w : Walk) : Prop :=
  follow = true ∧ w.pathLen ≠ strlen w.path ∧ ∃ len e v, w.component = .name len true ∧
    s.live w.cur (cstr (w.path.take len)) = some (e,v) ∧ (s.vnode v).nodeType = .symlink

def Overrun (s : State) (follow : Bool) (w : Walk) : Prop :=
  ∃ len last e v, w.component = .name len last ∧
    s.live w.cur (cstr (w.path.take len)) = some (e,v) ∧
    (!last || follow) = true ∧ (s.vnode v).nodeType = .symlink ∧
    ((s.vnode v).contents.take 128).length ≤ 127 ∧
    256 < ((s.vnode v).contents.take 128).length + strlen (w.path.drop len) + 1

structure Smooth (s : State) (follow : Bool) (w : Walk) : Prop where
  timely : ¬w.Late
  inside : ¬s.Overread follow w
  fits : ¬s.Overrun follow w

def SmoothFrom (s : State) (frame : Walk → List UInt8) (follow : Bool) (path : Path)
    (start : Option Nat) : Prop :=
  ∀ w w', s.enter path start = .again w → Visits (s.walkStep frame follow) w w' →
    s.Smooth follow w'

end State

theorem Tree.visits_iff (hs : Tree s) :
    Visits (s.walkStep frame follow) w w' ↔ Visits (s.look frame follow) w w' := by
  have hstep : ∀ u u', s.walkStep frame follow u = .again u' ↔ s.look frame follow u = .again u' := by
    intro u u'
    rw [← hs.walkStep_map]
    cases s.walkStep frame follow u with
    | again u'' => simp
    | stop r => simp
    | stuck => simp
  simp only [Visits,hstep]

structure Slim (s : State) (frame : Walk → List UInt8) (follow : Bool) (loose : Prop)
    (w w' : Walk) : Prop where
  cur : w'.cur = w.cur
  reads : ∃ str str' d d', Reads w str d ∧ Reads w' str' d' ∧
    Thin slash loose (slash :: str) (slash :: str') ∧ d' ≤ d
  smooth : ∀ u, Visits (s.look frame follow) w u → s.Smooth follow u

def Same (loose : Prop) (r r' : Option Nat) : Prop := r = r' ∨ loose ∧ r' = none

abbrev Slimmer (s : State) (frame : Walk → List UInt8) (follow : Bool) (loose : Prop) :
    Turn Walk (Option Nat) → Turn Walk (Option Nat) → Prop :=
  Matches (Slim s frame follow loose) (Same (loose ∧ follow = true))

theorem late_of_reads (h : Reads w str d) (hall : ∀ c ∈ str, c = slash) : w.Late :=
  .inl (h.cstr ▸ hall)

theorem headD_drop_one (h : cstr path = slash :: r) : (path.drop 1).headD 0 = r.headD 0 := by
  cases path with
  | nil => simp [cstr] at h
  | cons c path =>
    by_cases hc : c = 0
    · simp [cstr,hc] at h
    · have hcons : cstr (c :: path) = c :: cstr path := by simp [cstr,hc]
      rw [hcons,List.cons.injEq] at h
      rw [← h.2]
      cases path with
      | nil => rfl
      | cons c' path =>
        by_cases hc' : c' = 0
        · simp [cstr,hc']
        · simp [cstr,hc']

theorem headD_cstr : path.headD 0 = (cstr path).headD 0 := by
  cases path with
  | nil => rfl
  | cons c path =>
    by_cases hc : c = 0
    · simp [cstr,hc]
    · simp [cstr,hc]

theorem enter_slash {start : Option Nat} (h : cstr path = slash :: r) : s.enter path start =
    if r = [] then .stop (root,s) else .again ⟨root,path.drop 1,r.length⟩ := by
  have h0 : path.headD 0 = slash := by rw [headD_cstr,h]; rfl
  have hr : (path.drop 1).headD 0 = 0 ↔ r = [] := by
    rw [headD_drop_one h]
    cases r with
    | nil => simp
    | cons c r =>
      have hmem : c ∈ cstr path := by simp [h]
      have hc := ne_zero_of_mem_cstr hmem
      simpa using hc
  have hlen : strlen path = r.length + 1 := by rw [strlen,h]; rfl
  simp only [State.enter,hr,hlen,Nat.add_sub_cancel,if_pos h0]
  exact if_neg (by omega)

theorem enter_relative {start : Option Nat} {c : UInt8} (hc : c ≠ slash) (h : cstr path = c :: r) :
    s.enter path start = match start with
      | none => .stop (nullEntry,s)
      | some e => .again ⟨s.reduce e,path,r.length + 1⟩ := by
  have h0 : path.headD 0 = c := by rw [headD_cstr,h]; rfl
  have hlen : strlen path = r.length + 1 := by rw [strlen,h]; rfl
  cases start with
  | none =>
    simp only [State.enter,hlen]
    rw [if_neg (by omega),if_neg (h0 ▸ hc)]
  | some e =>
    simp only [State.enter,hlen]
    rw [if_neg (by omega),if_neg (h0 ▸ hc)]

theorem enter_empty {start : Option Nat} (h : cstr path = []) :
    s.enter path start = .stop (nullEntry,s) := by
  simp [State.enter,strlen,h]

theorem reads_drop_one (h : cstr path = slash :: r) : Reads ⟨root,path.drop 1,r.length⟩ r 0 := by
  refine ⟨?_,rfl⟩
  rw [cstr_drop (by rw [strlen,h]; simp),h]
  rfl

section Begin

variable {start : Option Nat} (hs : Tree s) (hthin : Thin slash loose (cstr path) (cstr path'))
variable (hempty : cstr path' = [] → cstr path = [] ∨ loose ∧ follow = true)
variable (hsmooth : ∀ w w', s.enter path start = .again w → Visits (s.look frame follow) w w' →
  s.Smooth follow w')

include hs hthin hempty hsmooth

theorem begin_slash (hstr : cstr path = slash :: r) :
    Slimmer s frame follow loose (s.begin path start) (s.begin path' start) := by
  have htimely : r ≠ [] → ¬∀ c ∈ r, c = slash := by
    intro hne hall
    have hsm := hsmooth _ _ ((enter_slash hstr).trans (if_neg hne)) .refl
    exact hsm.timely (late_of_reads (reads_drop_one hstr) hall)
  rw [hstr] at hthin
  rcases hthin.sep_cons with hnil | ⟨r',hstr'⟩
  · have hall := hthin.all_sep_iff.mpr (by simp [hnil])
    have hr : r = [] := by
      by_contra hne
      exact htimely hne fun c hmem => hall c (List.mem_cons_of_mem _ hmem)
    rw [State.begin,State.begin,enter_slash hstr,if_pos hr,enter_empty hnil]
    exact .inr ⟨(hempty hnil).resolve_left (by simp [hstr]),hs.null_vnode⟩
  · rw [hstr'] at hthin
    by_cases hr : r = []
    · have hr' : r' = [] := by
        have hlen := hthin.length_le
        rw [hr] at hlen
        simpa using hlen
      rw [State.begin,State.begin,enter_slash hstr,enter_slash hstr',if_pos hr,if_pos hr']
      exact .inl rfl
    · have hr' : r' ≠ [] := by
        rintro rfl
        have hall := hthin.all_sep_iff.mpr (by simp)
        exact htimely hr fun c hmem => hall c (List.mem_cons_of_mem _ hmem)
      have henter : s.enter path start = .again ⟨root,path.drop 1,r.length⟩ :=
        (enter_slash hstr).trans (if_neg hr)
      rw [State.begin,State.begin,henter,enter_slash hstr',if_neg hr']
      exact ⟨rfl,⟨r,r',0,0,reads_drop_one hstr,reads_drop_one hstr',hthin,Nat.le_refl 0⟩,
        fun u hu => hsmooth _ u henter hu⟩

theorem begin_slimmer : Slimmer s frame follow loose (s.begin path start) (s.begin path' start) := by
  cases hstr : cstr path with
  | nil =>
    rw [hstr] at hthin
    rw [State.begin,State.begin,enter_empty hstr,enter_empty hthin.eq_nil]
    exact .inl rfl
  | cons c r =>
    by_cases hc : c = slash
    · exact begin_slash hs hthin hempty hsmooth (hc ▸ hstr)
    · rw [hstr] at hthin
      obtain ⟨r',hstr',hthin'⟩ := hthin.of_ne_cons hc
      cases start with
      | none =>
        rw [State.begin,State.begin,enter_relative hc hstr,enter_relative hc hstr']
        exact .inl rfl
      | some e =>
        have henter : s.enter path (some e) = .again ⟨s.reduce e,path,r.length + 1⟩ :=
          enter_relative hc hstr
        rw [State.begin,State.begin,henter,enter_relative hc hstr']
        refine ⟨rfl,⟨c :: r,c :: r',0,0,⟨hstr,rfl⟩,⟨hstr',rfl⟩,.keep (.keep hthin'),Nat.le_refl 0⟩,?_⟩
        exact fun u hu => hsmooth _ u henter hu

end Begin

theorem follow_slimmer (hs : Tree s) {frame₁ frame₂ : List UInt8} {cur v : Nat}
    (hthin : Thin slash loose (cstr path) (cstr path'))
    (hempty : cstr path' = [] → cstr path = [] ∨ loose ∧ follow = true)
    (hfits : ((s.vnode v).contents.take 128).length ≤ 127 →
      ((s.vnode v).contents.take 128).length + strlen path + 1 ≤ 256)
    (hsmooth : ∀ w w', s.follow frame₁ cur v path = .again w →
      Visits (s.look frame follow) w w' → s.Smooth follow w') :
    Slimmer s frame follow loose (s.follow frame₁ cur v path) (s.follow frame₂ cur v path') := by
  have hlen : strlen path' ≤ strlen path := hthin.length_le
  simp only [State.follow,State.splice] at hsmooth ⊢
  by_cases htext : 127 < ((s.vnode v).contents.take 128).length
  · rw [if_pos htext,if_pos htext]
    exact .inl rfl
  · have hfit := hfits (by omega)
    rw [if_neg htext,if_neg (by omega)] at hsmooth ⊢
    rw [if_neg htext,if_neg (by omega)]
    have hnew := cstr_newPath frame₁ _ zero_notMem_cstr hfit
    have hnew' := cstr_newPath frame₂ ((s.vnode v).contents.take 128) (show 0 ∉ cstr path' from zero_notMem_cstr)
      (by rw [strlen] at hlen hfit; omega)
    refine begin_slimmer hs ?_ ?_ ?_
    · rw [hnew,hnew']
      split_ifs
      · exact .refl _
      · exact hthin.append_left _
    · rw [hnew,hnew']
      split_ifs
      · exact .inl
      · intro hnil
        obtain ⟨ht,hp⟩ := List.append_eq_nil_iff.mp hnil
        rcases hempty hp with h | h
        · exact .inl (by rw [ht,h]; rfl)
        · exact .inr h
    · intro u u' henter
      exact hsmooth u u' (by rw [henter]; rfl)

theorem pick_slimmer (hs : Tree s) {len len' : Nat} {last : Bool} (hcur : w'.cur = w.cur)
    (hname : cstr (w'.path.take len') = cstr (w.path.take len))
    (htail : ∀ e v, s.live w.cur (cstr (w.path.take len)) = some (e,v) →
      (!last || follow) = true → (s.vnode v).nodeType = .symlink →
      Thin slash loose (cstr (w.path.drop len)) (cstr (w'.path.drop len')) ∧
      (cstr (w'.path.drop len') = [] → cstr (w.path.drop len) = [] ∨ loose ∧ follow = true) ∧
      (((s.vnode v).contents.take 128).length ≤ 127 →
        ((s.vnode v).contents.take 128).length + strlen (w.path.drop len) + 1 ≤ 256))
    (hnext : ∀ cur, last = false → ∃ str str' d d',
      Reads ⟨cur,w.path.drop (len + 1),w.pathLen - (len + 1)⟩ str d ∧
      Reads ⟨cur,w'.path.drop (len' + 1),w'.pathLen - (len' + 1)⟩ str' d' ∧
      Thin slash loose (slash :: str) (slash :: str') ∧ d' ≤ d)
    (hsmooth : ∀ u u', s.pick frame follow w len last = .again u →
      Visits (s.look frame follow) u u' → s.Smooth follow u') :
    Slimmer s frame follow loose (s.pick frame follow w len last) (s.pick frame follow w' len' last) := by
  simp only [State.pick,hcur,hname] at hsmooth ⊢
  cases hlive : s.live w.cur (cstr (w.path.take len)) with
  | none => exact .inl rfl
  | some ev =>
    obtain ⟨e,v⟩ := ev
    simp only [hlive] at hsmooth
    dsimp only
    by_cases hlink : (!last || follow) = true ∧ (s.vnode v).nodeType = .symlink
    · rw [if_pos hlink] at hsmooth ⊢
      rw [if_pos hlink]
      obtain ⟨hthin,hempty,hfits⟩ := htail e v hlive hlink.1 hlink.2
      exact follow_slimmer hs hthin hempty hfits hsmooth
    · rw [if_neg hlink] at hsmooth ⊢
      rw [if_neg hlink]
      cases last with
      | true => exact .inl rfl
      | false =>
        exact ⟨rfl,hnext (s.reduce e) rfl,fun u hu => hsmooth _ u rfl hu⟩

theorem exists_split (hhead : ∀ r, str ≠ slash :: r) (hstr : str ≠ []) :
    ∃ n t, n ≠ [] ∧ slash ∉ n ∧ str = n ++ t ∧ (t = [] ∨ ∃ r, t = slash :: r) := by
  induction str with
  | nil => exact absurd rfl hstr
  | cons c str ih =>
    have hc : slash ∉ [c] := by
      intro hmem
      exact hhead str (by rw [List.mem_singleton.mp hmem])
    cases str with
    | nil => exact ⟨[c],[],by simp,hc,rfl,.inl rfl⟩
    | cons c' str =>
      by_cases hc' : c' = slash
      · exact ⟨[c],c' :: str,by simp,hc,rfl,.inr ⟨str,by rw [hc']⟩⟩
      · obtain ⟨n,t,-,hn,heq,ht⟩ := ih (fun r hr => hc' (List.cons.inj hr).1) (by simp)
        refine ⟨c :: n,t,by simp,?_,by rw [heq]; rfl,ht⟩
        intro hmem
        rcases List.mem_cons.mp hmem with h | h
        · exact hc (by simp [h])
        · exact hn h

section Directory

variable {x : Nat} (hdir : (s.entry w.cur).vnode = some x)
variable (hx : (s.vnode x).nodeType = .directory)

include hdir hx

theorem look_skip (hcomp : w.component = .skip) :
    s.look frame follow w = .again { w with path := w.path.drop 1 } := by
  simp only [State.look,hdir,hx,ne_eq,not_true_eq_false,if_false,hcomp]

theorem look_name {len : Nat} {last : Bool} (hcomp : w.component = .name len last) :
    s.look frame follow w = s.pick frame follow w len last := by
  simp only [State.look,hdir,hx,ne_eq,not_true_eq_false,if_false,hcomp]

end Directory

theorem component_skip (h : Reads w (slash :: r) d) (hne : ¬(r = [] ∧ d = 0)) :
    w.component = .skip := by
  have hcomp := component_split (n := []) h (by simp)
  rwa [if_neg hne,if_pos rfl] at hcomp

section Lock

variable {str' : List UInt8} {d' x : Nat} (hs : Tree s) (hcur : w'.cur = w.cur)
variable (hdir : (s.entry w.cur).vnode = some x) (hx : (s.vnode x).nodeType = .directory)
variable (hsmooth : ∀ u, Visits (s.look frame follow) w u → s.Smooth follow u)

include hs hcur hdir hx hsmooth

theorem look_slimmer_name {len len' : Nat} {last : Bool} (hcomp : w.component = .name len last)
    (hcomp' : w'.component = .name len' last)
    (hname : cstr (w'.path.take len') = cstr (w.path.take len))
    (htail : (last = true → w.pathLen = strlen w.path) →
      Thin slash loose (cstr (w.path.drop len)) (cstr (w'.path.drop len')) ∧
      (cstr (w'.path.drop len') = [] → cstr (w.path.drop len) = [] ∨ loose ∧ last = true))
    (hnext : ∀ cur, last = false → ∃ str str' d d',
      Reads ⟨cur,w.path.drop (len + 1),w.pathLen - (len + 1)⟩ str d ∧
      Reads ⟨cur,w'.path.drop (len' + 1),w'.pathLen - (len' + 1)⟩ str' d' ∧
      Thin slash loose (slash :: str) (slash :: str') ∧ d' ≤ d) :
    Slimmer s frame follow loose (s.look frame follow w) (s.look frame follow w') := by
  have hlook : s.look frame follow w = s.pick frame follow w len last := look_name hdir hx hcomp
  have hsm := hsmooth w .refl
  rw [hlook,look_name (hcur ▸ hdir) hx hcomp']
  refine pick_slimmer hs hcur hname ?_ hnext ?_
  · intro e v hlive hfollow hlink
    have hinside : last = true → w.pathLen = strlen w.path := by
      rintro rfl
      by_contra hne
      exact hsm.inside ⟨by simpa using hfollow,hne,len,e,v,hcomp,hlive,hlink⟩
    obtain ⟨hthin',hempty⟩ := htail hinside
    refine ⟨hthin',fun hnil => (hempty hnil).imp_right ?_,fun htext => ?_⟩
    · rintro ⟨hloose,rfl⟩
      exact ⟨hloose,by simpa using hfollow⟩
    · by_contra hlen
      exact hsm.fits ⟨len,last,e,v,hcomp,hlive,hfollow,hlink,htext,by omega⟩
  · intro u u' hpick hu
    exact hsmooth u' (.head (hlook.trans hpick) hu)

variable (hr : Reads w str d) (hr' : Reads w' str' d') (hthin : Thin slash loose str str') (hd : d' ≤ d)

include hr hr' hthin hd

omit hs in
theorem look_slimmer_skip (hstr : str = slash :: r) :
    Slimmer s frame follow loose (s.look frame follow w) (s.look frame follow w') := by
  subst hstr
  have hall : ¬∀ c ∈ slash :: r, c = slash :=
    fun hall => (hsmooth w .refl).timely (late_of_reads hr hall)
  have hne : r ≠ [] := by
    rintro rfl
    exact hall (by simp)
  rcases hthin.sep_cons with rfl | ⟨r',rfl⟩
  · exact absurd (hthin.all_sep_iff.mpr (by simp)) hall
  · have hne' : r' ≠ [] := by
      rintro rfl
      exact hall (hthin.all_sep_iff.mpr (by simp))
    have hlook : s.look frame follow w = .again { w with path := w.path.drop 1 } :=
      look_skip hdir hx (component_skip hr fun h => hne h.1)
    rw [hlook,look_skip (hcur ▸ hdir) hx (component_skip hr' fun h => hne' h.1)]
    exact ⟨hcur,⟨r,r',d + 1,d' + 1,reads_skip hr,reads_skip hr',hthin,Nat.succ_le_succ hd⟩,
      fun u hu => hsmooth u (.head hlook hu)⟩

theorem look_slimmer_whole (hn : slash ∉ str) :
    Slimmer s frame follow loose (s.look frame follow w) (s.look frame follow w') := by
  obtain ⟨b,hb,hnil⟩ := Thin.split (a := []) hn (by simpa using hthin)
  obtain rfl : str' = str := by simpa [hnil.eq_nil] using hb
  refine look_slimmer_name hs hcur hdir hx hsmooth (component_last hr hn) (component_last hr' hn)
    ?_ ?_ (by simp)
  · rw [cstr_take_pathLen hr,cstr_take_pathLen hr']
  · intro hinside
    have hlen := hinside rfl
    have hd0 : d = 0 := by
      rw [hr.pathLen,hr.strlen] at hlen
      omega
    have hlen' : w'.pathLen = strlen w'.path := by
      rw [hr'.pathLen,hr'.strlen]
      omega
    have hend : ∀ u : Walk, u.pathLen = strlen u.path → cstr (u.path.drop u.pathLen) = [] := by
      intro u hu
      rw [hu,cstr_drop (Nat.le_refl _)]
      exact List.drop_length
    rw [hend w hlen,hend w' hlen']
    exact ⟨.nil,fun _ => .inl rfl⟩

theorem look_slimmer_split (hn : slash ∉ n) (hne : n ≠ []) (hstr : str = n ++ slash :: r) :
    Slimmer s frame follow loose (s.look frame follow w) (s.look frame follow w') := by
  subst hstr
  have hcomp := component_split hr hn
  obtain ⟨b,rfl,hb⟩ := Thin.split hn hthin
  by_cases hall : ∀ c ∈ slash :: r, c = slash
  · have hlast : r = [] ∧ d = 0 := by
      by_contra hcon
      rw [if_neg hcon,if_neg hne] at hcomp
      exact (hsmooth w .refl).timely (.inr ⟨_,hcomp,by rwa [cstr_drop_split hr]⟩)
    obtain ⟨rfl,rfl⟩ := hlast
    obtain rfl : d' = 0 := Nat.le_zero.mp hd
    rw [if_pos ⟨rfl,rfl⟩] at hcomp
    rcases hb.sep_cons with rfl | ⟨r',rfl⟩
    · rw [List.append_nil] at hr'
      have hlen' : w'.pathLen = strlen w'.path := by rw [hr'.pathLen,hr'.strlen]; rfl
      refine look_slimmer_name hs hcur hdir hx hsmooth hcomp (component_last hr' hn) ?_ ?_ (by simp)
      · rw [cstr_take_split hr,cstr_take_pathLen hr']
      · intro _
        rw [cstr_drop_split hr,hlen',cstr_drop (Nat.le_refl _),strlen,List.drop_length]
        have hloose := (hb.eq_nil_or_loose rfl).resolve_left (by simp)
        exact ⟨.chop hloose,fun _ => .inr ⟨hloose,rfl⟩⟩
    · obtain rfl : r' = [] := by simpa using hb.length_le
      have hcomp' := component_split hr' hn
      rw [if_pos ⟨rfl,rfl⟩] at hcomp'
      refine look_slimmer_name hs hcur hdir hx hsmooth hcomp hcomp' ?_ ?_ (by simp)
      · rw [cstr_take_split hr,cstr_take_split hr']
      · intro _
        rw [cstr_drop_split hr,cstr_drop_split hr']
        exact ⟨hb,fun h => absurd h (by simp)⟩
  · have hr0 : r ≠ [] := by
      rintro rfl
      exact hall (by simp)
    rcases hb.sep_cons with rfl | ⟨r',rfl⟩
    · exact absurd (hb.all_sep_iff.mpr (by simp)) hall
    · have hr0' : r' ≠ [] := by
        rintro rfl
        exact hall (hb.all_sep_iff.mpr (by simp))
      have hcomp' := component_split hr' hn
      rw [if_neg fun h => hr0 h.1,if_neg hne] at hcomp
      rw [if_neg fun h => hr0' h.1,if_neg hne] at hcomp'
      refine look_slimmer_name hs hcur hdir hx hsmooth hcomp hcomp' ?_ ?_ ?_
      · rw [cstr_take_split hr,cstr_take_split hr']
      · intro _
        rw [cstr_drop_split hr,cstr_drop_split hr']
        exact ⟨hb,fun h => absurd h (by simp)⟩
      · intro cur _
        exact ⟨r,r',d,d',reads_next hr,reads_next hr',hb,hd⟩

theorem look_slimmer : Slimmer s frame follow loose (s.look frame follow w) (s.look frame follow w') := by
  by_cases hslash : ∃ r, str = slash :: r
  · obtain ⟨r,hstr⟩ := hslash
    exact look_slimmer_skip hcur hdir hx hsmooth hr hr' hthin hd hstr
  · have hnil : str ≠ [] := by
      rintro rfl
      exact (hsmooth w .refl).timely (late_of_reads hr (by simp))
    obtain ⟨n,t,hne,hn,rfl,ht⟩ := exists_split (fun r h => hslash ⟨r,h⟩) hnil
    rcases ht with rfl | ⟨r,rfl⟩
    · rw [List.append_nil] at hr hthin
      exact look_slimmer_whole hs hcur hdir hx hsmooth hr hr' hthin hd hn
    · exact look_slimmer_split hs hcur hdir hx hsmooth hr hr' hthin hd hn hne rfl

end Lock

theorem align {str' : List UInt8} {x : Nat} (hdir : (s.entry w.cur).vnode = some x)
    (hx : (s.vnode x).nodeType = .directory)
    (hsmooth : ∀ u, Visits (s.look frame follow) w u → s.Smooth follow u)
    (hr : Reads w str d) (hthin : Thin slash loose (slash :: str) (slash :: str')) :
    ∃ u str₁ d₁, Visits (s.look frame follow) w u ∧ u.cur = w.cur ∧ Reads u str₁ d₁ ∧
      Thin slash loose str₁ str' ∧ d ≤ d₁ := by
  induction str generalizing w d with
  | nil =>
    cases hthin with
    | keep h => exact ⟨w,[],d,.refl,rfl,hr,h,Nat.le_refl d⟩
  | cons c str ih =>
    cases hthin with
    | keep h => exact ⟨w,c :: str,d,.refl,rfl,hr,h,Nat.le_refl d⟩
    | skip h =>
      have hne : ¬(str = [] ∧ d = 0) := by
        rintro ⟨rfl,-⟩
        exact (hsmooth w .refl).timely (late_of_reads hr (by simp))
      have hlook : s.look frame follow w = .again { w with path := w.path.drop 1 } :=
        look_skip hdir hx (component_skip hr hne)
      obtain ⟨u,str₁,d₁,hu,hcur,hreads,hthin',hd⟩ :=
        ih (w := { w with path := w.path.drop 1 }) hdir (fun v hv => hsmooth v (.head hlook hv))
          (reads_skip hr) h
      exact ⟨u,str₁,d₁,.head hlook hu,hcur,hreads,hthin',by omega⟩

theorem slim_stutters (hs : Tree s) : Stutters (s.look frame follow) (s.look frame follow)
    (Slim s frame follow loose) (Same (loose ∧ follow = true)) := by
  intro w w' h
  obtain ⟨str,str',d,d',hr,hr',hthin,hd⟩ := h.reads
  cases hdir : (s.entry w.cur).vnode with
  | none =>
    refine ⟨w,.refl,?_⟩
    simp [State.look,h.cur,hdir,Matches]
  | some x =>
    by_cases hx : (s.vnode x).nodeType = .directory
    · obtain ⟨u,str₁,d₁,hu,hcur,hreads,hthin',hd₁⟩ := align hdir hx h.smooth hr hthin
      refine ⟨u,hu,look_slimmer hs (h.cur.trans hcur.symm) (hcur ▸ hdir) hx ?_ hreads hr' hthin'
        (by omega)⟩
      exact fun v hv => h.smooth v (hu.trans hv)
    · refine ⟨w,.refl,?_⟩
      simp [State.look,h.cur,hdir,hx,Matches,Same]

-- `path'` is the path with its runs of slashes collapsed and, at a directory, without the last slash.
def State.Collapsed (s : State) (frame : Walk → List UInt8) (start : Option Nat)
    (path path' : Path) : Prop :=
  cstr path' = collapse slash (cstr path) ∨
    collapse slash (cstr path) = cstr path' ++ [slash] ∧ cstr path' ≠ [] ∧
      ∃ v, s.Resolves frame path' start true v ∧ (s.vnode v).nodeType = .directory

theorem endsFrom_slimmer (hs : Tree s) {t t' : Turn Walk (Option Nat)}
    (h : Slimmer s frame follow loose t t') :
    (∀ r, EndsFrom (s.look frame follow) t r →
      ∃ r', EndsFrom (s.look frame follow) t' r' ∧ Same (loose ∧ follow = true) r r') ∧
    ∀ r', EndsFrom (s.look frame follow) t' r' →
      ∃ r, EndsFrom (s.look frame follow) t r ∧ Same (loose ∧ follow = true) r r' := by
  cases t with
  | again w =>
    obtain ⟨w',rfl,hslim⟩ := matches_again_left.mp h
    exact ⟨fun r hr => (slim_stutters hs).forth hslim hr,
      fun r' hr' => (slim_stutters hs).back hslim hr'⟩
  | stop r =>
    obtain ⟨r',rfl,hsame⟩ := matches_stop_left.mp h
    exact ⟨fun r₁ hr => ⟨r',rfl,hr ▸ hsame⟩,fun r₁ hr => ⟨r,rfl,hr ▸ hsame⟩⟩
  | stuck => exact ⟨fun r hr => hr.elim,by
      cases t' with
      | again w' => exact h.elim
      | stop r' => exact h.elim
      | stuck => exact fun r' hr' => hr'.elim⟩

section Thin

variable {start : Option Nat} {v : Nat} (hs : Tree s)
variable (hthin : Thin slash loose (cstr path) (cstr path'))
variable (hempty : cstr path' = [] → cstr path = [] ∨ loose ∧ follow = true)
variable (hsmooth : s.SmoothFrom frame follow path start)

include hs hthin hempty hsmooth

theorem begin_slimmer_of_smooth :
    Slimmer s frame follow loose (s.begin path start) (s.begin path' start) :=
  begin_slimmer hs hthin hempty fun w w' he hv => hsmooth w w' he (hs.visits_iff.mpr hv)

theorem resolves_of_thin (h : s.Resolves frame path' start follow v) :
    s.Resolves frame path start follow v := by
  rw [hs.resolves_iff] at h ⊢
  have hslim := begin_slimmer_of_smooth hs hthin hempty hsmooth
  obtain ⟨r,hr,heq | ⟨-,hnone⟩⟩ := (endsFrom_slimmer hs hslim).2 _ h
  · exact heq ▸ hr
  · cases hnone

theorem resolves_thin (hloose : loose → follow = true → ∃ v', s.Resolves frame path' start follow v')
    (h : s.Resolves frame path start follow v) : s.Resolves frame path' start follow v := by
  rw [hs.resolves_iff] at h ⊢
  have hslim := begin_slimmer_of_smooth hs hthin hempty hsmooth
  obtain ⟨r,hr,heq | ⟨⟨hl,hfollow⟩,hnone⟩⟩ := (endsFrom_slimmer hs hslim).1 _ h
  · exact heq ▸ hr
  · obtain ⟨v',hv'⟩ := hloose hl hfollow
    have hnone' := hr.unique (hs.resolves_iff.mp hv')
    rw [hnone] at hnone'
    cases hnone'

end Thin

theorem collapse_eq_nil {a : List UInt8} (h : collapse slash a = []) : a = [] := by
  have hthin : Thin slash False a (collapse slash a) := .collapse a
  exact (hthin.eq_nil_or_loose h).resolve_right id

theorem resolves_collapsed (hs : Tree s) {start : Option Nat}
    (hform : s.Collapsed frame start path path') (hsmooth : s.SmoothFrom frame follow path start)
    (v : Nat) : s.Resolves frame path' start follow v ↔ s.Resolves frame path start follow v := by
  rcases hform with heq | ⟨heq,hne,v',hv',-⟩
  · have hthin : Thin slash False (cstr path) (cstr path') := heq ▸ .collapse _
    have hempty : cstr path' = [] → cstr path = [] ∨ False ∧ follow = true :=
      fun hnil => .inl (collapse_eq_nil (heq ▸ hnil))
    exact ⟨resolves_of_thin hs hthin hempty hsmooth,resolves_thin hs hthin hempty hsmooth False.elim⟩
  · have hthin : Thin slash True (cstr path) (cstr path') :=
      (heq ▸ Thin.collapse (cstr path)).chop_last trivial
    have hempty : cstr path' = [] → cstr path = [] ∨ True ∧ follow = true :=
      fun hnil => absurd hnil hne
    refine ⟨resolves_of_thin hs hthin hempty hsmooth,resolves_thin hs hthin hempty hsmooth ?_⟩
    rintro - rfl
    exact ⟨v',hv'⟩

section Last

variable {start : Option Nat}

theorem reads_enter (h : s.enter path start = .again w) : Reads w (cstr w.path) 0 := by
  cases hstr : cstr path with
  | nil =>
    rw [enter_empty hstr] at h
    cases h
  | cons c r =>
    by_cases hc : c = slash
    · rw [enter_slash (hc ▸ hstr)] at h
      split_ifs at h
      cases h
      have hreads := reads_drop_one (hc ▸ hstr)
      exact ⟨rfl,by rw [hreads.cstr]; rfl⟩
    · rw [enter_relative hc hstr] at h
      cases start with
      | none => cases h
      | some e =>
        cases h
        exact ⟨rfl,by rw [hstr]; rfl⟩

theorem component_not_last {len : Nat} (hr : Reads w str d) (hcomp : w.component = .name len false) :
    ∃ n r, str = n ++ slash :: r ∧ n.length = len := by
  by_cases hmem : slash ∈ str
  · obtain ⟨n,r,rfl,hn⟩ := List.eq_append_cons_of_mem hmem
    rw [component_split hr hn] at hcomp
    split_ifs at hcomp
    · cases hcomp
    · exact ⟨n,r,rfl,(Component.name.inj hcomp).1⟩
  · rw [component_last hr hmem] at hcomp
    cases hcomp

theorem component_is_skip (hr : Reads w str d) (hcomp : w.component = .skip) :
    ∃ r, str = slash :: r := by
  by_cases hmem : slash ∈ str
  · obtain ⟨n,r,rfl,hn⟩ := List.eq_append_cons_of_mem hmem
    rw [component_split hr hn] at hcomp
    split_ifs at hcomp with _ hnil
    exact ⟨r,by rw [hnil]; rfl⟩
  · rw [component_last hr hmem] at hcomp
    cases hcomp

theorem component_is_last {len : Nat} (hr : Reads w str d) (hcomp : w.component = .name len true) :
    ∀ c ∈ str.drop len, c = slash := by
  by_cases hmem : slash ∈ str
  · obtain ⟨n,r,rfl,hn⟩ := List.eq_append_cons_of_mem hmem
    rw [component_split hr hn] at hcomp
    split_ifs at hcomp with hlast
    · cases hcomp
      simp [hlast.1]
    · cases hcomp
  · rw [component_last hr hmem] at hcomp
    cases hcomp
    rw [hr.pathLen,List.drop_eq_nil_of_le (by omega)]
    simp

theorem reads_follow {frame : List UInt8} {cur v : Nat}
    (h : s.follow frame cur v path = .again w) : Reads w (cstr w.path) 0 :=
  reads_enter (follow_again h)

theorem reads_look (hr : Reads w str d) (h : s.look frame follow w = .again w') :
    ∃ str' d', Reads w' str' d' := by
  obtain ⟨x,-,-,⟨hcomp,rfl⟩ | ⟨len,last,e,v,hcomp,-,⟨-,hfollow⟩ | ⟨-,rfl,rfl⟩⟩⟩ := look_again h
  · obtain ⟨r,rfl⟩ := component_is_skip hr hcomp
    exact ⟨r,d + 1,reads_skip hr⟩
  · exact ⟨_,0,reads_follow hfollow⟩
  · obtain ⟨n,r,rfl,rfl⟩ := component_not_last hr hcomp
    exact ⟨r,d,reads_next hr⟩

theorem reads_visits (hr : Reads w str d) (h : Visits (s.look frame follow) w w') :
    ∃ str' d', Reads w' str' d' := by
  induction h with
  | refl => exact ⟨str,d,hr⟩
  | tail _ hstep ih =>
    obtain ⟨str',d',hr'⟩ := ih
    exact reads_look hr' hstep

end Last

theorem path_slashes (hs : Tree s) {start : Option Nat} (hform : s.Collapsed frame start path path') :
    (path' = path ∨ s.SmoothFrom frame follow path start →
      ∀ v, s.Resolves frame path' start follow v ↔ s.Resolves frame path start follow v) ∧
    ∀ w w', s.enter path start = .again w → Visits (s.walkStep frame follow) w w' →
      ∀ len, w'.component = .name len true → ∀ c ∈ (cstr w'.path).drop len, c = slash := by
  constructor
  · rintro (rfl | hsmooth)
    · exact fun v => Iff.rfl
    · exact resolves_collapsed hs hform hsmooth
  · intro w w' henter hvisits len hcomp
    obtain ⟨str,d,hr⟩ := reads_visits (reads_enter henter) (hs.visits_iff.mp hvisits)
    rw [hr.cstr]
    exact component_is_last hr hcomp

def oneDirResult : Result :=
  boot.perform plainEnv rootProcess 2 atFdcwd [47,97] (.mkdir 0o755)

example : (boot.perform plainEnv rootProcess 2 atFdcwd [47] (.mkdir 0o755)).isSome := by decide +kernel

theorem oneDirResult_isSome : oneDirResult.isSome := by decide +kernel

def oneDir : State := (oneDirResult.get oneDirResult_isSome).1

theorem Proper.oneDir : Proper oneDir :=
  Proper.boot.perform (Option.some_get oneDirResult_isSome).symm

theorem smooth_skip (h : w.component = .skip) (hslash : ¬∀ c ∈ cstr w.path, c = slash) :
    s.Smooth follow w := by
  refine ⟨?_,?_,?_⟩
  · rintro (hall | ⟨len,hlen,-⟩)
    · exact hslash hall
    · cases h.symm.trans hlen
  · rintro ⟨-,-,len,e,v,hlen,-⟩
    cases h.symm.trans hlen
  · rintro ⟨len,last,e,v,hlen,-⟩
    cases h.symm.trans hlen

theorem smooth_unfollowed {len : Nat} (h : w.component = .name len true)
    (hslash : ¬∀ c ∈ cstr w.path, c = slash) : s.Smooth false w := by
  refine ⟨?_,?_,?_⟩
  · rintro (hall | ⟨len',hlen,-⟩)
    · exact hslash hall
    · cases h.symm.trans hlen
  · rintro ⟨hfollow,-⟩
    cases hfollow
  · rintro ⟨len',last,e,v,hlen,-,hfollow,-⟩
    cases h.symm.trans hlen
    cases hfollow

theorem path_slashes_doubled : oneDir.Resolves plainEnv.frame [47,97] none false 1 ↔
    oneDir.Resolves plainEnv.frame [47,47,97] none false 1 := by
  refine (path_slashes Proper.oneDir.tree (.inl (by decide +kernel))).1 (.inr ?_) 1
  intro w w' henter hvisits
  obtain rfl : w = ⟨root,[47,97],2⟩ := (Turn.again.inj henter).symm
  have hskip : oneDir.walkStep plainEnv.frame false ⟨root,[47,97],2⟩ = .again ⟨root,[97],2⟩ := rfl
  rcases visits_again hskip hvisits with rfl | hrest
  · exact smooth_skip (by decide +kernel) (by decide +kernel)
  · have hstop : oneDir.walkStep plainEnv.frame false ⟨root,[97],2⟩ = .stop (4,oneDir) := rfl
    obtain rfl := visits_stop hstop hrest
    exact smooth_unfollowed (show Walk.component _ = .name 2 true from by decide +kernel)
      (by decide +kernel)

-- `//a/` and `/a`: the length of the path is one too long, and the trailing slash is not the last byte.
theorem trailing_slash_lost :
    oneDir.Collapsed plainEnv.frame none [47,47,97,47] [47,97] ∧
    oneDir.Resolves plainEnv.frame [47,97] none true 1 ∧
    ¬oneDir.Resolves plainEnv.frame [47,47,97,47] none true 1 := by
  have hres : oneDir.Resolves plainEnv.frame [47,97] none true 1 :=
    resolves_of_bind 2 (by decide +kernel)
  refine ⟨.inr ⟨by decide +kernel,by decide +kernel,1,hres,by decide +kernel⟩,hres,?_⟩
  have hfail : oneDir.pathToEntry plainEnv.frame 4 [47,47,97,47] none true =
      some (7,(oneDir.lookupNew 4 []).1) := rfl
  exact not_resolves hfail (by decide +kernel)

end SabaOS.Vfs
