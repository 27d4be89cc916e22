import Mathlib.Data.List.TakeWhile
import SabaOS.Fs.Tree
import SabaOS.Lib.Iterate

namespace SabaOS.Vfs

open SabaOS.Fs SabaOS.Lib

def slash : UInt8 := 47

-- The bytes from a pointer on; what is read past their end is zero.
abbrev Path := List UInt8

def cstr (path : Path) : List UInt8 := path.takeWhile (· ≠ 0)

def strlen (path : Path) : Nat := (cstr path).length

def strchr (path : Path) (c : UInt8) : Option Nat := (cstr path).findIdx? (· = c)

theorem ne_zero_of_mem_cstr {path : Path} {c : UInt8} (h : c ∈ cstr path) : c ≠ 0 := by
  simpa using List.mem_takeWhile_imp h

theorem zero_notMem_cstr {path : Path} : 0 ∉ cstr path := fun h => ne_zero_of_mem_cstr h rfl

structure Walk where
  cur : Nat
  path : Path
  pathLen : Nat
deriving DecidableEq, Repr

inductive Component where
  | skip
  | name (len : Nat) (last : Bool)
deriving DecidableEq, Repr

def Walk.component (w : Walk) : Component :=
  match strchr w.path slash with
  | none => .name w.pathLen true
  | some i =>
    if i + 1 = w.pathLen then .name i true
    else if i = 0 then .skip
    else .name i false

namespace State

def enter (s : State) (path : Path) (start : Option Nat) : Turn Walk (Nat × State) :=
  if strlen path = 0 then .stop (nullEntry,s)
  else if path.headD 0 = slash then
    if (path.drop 1).headD 0 = 0 then .stop (root,s)
    else .again ⟨root,path.drop 1,strlen path - 1⟩
  else match start with
    | none => .stop (nullEntry,s)
    | some e => .again ⟨s.reduce e,path,strlen path⟩

-- `char new_path[256] = {}`, and what lies behind it.
def newPath (frame : List UInt8) (text rest : List UInt8) : Path :=
  text ++ rest ++ List.replicate (256 - (text.length + rest.length)) 0 ++ frame

def splice (s : State) (frame : List UInt8) (cur v : Nat) (tail : Path) :
    Turn Walk (Nat × State) :=
  let text := (s.vnode v).contents.take 128
  if 127 < text.length then .stop (nullEntry,s)
  else if 256 < text.length + strlen tail + 1 then .stuck
  else s.enter (newPath frame text (cstr tail)) (some cur)

def descend (s : State) (frame : Walk → List UInt8) (follow : Bool) (w : Walk) (len : Nat)
    (last : Bool) : Turn Walk (Nat × State) :=
  match s.findChild w.cur (cstr (w.path.take len)) with
  | none =>
    let (s',e) := s.lookupNew w.cur (cstr (w.path.take len))
    .stop (if last then e else nullEntry,s')
  | some e => match (s.entry e).vnode with
    | none => .stop (if last then e else nullEntry,s)
    | some v =>
      if (!last || follow) ∧ (s.vnode v).nodeType = .symlink then
        s.splice (frame w) w.cur v (w.path.drop len)
      else if last then .stop (e,s)
      else .again ⟨s.reduce e,w.path.drop (len + 1),w.pathLen - (len + 1)⟩

-- One turn of the loop of `path_to_entry`. A duplicate slash leaves the length as it is.
def walkStep (s : State) (frame : Walk → List UInt8) (follow : Bool) (w : Walk) :
    Turn Walk (Nat × State) :=
  match (s.entry w.cur).vnode with
  | none => .stuck
  | some d =>
    if (s.vnode d).nodeType ≠ .directory then .stop (nullEntry,s)
    else match w.component with
    | .skip => .again { w with path := w.path.drop 1 }
    | .name len last => s.descend frame follow w len last

def pathToEntry (s : State) (frame : Walk → List UInt8) (fuel : Nat) (path : Path)
    (start : Option Nat) (follow : Bool) : Option (Nat × State) :=
  match s.enter path start with
  | .again w => run (s.walkStep frame follow) fuel w
  | .stop r => some r
  | .stuck => none

end State

open SabaOS.Fs SabaOS.Lib

def vnodeOf (r : Nat × State) : Option Nat := (r.2.entry r.1).vnode

namespace State

def live (s : State) (parent : Nat) (name : Name) : Option (Nat × Nat) :=
  (s.findChild parent name).bind fun e => (s.entry e).vnode.map fun v => (e,v)

def begin (s : State) (path : Path) (start : Option Nat) : Turn Walk (Option Nat) :=
  (s.enter path start).map vnodeOf

def follow (s : State) (frame : List UInt8) (cur v : Nat) (tail : Path) : Turn Walk (Option Nat) :=
  (s.splice frame cur v tail).map vnodeOf

def pick (s : State) (frame : Walk → List UInt8) (followLast : Bool) (w : Walk) (len : Nat)
    (last : Bool) : Turn Walk (Option Nat) :=
  match s.live w.cur (cstr (w.path.take len)) with
  | none => .stop none
  | some (e,v) =>
    if (!last || followLast) ∧ (s.vnode v).nodeType = .symlink then
      s.follow (frame w) w.cur v (w.path.drop len)
    else if last then .stop (some v)
    else .again ⟨s.reduce e,w.path.drop (len + 1),w.pathLen - (len + 1)⟩

def look (s : State) (frame : Walk → List UInt8) (followLast : Bool) (w : Walk) :
    Turn Walk (Option Nat) :=
  match (s.entry w.cur).vnode with
  | none => .stuck
  | some d =>
    if (s.vnode d).nodeType ≠ .directory then .stop none
    else match w.component with
    | .skip => .again { w with path := w.path.drop 1 }
    | .name len last => s.pick frame followLast w len last

def Resolves (s : State) (frame : Walk → List UInt8) (path : Path) (start : Option Nat)
    (follow : Bool) (v : Nat) : Prop :=
  ∃ fuel r, s.pathToEntry frame fuel path start follow = some r ∧ vnodeOf r = some v

end State

variable {s : State} {frame : Walk → List UInt8} {follow : Bool} {w w' : Walk} {path : Path}
variable {start : Option Nat} {name : Name} {parent v : Nat}

theorem lookupNew_same {α : Type} {g : Entry → α} {x : Nat}
    (hr : ∀ y : Entry, g { y with removed := false } = g y)
    (hc : ∀ y : Entry, g { y with children := s.numEntries :: y.children } = g y) :
    g ((s.lookupNew parent name).1.entry x) =
      g (if x = s.numEntries then .construct none (some parent) name none else s.entry x) := by
  simp only [State.lookupNew]
  split_ifs with h hx hx
  · rw [addChild_same hr hc,new_entry,if_pos hx]
  · rw [addChild_same hr hc,new_entry,if_neg hx]
  · rw [new_entry,if_pos hx]
  · rw [new_entry,if_neg hx]

theorem lookupNew_vnode {x : Nat} : ((s.lookupNew parent name).1.entry x).vnode =
    if x = s.numEntries then none else (s.entry x).vnode := by
  rw [lookupNew_same (g := Entry.vnode) (fun _ => rfl) fun _ => rfl]
  split_ifs with hx
  · rfl
  · rfl

theorem Tree.vnodeOf_negative (h : Tree s) {isLast : Bool} :
    vnodeOf (if isLast then s.numEntries else nullEntry,(s.lookupNew parent name).1) = none := by
  have hnull : nullEntry ≠ s.numEntries := Nat.ne_of_lt h.null_lt
  cases isLast with
  | false => simp [vnodeOf,lookupNew_vnode,hnull,h.null_vnode]
  | true => simp [vnodeOf,lookupNew_vnode]

theorem Tree.walkStep_map (h : Tree s) :
    (s.walkStep frame follow w).map vnodeOf = s.look frame follow w := by
  simp only [State.walkStep,State.look]
  cases (s.entry w.cur).vnode with
  | none => rfl
  | some d =>
    dsimp only
    split_ifs with hd
    · simp [vnodeOf,h.null_vnode]
    · cases w.component with
      | skip => rfl
      | name len isLast =>
        simp only [State.descend,State.pick,State.live]
        cases hfind : s.findChild w.cur (cstr (w.path.take len)) with
        | none => exact congrArg Turn.stop h.vnodeOf_negative
        | some e =>
          cases hv : (s.entry e).vnode with
          | none =>
            cases isLast with
            | false => simp [vnodeOf,h.null_vnode,hv]
            | true => simp [vnodeOf,hv]
          | some v =>
            simp only [Option.bind_some,hv,Option.map_some]
            split_ifs with hlink hlast
            · rfl
            · simp [vnodeOf,hv]
            · rfl

theorem endsFrom_map {t : Turn Walk (Nat × State)} (h : Tree s) {v : Option Nat} :
    EndsFrom (s.look frame follow) (t.map vnodeOf) v ↔
      ∃ r, EndsFrom (s.walkStep frame follow) t r ∧ vnodeOf r = v := by
  have hstep : s.look frame follow = fun w => (s.walkStep frame follow w).map vnodeOf :=
    funext fun w => h.walkStep_map.symm
  cases t with
  | again w =>
    simp only [Turn.map_again,EndsFrom,Ends,hstep,run_map,Option.map_eq_some_iff]
    exact ⟨fun ⟨n,r,hr,hv⟩ => ⟨r,⟨n,hr⟩,hv⟩,fun ⟨r,⟨n,hr⟩,hv⟩ => ⟨n,r,hr,hv⟩⟩
  | stop r =>
    simp only [Turn.map_stop,EndsFrom]
    exact ⟨fun hv => ⟨r,rfl,hv⟩,fun ⟨_,hr,hv⟩ => hr ▸ hv⟩
  | stuck => simp [EndsFrom]

theorem pathToEntry_iff {r : Nat × State} :
    (∃ fuel, s.pathToEntry frame fuel path start follow = some r) ↔
      EndsFrom (s.walkStep frame follow) (s.enter path start) r := by
  simp only [State.pathToEntry]
  cases s.enter path start with
  | again w => rfl
  | stop r' => simp [EndsFrom]
  | stuck => simp [EndsFrom]

theorem pathToEntry_unique {fuel fuel' : Nat} {r r' : Nat × State}
    (h : s.pathToEntry frame fuel path start follow = some r)
    (h' : s.pathToEntry frame fuel' path start follow = some r') : r = r' :=
  (pathToEntry_iff.mp ⟨fuel,h⟩).unique (pathToEntry_iff.mp ⟨fuel',h'⟩)

theorem resolves_of_bind (fuel : Nat)
    (h : (s.pathToEntry frame fuel path start follow).bind vnodeOf = some v) :
    s.Resolves frame path start follow v := by
  obtain ⟨r,hr,hv⟩ := Option.bind_eq_some_iff.mp h
  exact ⟨fuel,r,hr,hv⟩

theorem not_resolves {fuel : Nat} {r : Nat × State}
    (h : s.pathToEntry frame fuel path start follow = some r) (hr : vnodeOf r = none) :
    ¬s.Resolves frame path start follow v := by
  rintro ⟨fuel',r',h',hv⟩
  rw [← pathToEntry_unique h h',hr] at hv
  cases hv

theorem Tree.resolves_iff (h : Tree s) : s.Resolves frame path start follow v ↔
    EndsFrom (s.look frame follow) (s.begin path start) (some v) := by
  rw [State.begin,endsFrom_map h]
  constructor
  · rintro ⟨fuel,r,hr,hv⟩
    exact ⟨r,pathToEntry_iff.mp ⟨fuel,hr⟩,hv⟩
  · rintro ⟨r,hr,hv⟩
    obtain ⟨fuel,hfuel⟩ := pathToEntry_iff.mpr hr
    exact ⟨fuel,r,hfuel,hv⟩

theorem enter_again (h : s.enter path start = .again w) :
    w.cur = root ∨ ∃ e, start = some e ∧ w.cur = s.reduce e := by
  simp only [State.enter] at h
  split_ifs at h
  · cases h
    exact .inl rfl
  · cases start with
    | none => cases h
    | some e =>
      cases h
      exact .inr ⟨e,rfl,rfl⟩

theorem begin_again : s.begin path start = .again w ↔ s.enter path start = .again w := by
  rw [State.begin]
  cases s.enter path start with
  | again u => simp
  | stop r => simp
  | stuck => simp

theorem follow_again {frame : List UInt8} {cur : Nat} (h : s.follow frame cur v path = .again w) :
    s.enter (State.newPath frame ((s.vnode v).contents.take 128) (cstr path)) (some cur) =
      .again w := by
  have hsplice : s.splice frame cur v path = .again w := by
    rw [State.follow] at h
    cases hs : s.splice frame cur v path with
    | again u =>
      rw [hs] at h
      exact congrArg Turn.again (Turn.again.inj h)
    | stop r =>
      rw [hs] at h
      cases h
    | stuck =>
      rw [hs] at h
      cases h
  simp only [State.splice] at hsplice
  split_ifs at hsplice
  exact hsplice

theorem look_again (h : s.look frame follow w = .again w') : ∃ d,
    (s.entry w.cur).vnode = some d ∧ (s.vnode d).nodeType = .directory ∧
    (w.component = .skip ∧ w' = { w with path := w.path.drop 1 } ∨
      ∃ len last e v, w.component = .name len last ∧
        s.live w.cur (cstr (w.path.take len)) = some (e,v) ∧
        (((!last || follow) = true ∧ (s.vnode v).nodeType = .symlink) ∧
            s.follow (frame w) w.cur v (w.path.drop len) = .again w' ∨
          ¬((!last || follow) = true ∧ (s.vnode v).nodeType = .symlink) ∧ last = false ∧
            w' = ⟨s.reduce e,w.path.drop (len + 1),w.pathLen - (len + 1)⟩)) := by
  simp only [State.look] at h
  cases hv : (s.entry w.cur).vnode with
  | none => simp [hv] at h
  | some d =>
    simp only [hv] at h
    split_ifs at h with hdir
    refine ⟨d,rfl,not_not.mp hdir,?_⟩
    cases hcomp : w.component with
    | skip =>
      simp only [hcomp,Turn.again.injEq] at h
      exact .inl ⟨rfl,h.symm⟩
    | name len last =>
      simp only [hcomp,State.pick] at h
      cases hlive : s.live w.cur (cstr (w.path.take len)) with
      | none => simp [hlive] at h
      | some ev =>
        obtain ⟨e,v⟩ := ev
        simp only [hlive] at h
        refine .inr ⟨len,last,e,v,rfl,hlive,?_⟩
        split_ifs at h with hlink hlast
        · exact .inl ⟨hlink,h⟩
        · exact .inr ⟨hlink,by simpa using hlast,(Turn.again.inj h).symm⟩

theorem live_mem {d e v : Nat} {n : Name} (h : s.live d n = some (e,v)) :
    s.findChild d n = some e ∧ (s.entry e).vnode = some v := by
  simp only [State.live,Option.bind_eq_some_iff,Option.map_eq_some_iff,Prod.mk.injEq] at h
  obtain ⟨c,hc,v',hv',rfl,rfl⟩ := h
  exact ⟨hc,hv'⟩

structure Agree (s s' : State) : Prop where
  vnode : s'.vnode = s.vnode
  entry : ∀ e, (s'.entry e).vnode = (s.entry e).vnode
  reduce : ∀ e, s'.reduce e = s.reduce e
  live : ∀ parent name, s'.live parent name = s.live parent name

theorem enter_state {r : Nat × State} (h : s.enter path start = .stop r) : r.2 = s := by
  simp only [State.enter] at h
  split_ifs at h
  · exact (Turn.stop.inj h) ▸ rfl
  · exact (Turn.stop.inj h) ▸ rfl
  · cases start with
    | none => exact (Turn.stop.inj h) ▸ rfl
    | some e => cases h

namespace Agree

variable {s' : State}

theorem begin_eq (h : Agree s s') : s'.begin path start = s.begin path start := by
  simp only [State.begin,State.enter]
  split_ifs
  · simp [vnodeOf,h.entry]
  · simp [vnodeOf,h.entry]
  · rfl
  · cases start with
    | none => simp [vnodeOf,h.entry]
    | some e => simp [h.reduce]

theorem follow_eq (h : Agree s s') {frame : List UInt8} {cur : Nat} :
    s'.follow frame cur v path = s.follow frame cur v path := by
  simp only [State.follow,State.splice,h.vnode]
  split_ifs
  · simp [vnodeOf,h.entry]
  · rfl
  · exact h.begin_eq

theorem look_eq (h : Agree s s') : s'.look frame follow w = s.look frame follow w := by
  simp only [State.look,State.pick,h.entry,h.vnode,h.live,h.reduce,h.follow_eq]

theorem resolves (h : Agree s s') (hs : Tree s) (hs' : Tree s') :
    s'.Resolves frame path start follow v ↔ s.Resolves frame path start follow v := by
  have hlook : s'.look frame follow = s.look frame follow := funext fun w => h.look_eq
  rw [hs.resolves_iff,hs'.resolves_iff,h.begin_eq,hlook]

end Agree

theorem lookupNew_children (s : State) (parent : Nat) (name : Name) (x : Nat) :
    ((s.lookupNew parent name).1.entry x).children =
      (if x = s.numEntries then [] else (s.entry x).children) ∨
    x = parent ∧ ((s.lookupNew parent name).1.entry x).children =
      s.numEntries :: if x = s.numEntries then [] else (s.entry x).children := by
  have hnew : ((s.new (.construct none (some parent) name none)).entry x).children =
      if x = s.numEntries then [] else (s.entry x).children := by
    rw [new_entry]
    split_ifs
    · rfl
    · rfl
  simp only [State.lookupNew]
  split_ifs with h hx hx
  · by_cases hp : x = parent
    · exact .inr ⟨hp,by rw [addChild_children,if_pos hp,hnew,if_pos hx]⟩
    · exact .inl (by rw [addChild_children,if_neg hp,hnew,if_pos hx])
  · by_cases hp : x = parent
    · exact .inr ⟨hp,by rw [addChild_children,if_pos hp,hnew,if_neg hx]⟩
    · exact .inl (by rw [addChild_children,if_neg hp,hnew,if_neg hx])
  · exact .inl (hnew.trans (if_pos hx))
  · exact .inl (hnew.trans (if_neg hx))

end SabaOS.Vfs
