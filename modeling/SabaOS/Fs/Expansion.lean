import Mathlib.Data.Set.Finite.List
import SabaOS.Lib.Iterate
import SabaOS.Lib.Window
import SabaOS.Fs.Proper

namespace SabaOS.Vfs

open SabaOS.Fs SabaOS.Lib

def State.followed (s : State) (follow : Bool) (w : Walk) : Option (Nat × Path) :=
  match (s.entry w.cur).vnode with
  | none => none
  | some d =>
    if (s.vnode d).nodeType ≠ .directory then none
    else match w.component with
    | .skip => none
    | .name len last =>
      match s.live w.cur (cstr (w.path.take len)) with
      | none => none
      | some (_,v) =>
        if (!last || follow) ∧ (s.vnode v).nodeType = .symlink then some (v,w.path.drop len) else none

def newPathSize : Nat := 256

-- The target is read to the front of the buffer, and `strcpy` puts the rest and its NUL behind it.
def State.expansionWrites (s : State) (v : Nat) (tail : Path) : List Window :=
  let ret := min 128 (s.vnode v).contents.length
  ⟨0,ret⟩ :: if 127 < ret then [] else [⟨ret,strlen tail + 1⟩]

def State.Expands (s : State) (v : Nat) (tail : Path) : Prop :=
  128 ≤ (s.vnode v).contents.length ∨
    (s.vnode v).contents.length + strlen tail + 1 ≤ newPathSize

def State.Passes (s : State) (frame : Walk → List UInt8) (path : Path) (start : Option Nat)
    (follow : Bool) (w : Walk) : Prop :=
  ∃ w₀, s.enter path start = .again w₀ ∧ Visits (s.walkStep frame follow) w₀ w

def State.InBuffer (s : State) (frame : Walk → List UInt8) (path : Path) (start : Option Nat)
    (follow : Bool) : Prop :=
  ∀ w, s.Passes frame path start follow w → ∀ v tail, s.followed follow w = some (v,tail) →
    ∀ x ∈ s.expansionWrites v tail, x.Inside newPathSize

def State.Terminates (s : State) (frame : Walk → List UInt8) (path : Path) (start : Option Nat)
    (follow : Bool) : Prop :=
  ∃ fuel r, s.pathToEntry frame fuel path start follow = some r

variable {s : State} {frame : Walk → List UInt8} {follow : Bool} {w : Walk} {path tail : Path}
variable {start : Option Nat} {v : Nat}

section Writes

theorem expansionWrites_inside : (∀ x ∈ s.expansionWrites v tail, x.Inside newPathSize) ↔
    s.Expands v tail := by
  have hread : (⟨0,min 128 (s.vnode v).contents.length⟩ : Window).Inside newPathSize :=
    Window.inside_iff.mpr (.inr (by simp only [newPathSize]; omega))
  rw [State.expansionWrites,State.Expands]
  split_ifs with hlong
  · simp only [List.mem_singleton,forall_eq]
    exact iff_of_true hread (.inl (by omega))
  · simp only [List.mem_cons,List.not_mem_nil,or_false,forall_eq_or_imp,forall_eq,
      Window.inside_iff]
    simp only [newPathSize] at *
    omega

theorem enter_ne_stuck : s.enter path start ≠ .stuck := by
  simp only [State.enter]
  split_ifs
  · simp
  · simp
  · simp
  · cases start with
    | none => simp
    | some e => simp

theorem splice_stuck {f : List UInt8} {cur : Nat} :
    s.splice f cur v tail = .stuck ↔ ¬s.Expands v tail := by
  rw [State.splice,State.Expands,List.length_take,newPathSize]
  split_ifs with hlong hover
  · exact iff_of_false (by simp) (not_not.mpr (.inl (by omega)))
  · exact iff_of_true rfl (by omega)
  · exact iff_of_false enter_ne_stuck (by omega)

end Writes

section Followed

theorem walkStep_followed (h : s.followed follow w = some (v,tail)) :
    s.walkStep frame follow w = s.splice (frame w) w.cur v tail := by
  rw [State.followed] at h
  cases hd : (s.entry w.cur).vnode with
  | none => simp [hd] at h
  | some d =>
    simp only [hd] at h
    split_ifs at h with hdir
    cases hc : w.component with
    | skip => simp [hc] at h
    | name len last =>
      simp only [hc] at h
      cases hlive : s.live w.cur (cstr (w.path.take len)) with
      | none => simp [hlive] at h
      | some ev =>
        obtain ⟨e,v'⟩ := ev
        simp only [hlive] at h
        split_ifs at h with hlink
        cases h
        obtain ⟨hfind,hv⟩ := live_mem hlive
        simp only [State.walkStep,hd,if_neg hdir,hc,State.descend,hfind,hv,if_pos hlink]

theorem walkStep_stuck : s.walkStep frame follow w = .stuck ↔ (s.entry w.cur).vnode = none ∨
    ∃ v tail, s.followed follow w = some (v,tail) ∧ ¬s.Expands v tail := by
  constructor
  · intro h
    cases hd : (s.entry w.cur).vnode with
    | none => exact .inl rfl
    | some d =>
      refine .inr ?_
      simp only [State.walkStep,hd] at h
      split_ifs at h with hdir
      cases hc : w.component with
      | skip => simp [hc] at h
      | name len last =>
        simp only [hc,State.descend] at h
        cases hfind : s.findChild w.cur (cstr (w.path.take len)) with
        | none => simp [hfind] at h
        | some e =>
          cases hv : (s.entry e).vnode with
          | none => simp [hfind,hv] at h
          | some v =>
            simp only [hfind,hv] at h
            split_ifs at h with hlink
            refine ⟨v,w.path.drop len,?_,splice_stuck.mp h⟩
            simp only [State.followed,hd,if_neg hdir,hc,State.live,hfind,Option.bind_some,hv,
              Option.map_some,if_pos hlink]
  · rintro (hd | ⟨v,tail,hfollowed,hover⟩)
    · simp only [State.walkStep,hd]
    · rw [walkStep_followed hfollowed]
      exact splice_stuck.mpr hover

end Followed

section Cycle

variable {w' : Walk}

theorem component_nonempty (h : w.component = .skip ∨ ∃ len, w.component = .name len false) :
    w.path ≠ [] := by
  intro hnil
  rw [Walk.component,hnil] at h
  rcases h with h | ⟨len,h⟩
  · cases h
  · cases h

structure Plain (s : State) (w w' : Walk) : Prop where
  path : w'.path.length < w.path.length
  pathLen : w'.pathLen ≤ w.pathLen
  cur : w'.cur = w.cur ∨ ∃ e ∈ (s.entry w.cur).children, w'.cur = s.reduce e

theorem walkStep_plain (hstep : s.walkStep frame follow w = .again w')
    (h : s.followed follow w = none) : Plain s w w' := by
  simp only [State.walkStep] at hstep
  rw [State.followed] at h
  cases hd : (s.entry w.cur).vnode with
  | none => simp [hd] at hstep
  | some d =>
    simp only [hd] at hstep h
    split_ifs at hstep h with hdir
    cases hc : w.component with
    | skip =>
      simp only [hc,Turn.again.injEq] at hstep
      have hpos := List.length_pos_iff.mpr (component_nonempty (.inl hc))
      rw [← hstep]
      refine ⟨?_,Nat.le_refl _,.inl rfl⟩
      simp only [List.length_drop]
      omega
    | name len last =>
      simp only [hc,State.descend,State.live] at hstep h
      cases hfind : s.findChild w.cur (cstr (w.path.take len)) with
      | none => simp [hfind] at hstep
      | some e =>
        cases hv : (s.entry e).vnode with
        | none => simp [hfind,hv] at hstep
        | some v =>
          simp only [hfind,hv,Option.bind_some,Option.map_some] at hstep h
          split_ifs at hstep h with hlink hlast
          obtain rfl : last = false := by simpa using hlast
          have hpos := List.length_pos_iff.mpr (component_nonempty (.inr ⟨len,hc⟩))
          rw [← Turn.again.inj hstep]
          refine ⟨?_,Nat.sub_le _ _,.inr ⟨e,List.mem_of_find?_eq_some hfind,rfl⟩⟩
          simp only [List.length_drop]
          omega

theorem followed_or_shorter (h : Relation.TransGen (Next (s.walkStep frame follow)) w w') :
    (∃ u, Visits (s.walkStep frame follow) w u ∧ Visits (s.walkStep frame follow) u w' ∧
      (s.followed follow u).isSome) ∨ w'.path.length < w.path.length := by
  induction h with
  | @single u hstep =>
    cases hf : s.followed follow w with
    | none => exact .inr ((walkStep_plain hstep hf).path)
    | some x => exact .inl ⟨w,.refl,.single hstep,by rw [hf]; rfl⟩
  | @tail u u' hu hstep ih =>
    rcases ih with ⟨x,hwx,hxu,hx⟩ | hlt
    · exact .inl ⟨x,hwx,hxu.tail hstep,hx⟩
    · cases hf : s.followed follow u with
      | none => exact .inr (Nat.lt_trans ((walkStep_plain hstep hf).path) hlt)
      | some x => exact .inl ⟨u,hu.to_reflTransGen,.single hstep,by rw [hf]; rfl⟩

theorem cyclic_followed (h : Cyclic (s.walkStep frame follow) w) :
    ∃ u, Visits (s.walkStep frame follow) w u ∧ (s.followed follow u).isSome ∧
      Cyclic (s.walkStep frame follow) u := by
  rcases followed_or_shorter h with ⟨u,hwu,huw,hu⟩ | hlt
  · exact ⟨u,hwu,hu,(Relation.TransGen.trans_right huw h).trans_left hwu⟩
  · exact absurd hlt (Nat.lt_irrefl _)

end Cycle

section Finite

def Bounded (frame : Walk → List UInt8) (n : Nat) : Prop := ∀ w, (frame w).length ≤ n

structure Small (s : State) (k n : Nat) (w : Walk) : Prop where
  cur : w.cur < s.numEntries + k
  path : w.path.length ≤ n
  pathLen : w.pathLen ≤ n

theorem byte_finite : Finite UInt8 :=
  Finite.of_injective UInt8.toFin fun _ _ h => UInt8.toFin_inj.mp h

theorem small_finite (s : State) (k n : Nat) : {w | Small s k n w}.Finite := by
  have := byte_finite
  have hpaths : {l : List UInt8 | l.length ≤ n}.Finite := List.finite_length_le UInt8 n
  have hall := ((Set.finite_lt_nat (s.numEntries + k)).prod hpaths).prod (Set.finite_le_nat n)
  refine (hall.image fun x => (⟨x.1.1,x.1.2,x.2⟩ : Walk)).subset fun w hw => ?_
  exact ⟨((w.cur,w.path),w.pathLen),⟨⟨hw.cur,hw.path⟩,hw.pathLen⟩,rfl⟩

variable {k n : Nat} {w' : Walk}

theorem strlen_le (path : Path) : strlen path ≤ path.length :=
  (List.takeWhile_sublist _).length_le

theorem enter_small (hroot : root < s.numEntries)
    (hstart : ∀ e, start = some e → s.reduce e < s.numEntries + k)
    (h : s.enter path start = .again w) : Small s k path.length w := by
  have hlen := strlen_le path
  simp only [State.enter] at h
  split_ifs at h
  · rw [← Turn.again.inj h]
    refine ⟨Nat.lt_add_right k hroot,?_,?_⟩
    · simp only [List.length_drop]
      omega
    · dsimp only
      omega
  · cases start with
    | none => cases h
    | some e =>
      rw [← Turn.again.inj h]
      exact ⟨hstart e rfl,Nat.le_refl _,hlen⟩

theorem Small.mono {m : Nat} (h : Small s k n w) (hnm : n ≤ m) : Small s k m w :=
  ⟨h.cur,Nat.le_trans h.path hnm,Nat.le_trans h.pathLen hnm⟩

theorem walkStep_small (ht : Tree s) {m : Nat} (hframe : Bounded frame m) (hn : newPathSize + m ≤ n)
    (hw : Small s k n w) (h : s.walkStep frame follow w = .again w') : Small s k n w' := by
  have hroot : root < s.numEntries := Nat.lt_trans Nat.zero_lt_one ht.null_lt
  have hcur : w.cur < s.numEntries := by
    cases hd : (s.entry w.cur).vnode with
    | none => rw [walkStep_stuck.mpr (.inl hd)] at h; cases h
    | some d => exact ht.lt_of_vnode hd
  cases hf : s.followed follow w with
  | some x =>
    rw [walkStep_followed hf,State.splice] at h
    split_ifs at h with hlong hover
    have hsize : (State.newPath (frame w) ((s.vnode x.1).contents.take 128) (cstr x.2)).length ≤ n := by
      have hf := hframe w
      have hstr : (cstr x.2).length = strlen x.2 := rfl
      simp only [State.newPath,List.length_append,List.length_replicate,newPathSize] at *
      omega
    refine (enter_small hroot ?_ h).mono hsize
    rintro e ⟨⟩
    exact Nat.lt_add_right k (ht.reduceWithin_lt _ hcur)
  | none =>
    have hplain := walkStep_plain h hf
    refine ⟨?_,Nat.le_trans (Nat.le_of_lt hplain.path) hw.path,Nat.le_trans hplain.pathLen hw.pathLen⟩
    rcases hplain.cur with heq | ⟨e,he,heq⟩
    · exact heq ▸ hw.cur
    · exact heq ▸ Nat.lt_add_right k (ht.reduceWithin_lt _ (ht.child_lt _ e he))

theorem visits_finite (ht : Tree s) {m : Nat} (hframe : Bounded frame m)
    (h : s.enter path start = .again w) :
    {w' | Visits (s.walkStep frame follow) w w'}.Finite := by
  have hroot : root < s.numEntries := Nat.lt_trans Nat.zero_lt_one ht.null_lt
  have hfirst : Small s ((start.map s.reduce).getD 0 + 1) (path.length + (newPathSize + m)) w := by
    refine (enter_small hroot ?_ h).mono (Nat.le_add_right _ _)
    rintro e rfl
    simp only [Option.map_some,Option.getD_some]
    omega
  refine (small_finite s ((start.map s.reduce).getD 0 + 1) (path.length + (newPathSize + m))).subset
    fun w' hw' => ?_
  induction hw' with
  | refl => exact hfirst
  | tail _ hstep ih => exact walkStep_small ht hframe (Nat.le_add_left _ _) ih hstep

end Finite

theorem expansion_writes_iff : s.InBuffer frame path start follow ↔
    ∀ w, s.Passes frame path start follow w → ∀ v tail, s.followed follow w = some (v,tail) →
      s.Expands v tail := by
  constructor
  · intro h w hw v tail hf
    exact expansionWrites_inside.mp (h w hw v tail hf)
  · intro h w hw v tail hf
    exact expansionWrites_inside.mpr (h w hw v tail hf)

def linkResult (target : Path) : Result :=
  boot.perform plainEnv rootProcess 2 atFdcwd [47,97] (.symlink target)

theorem shortLink_isSome : (linkResult [120]).isSome := by decide +kernel

def shortLink : State := ((linkResult [120]).get shortLink_isSome).1

theorem rest_overflows : ¬shortLink.InBuffer plainEnv.frame
    ([47,97,47] ++ List.replicate 255 121) none true := by
  intro h
  have hlen : strlen ([47,97,47] ++ List.replicate 255 121) = 258 := by decide +kernel
  have hpasses : shortLink.Passes plainEnv.frame ([47,97,47] ++ List.replicate 255 121) none true
      ⟨root,[97,47] ++ List.replicate 255 121,257⟩ := by
    refine ⟨_,?_,.refl⟩
    rw [State.enter,hlen]
    rfl
  have hwrites := h _ hpasses 1 (47 :: List.replicate 255 121) (by decide +kernel)
  have hlast := hwrites ⟨1,257⟩ (by decide +kernel)
  simp [Window.inside_iff,newPathSize] at hlast

theorem resolution_ends_iff {n : Nat} (ht : Tree s) (hframe : Bounded frame n) :
    s.Terminates frame path start follow ↔
      ∀ w, s.Passes frame path start follow w → (s.entry w.cur).vnode ≠ none ∧
        ∀ v tail, s.followed follow w = some (v,tail) →
          s.Expands v tail ∧ ¬Cyclic (s.walkStep frame follow) w := by
  have hends : s.Terminates frame path start follow ↔
      ∃ r, EndsFrom (s.walkStep frame follow) (s.enter path start) r := by
    rw [State.Terminates,exists_comm]
    exact exists_congr fun r => pathToEntry_iff
  rw [hends]
  cases henter : s.enter path start with
  | stuck => exact absurd henter enter_ne_stuck
  | stop r =>
    refine iff_of_true ⟨r,rfl⟩ ?_
    rintro w ⟨w₀,hw₀,-⟩
    cases henter.symm.trans hw₀
  | again w₀ =>
    have hpasses : ∀ w, s.Passes frame path start follow w ↔
        Visits (s.walkStep frame follow) w₀ w := by
      intro w
      rw [State.Passes,henter]
      simp
    simp only [EndsFrom,ends_iff_acyclic (visits_finite ht hframe henter),hpasses]
    constructor
    · intro h w hw
      obtain ⟨hstuck,hcycle⟩ := h w hw
      refine ⟨fun hd => hstuck (walkStep_stuck.mpr (.inl hd)),fun v tail hf => ⟨?_,hcycle⟩⟩
      by_contra hover
      exact hstuck (walkStep_stuck.mpr (.inr ⟨v,tail,hf,hover⟩))
    · intro h w hw
      obtain ⟨hd,hfollowed⟩ := h w hw
      refine ⟨fun hstuck => ?_,fun hcycle => ?_⟩
      · rcases walkStep_stuck.mp hstuck with hnone | ⟨v,tail,hf,hover⟩
        · exact hd hnone
        · exact hover (hfollowed v tail hf).1
      · obtain ⟨u,hwu,hu,hback⟩ := cyclic_followed hcycle
        obtain ⟨⟨v,tail⟩,hf⟩ := Option.isSome_iff_exists.mp hu
        exact ((h u (hw.trans hwu)).2 v tail hf).2 hback

theorem Proper.shortLink : Proper shortLink :=
  Proper.boot.perform (Option.some_get shortLink_isSome).symm

theorem resolution_ends_short : shortLink.Terminates plainEnv.frame [47,97] none true := by
  have hframe : Bounded plainEnv.frame 0 := fun _ => Nat.le_refl 0
  refine (resolution_ends_iff Proper.shortLink.tree hframe).mpr ?_
  let w₁ : Walk := ⟨root,State.newPath [] [120] [],strlen (State.newPath [] [120] [])⟩
  have hfirst : shortLink.walkStep plainEnv.frame true ⟨root,[97],1⟩ = .again w₁ := rfl
  have hlast : shortLink.walkStep plainEnv.frame true w₁ =
      .stop (5,(shortLink.lookupNew root [120]).1) := rfl
  rintro w ⟨w₀,henter,hvisits⟩
  obtain rfl : w₀ = ⟨root,[97],1⟩ := (Turn.again.inj henter).symm
  rcases visits_again hfirst hvisits with rfl | hrest
  · refine ⟨by decide +kernel,fun v tail hf => ?_⟩
    obtain ⟨rfl,rfl⟩ : 1 = v ∧ [] = tail := by simpa using (show some (1,[]) = some (v,tail) from hf)
    exact ⟨.inr (by decide +kernel),Ends.not_cyclic ((ends_again hfirst).mpr (.stop hlast))⟩
  · obtain rfl := visits_stop hlast hrest
    refine ⟨by decide +kernel,fun v tail hf => ?_⟩
    have hnone : shortLink.followed true w₁ = none := by decide +kernel
    cases hnone.symm.trans hf

theorem selfLink_isSome : (linkResult [47,97]).isSome := by decide +kernel

def selfLink : State := ((linkResult [47,97]).get selfLink_isSome).1

theorem self_link_never_ends : ¬selfLink.Terminates plainEnv.frame [47,97] none true := by
  rintro ⟨fuel,r,hr⟩
  have hends : Ends (selfLink.walkStep plainEnv.frame true) ⟨root,[97],1⟩ r :=
    pathToEntry_iff.mp ⟨fuel,hr⟩
  let w : Walk := ⟨root,(State.newPath [] [47,97] []).drop 1,
    strlen (State.newPath [] [47,97] []) - 1⟩
  have hfirst : selfLink.walkStep plainEnv.frame true ⟨root,[97],1⟩ = .again w := rfl
  have hloop : selfLink.walkStep plainEnv.frame true w = .again w := rfl
  exact Ends.not_cyclic ((ends_again hfirst).mp hends) (.single hloop)

end SabaOS.Vfs
