import SabaOS.Fs.Links
import SabaOS.Fs.Shape

namespace SabaOS.Vfs

open SabaOS.Fs SabaOS.Lib

inductive Arrives (s : State) (P : Nat → Prop) (r : Nat × State) : Prop where
  | fixed (hs : r.2 = s) (he : r.1 = nullEntry ∨ r.1 = root)
  | child (d : Nat) (hd : P d) (hs : r.2 = s) (he : r.1 ∈ (s.entry d).children)
  | fresh (d : Nat) (name : Name) (hd : P d) (hdir : s.IsDir d) (hnone : s.findChild d name = none)
      (hname : CleanName name) (hs : r.2 = (s.lookupNew d name).1)
      (he : r.1 = s.numEntries ∨ r.1 = nullEntry)

variable {s : State} {frame : Walk → List UInt8} {follow : Bool} {w : Walk} {path : Path}
variable {start : Option Nat} {v : Nat} {r : Nat × State} {P : Nat → Prop}

theorem component_clean {len : Nat} {last : Bool} (h : w.component = .name len last) :
    CleanName (cstr (w.path.take len)) := by
  refine ⟨?_,zero_notMem_cstr⟩
  rw [cstr_take]
  rw [Walk.component] at h
  cases hs : strchr w.path slash with
  | none =>
    have hall := List.findIdx?_eq_none_iff.mp hs
    exact fun hmem => by simpa using hall slash (List.mem_of_mem_take hmem)
  | some i =>
    obtain ⟨hi,-,hbefore⟩ := List.findIdx?_eq_some_iff_getElem.mp hs
    have hlen : len = i := by
      simp only [hs] at h
      split_ifs at h
      · exact (Component.name.inj h).1.symm
      · exact (Component.name.inj h).1.symm
    intro hmem
    obtain ⟨j,hj,heq⟩ := List.mem_take_iff_getElem.mp hmem
    have hji : j < i := hlen ▸ Nat.lt_of_lt_of_le hj (Nat.min_le_left _ _)
    exact hbefore j hji (by simpa using heq)

theorem enter_stop (h : s.enter path start = .stop r) : r.2 = s ∧ (r.1 = nullEntry ∨ r.1 = root) := by
  simp only [State.enter] at h
  split_ifs at h
  · exact Turn.stop.inj h ▸ ⟨rfl,.inl rfl⟩
  · exact Turn.stop.inj h ▸ ⟨rfl,.inr rfl⟩
  · cases start with
    | none => exact Turn.stop.inj h ▸ ⟨rfl,.inl rfl⟩
    | some e => cases h

theorem descend_arrives {len : Nat} {last : Bool} (hcur : P w.cur) (hdir : s.IsDir w.cur)
    (hcomp : w.component = .name len last) (h : s.descend frame follow w len last = .stop r) :
    Arrives s P r := by
  simp only [State.descend] at h
  cases hfind : s.findChild w.cur (cstr (w.path.take len)) with
  | none =>
    simp only [hfind] at h
    rw [← Turn.stop.inj h]
    refine .fresh w.cur _ hcur hdir hfind (component_clean hcomp) rfl ?_
    cases last with
    | true => exact .inl rfl
    | false => exact .inr rfl
  | some e =>
    have hmem := List.mem_of_find?_eq_some hfind
    simp only [hfind] at h
    cases hv : (s.entry e).vnode with
    | none =>
      simp only [hv] at h
      rw [← Turn.stop.inj h]
      cases last with
      | true => exact .child w.cur hcur rfl hmem
      | false => exact .fixed rfl (.inl rfl)
    | some v =>
      simp only [hv,State.splice] at h
      split_ifs at h
      · rw [← Turn.stop.inj h]
        exact .fixed rfl (.inl rfl)
      · exact .fixed (enter_stop h).1 (enter_stop h).2
      · rw [← Turn.stop.inj h]
        exact .child w.cur hcur rfl hmem

theorem walkStep_arrives (hcur : P w.cur) (h : s.walkStep frame follow w = .stop r) :
    Arrives s P r := by
  simp only [State.walkStep] at h
  cases hd : (s.entry w.cur).vnode with
  | none => simp [hd] at h
  | some d =>
    simp only [hd] at h
    split_ifs at h with hdir
    · rw [← Turn.stop.inj h]
      exact .fixed rfl (.inl rfl)
    · cases hc : w.component with
      | skip => simp [hc] at h
      | name len last =>
        simp only [hc] at h
        exact descend_arrives hcur ⟨d,hd,not_not.mp hdir⟩ hc h

theorem Tree.pathToEntry_arrives (ht : Tree s) (hroot : P root)
    (hstart : ∀ x, start = some x → P (s.reduce x))
    (hchild : ∀ d c, P d → c ∈ (s.entry d).children → P (s.reduce c))
    (hfix : ∀ d, P d → P (s.reduce d)) {fuel : Nat}
    (h : s.pathToEntry frame fuel path start follow = some r) : Arrives s P r := by
  have hends := pathToEntry_iff.mp ⟨fuel,h⟩
  cases henter : s.enter path start with
  | stuck =>
    rw [henter] at hends
    exact hends.elim
  | stop r' =>
    rw [henter] at hends
    cases hends
    exact .fixed (enter_stop henter).1 (enter_stop henter).2
  | again w =>
    rw [henter] at hends
    obtain ⟨u,hvisits,hstop⟩ := Ends.last hends
    have hcur : P u.cur := visits_within hroot hchild hfix (enter_within hroot hstart henter)
      (ht.visits_iff.mp hvisits)
    exact walkStep_arrives hcur hstop

end SabaOS.Vfs
