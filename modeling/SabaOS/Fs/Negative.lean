import Mathlib.Data.List.Find
import SabaOS.Fs.Resolve

namespace SabaOS.Vfs

open SabaOS.Fs SabaOS.Lib

variable {s : State} {frame : Walk → List UInt8} {follow : Bool} {w : Walk} {path : Path}
variable {start : Option Nat} {name : Name} {parent v : Nat} {r : Nat × State}

theorem lookupNew_numEntries : (s.lookupNew parent name).1.numEntries = s.numEntries + 1 := by
  simp only [State.lookupNew]
  split_ifs
  · rfl
  · rfl

theorem lookupNew_vnodes : (s.lookupNew parent name).1.vnode = s.vnode := by
  simp only [State.lookupNew]
  split_ifs
  · rfl
  · rfl

theorem Tree.lookupNew_redirect (h : Tree s) (e : Nat) :
    ((s.lookupNew parent name).1.entry e).redirect = (s.entry e).redirect := by
  rw [lookupNew_same (g := Entry.redirect) (fun _ => rfl) fun _ => rfl]
  split_ifs with he
  · rw [h.blank e (by omega)]
    rfl
  · rfl

theorem Tree.lookupNew_reduce (h : Tree s) (e : Nat) :
    (s.lookupNew parent name).1.reduce e = s.reduce e := by
  rw [State.reduce,lookupNew_numEntries,reduceWithin_congr h.lookupNew_redirect]
  exact reduceWithin_succ (h.grounded e)

theorem Tree.lookupNew (h : Tree s) (hp : parent < s.numEntries) :
    Tree (s.lookupNew parent name).1 := by
  have hnew : Tree (s.new (.construct none (some parent) name none)) := by
    refine h.new rfl ?_ ?_
    · rintro q ⟨⟩
      exact hp
    · rintro r ⟨⟩
  simp only [State.lookupNew]
  split_ifs
  · exact hnew.addChild (Nat.lt_succ_of_lt hp) (Nat.lt_succ_self _)
  · exact hnew

theorem lookupNew_name {c : Nat} (hc : c < s.numEntries) :
    ((s.lookupNew parent name).1.entry c).name = (s.entry c).name := by
  rw [lookupNew_same (g := Entry.name) (fun _ => rfl) fun _ => rfl,if_neg (Nat.ne_of_lt hc)]

theorem Tree.lookupNew_find (h : Tree s) (d : Nat) (n : Name) :
    (s.entry d).children.find? (fun c => ((s.lookupNew parent name).1.entry c).name = n) =
      s.findChild d n := by
  refine List.find?_congr fun c hc => ?_
  rw [lookupNew_name (h.child_lt d c hc)]

theorem Tree.lookupNew_live (h : Tree s) (hp : parent < s.numEntries)
    (hnone : s.findChild parent name = none) (d : Nat) (n : Name) :
    (s.lookupNew parent name).1.live d n = s.live d n := by
  have hback : ∀ e, s.findChild d n = some e →
      ((s.lookupNew parent name).1.entry e).vnode = (s.entry e).vnode := by
    intro e he
    have hlt := h.child_lt d e (List.mem_of_find?_eq_some he)
    rw [lookupNew_vnode,if_neg (Nat.ne_of_lt hlt)]
  have hsame : (s.findChild d n).bind (fun e =>
      ((s.lookupNew parent name).1.entry e).vnode.map fun v => (e,v)) = s.live d n := by
    rw [State.live]
    cases he : s.findChild d n with
    | none => rfl
    | some e => simp [hback e he]
  have hblank : (if d = s.numEntries then [] else (s.entry d).children) = (s.entry d).children := by
    split_ifs with hd
    · rw [h.blank d (by omega)]
      rfl
    · rfl
  rcases lookupNew_children s parent name d with heq | ⟨rfl,heq⟩
  · rw [State.live,State.findChild,heq,hblank,h.lookupNew_find]
    exact hsame
  · have hnew : ((s.lookupNew d name).1.entry s.numEntries).name = name := by
      rw [lookupNew_same (g := Entry.name) (fun _ => rfl) fun _ => rfl,if_pos rfl]
      rfl
    rw [State.live,State.findChild,heq,hblank,List.find?_cons]
    by_cases hn : n = name
    · subst hn
      simp only [hnew,decide_true,Option.bind_some,lookupNew_vnode,if_pos]
      rw [State.live,hnone]
      rfl
    · simp only [hnew,decide_eq_false (Ne.symm hn)]
      rw [h.lookupNew_find]
      exact hsame

theorem Tree.lookupNew_agree (h : Tree s) (hp : parent < s.numEntries)
    (hnone : s.findChild parent name = none) : Agree s (s.lookupNew parent name).1 where
  vnode := lookupNew_vnodes
  entry e := by
    rw [lookupNew_vnode]
    split_ifs with he
    · rw [h.blank e (by omega)]
      rfl
    · rfl
  reduce := h.lookupNew_reduce
  live := h.lookupNew_live hp hnone

theorem Agree.refl (s : State) : Agree s s :=
  ⟨rfl,fun _ => rfl,fun _ => rfl,fun _ _ => rfl⟩

theorem splice_state {frame : List UInt8} {cur : Nat}
    (h : s.splice frame cur v path = .stop r) : r.2 = s := by
  simp only [State.splice] at h
  split_ifs at h
  · exact (Turn.stop.inj h) ▸ rfl
  · exact enter_state h

theorem descend_state {len : Nat} {last : Bool} (h : s.descend frame follow w len last = .stop r) :
    r.2 = s ∨ ∃ name, s.findChild w.cur name = none ∧ r.2 = (s.lookupNew w.cur name).1 ∧
      r.1 = if last then s.numEntries else nullEntry := by
  simp only [State.descend] at h
  cases hfind : s.findChild w.cur (cstr (w.path.take len)) with
  | none =>
    simp only [hfind,Turn.stop.injEq] at h
    subst h
    exact .inr ⟨_,hfind,rfl,rfl⟩
  | some e =>
    left
    simp only [hfind] at h
    cases hv : (s.entry e).vnode with
    | none =>
      simp only [hv,Turn.stop.injEq] at h
      exact h ▸ rfl
    | some v =>
      simp only [hv] at h
      split_ifs at h
      · exact splice_state h
      · exact (Turn.stop.inj h) ▸ rfl

theorem walkStep_state (h : s.walkStep frame follow w = .stop r) :
    r.2 = s ∨ ∃ name d, (s.entry w.cur).vnode = some d ∧ s.findChild w.cur name = none ∧
      r.2 = (s.lookupNew w.cur name).1 ∧ (r.1 = s.numEntries ∨ r.1 = nullEntry) := by
  simp only [State.walkStep] at h
  cases hv : (s.entry w.cur).vnode with
  | none => simp [hv] at h
  | some d =>
    simp only [hv] at h
    split_ifs at h
    · exact .inl ((Turn.stop.inj h) ▸ rfl)
    · cases hc : w.component with
      | skip => simp [hc] at h
      | name len last =>
        simp only [hc] at h
        rcases descend_state h with hs | ⟨name,hnone,hs,hr⟩
        · exact .inl hs
        · refine .inr ⟨name,d,rfl,hnone,hs,?_⟩
          cases last with
          | true => exact .inl hr
          | false => exact .inr hr

theorem pathToEntry_state {fuel : Nat} (h : s.pathToEntry frame fuel path start follow = some r) :
    r.2 = s ∨ ∃ cur name d, (s.entry cur).vnode = some d ∧ s.findChild cur name = none ∧
      r.2 = (s.lookupNew cur name).1 ∧ (r.1 = s.numEntries ∨ r.1 = nullEntry) := by
  have hends := pathToEntry_iff.mp ⟨fuel,h⟩
  cases henter : s.enter path start with
  | again w =>
    rw [henter] at hends
    obtain ⟨w',-,hstop⟩ := Ends.last hends
    rcases walkStep_state hstop with hs | ⟨name,d,hr⟩
    · exact .inl hs
    · exact .inr ⟨w'.cur,name,d,hr⟩
  | stop r' =>
    rw [henter] at hends
    cases hends
    exact .inl (enter_state henter)
  | stuck =>
    rw [henter] at hends
    exact hends.elim

theorem Tree.pathToEntry (h : Tree s) {fuel : Nat}
    (hr : s.pathToEntry frame fuel path start follow = some r) : Tree r.2 ∧ Agree s r.2 := by
  rcases pathToEntry_state hr with heq | ⟨cur,name,d,hd,hnone,heq,-⟩
  · rw [heq]
    exact ⟨h,.refl s⟩
  · have hlt := h.lt_of_vnode hd
    rw [heq]
    exact ⟨h.lookupNew hlt,h.lookupNew_agree hlt hnone⟩

theorem Tree.pathToEntry_live (h : Tree s) {fuel : Nat}
    (hr : s.pathToEntry frame fuel path start follow = some r) (hv : vnodeOf r = some v) :
    r.2 = s := by
  rcases pathToEntry_state hr with heq | ⟨cur,name,d,-,-,heq,hlast⟩
  · exact heq
  · have hneg : vnodeOf r = none := by
      rcases hlast with h1 | h1
      · simp [vnodeOf,h1,heq,lookupNew_vnode]
      · simp [vnodeOf,h1,heq,lookupNew_vnode,Nat.ne_of_lt h.null_lt,h.null_vnode]
    rw [hneg] at hv
    cases hv

end SabaOS.Vfs
