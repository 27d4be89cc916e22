import Mathlib.Data.List.Perm.Subperm
import SabaOS.Sched.Processes

namespace SabaOS.Sched.Processes

open SabaOS.Lib

def System.Present (s : System) (q : ProcessId) : Prop :=
  initProcess < q ∧ q < s.numProcesses ∧ (s.processes q).freed = false

instance (s : System) (q : ProcessId) : Decidable (s.Present q) :=
  inferInstanceAs (Decidable (initProcess < q ∧ q < s.numProcesses ∧ (s.processes q).freed = false))

structure Linked (s : System) (children : ProcessId → List ProcessId)
    (members : GroupId → List ProcessId) : Prop where
  siblings : Links.Tidy s.siblings .childrenList fun p => (children p).map .siblingLink
  groupLinks : Links.Tidy s.groupLinks .processList fun g => (members g).map .groupLink
  mem_children : ∀ p q, q ∈ children p ↔ s.Present q ∧ (s.processes q).parent = some p
  mem_members : ∀ g q, q ∈ members g ↔ s.Present q ∧ (s.processes q).group = some g

def Relinked (s s' : System) (f : ProcessId → Process) : Prop :=
  s' = { s with processes := f, siblings := s'.siblings, groupLinks := s'.groupLinks }

def rehung (A : Nat → List ProcessId) (i : Nat) (q : ProcessId) : Nat → List ProcessId :=
  fun j => if j = i then (A j).erase q ++ [q] else (A j).erase q

section Lists

variable {s s' : System} {C M : Nat → List ProcessId} {p q : ProcessId} {g : GroupId}

theorem siblingLink_injective : Function.Injective SiblingCell.siblingLink :=
  fun _ _ h => SiblingCell.siblingLink.inj h

theorem groupLink_injective : Function.Injective GroupCell.groupLink :=
  fun _ _ h => GroupCell.groupLink.inj h

theorem mem_rehung {A : Nat → List ProcessId} (hnd : ∀ j, (A j).Nodup) (i j : Nat) (q x : ProcessId) :
    x ∈ rehung A i q j ↔ if x = q then j = i else x ∈ A j := by
  by_cases hx : x = q
  · subst hx
    have hout : x ∉ (A j).erase x := (hnd j).not_mem_erase
    by_cases hj : j = i
    · simp [rehung,hj]
    · simp [rehung,hj,hout]
  · by_cases hj : j = i <;> simp [rehung,hj,hx,List.mem_erase_of_ne hx]

theorem leaveSiblings_spec (h : Links.Tidy s.siblings .childrenList fun p => (C p).map .siblingLink)
    (q : ProcessId) : ∃ l, s.leaveSiblings q = some l ∧
      Links.Tidy l .childrenList fun j => ((C j).erase q).map .siblingLink := by
  by_cases hin : ∃ p, q ∈ C p
  · obtain ⟨p,hp⟩ := hin
    obtain ⟨⟨n,hn⟩,m,hm⟩ := h.linked (List.mem_map_of_mem hp)
    obtain ⟨l,hl,htidy⟩ := h.detach hp
    refine ⟨l,?_,htidy⟩
    rw [System.leaveSiblings,if_neg (by simp [System.isInvalid,hn,hm]),hl]
  · have hout : ∀ j, q ∉ C j := fun j hm => hin ⟨j,hm⟩
    have hnull := h.null (.siblingLink q) fun j => by simp [hout j]
    refine ⟨s.siblings,?_,?_⟩
    · rw [System.leaveSiblings,if_pos (by simp [System.isInvalid,hnull,ListHead.null])]
    · simpa only [List.erase_of_not_mem (hout _)] using h

theorem Linked.leaveGroup (h : Linked s C M) (hq : s.Present q) :
    ∃ l, s.leaveGroup q = some l ∧
      Links.Tidy l .processList fun j => ((M j).erase q).map .groupLink := by
  cases hg : (s.processes q).group with
  | some g =>
    obtain ⟨l,hl,htidy⟩ := h.groupLinks.detach ((h.mem_members g q).mpr ⟨hq,hg⟩)
    exact ⟨l,by rw [System.leaveGroup,hg]; exact hl,htidy⟩
  | none =>
    have hout : ∀ j, q ∉ M j := by
      intro j hm
      have hj := ((h.mem_members j q).mp hm).2
      simp [hg] at hj
    refine ⟨s.groupLinks,by rw [System.leaveGroup,hg]; rfl,?_⟩
    simpa only [List.erase_of_not_mem (hout _)] using h.groupLinks

theorem Linked.nodup_children (h : Linked s C M) (p : ProcessId) : (C p).Nodup :=
  h.siblings.nodup_of_map p

theorem Linked.nodup_members (h : Linked s C M) (g : GroupId) : (M g).Nodup :=
  h.groupLinks.nodup_of_map g

theorem Linked.addProcess (h : Linked s C M) (hq : s.Present q) (g : GroupId) :
    ∃ s', s.addProcess g q = some s' ∧
      Relinked s s' (Function.update s.processes q { s.processes q with group := some g }) ∧
      Linked s' C (rehung M g q) := by
  obtain ⟨l₁,hl₁,h₁⟩ := h.leaveGroup hq
  obtain ⟨l₂,hl₂,h₂⟩ := h₁.attach groupLink_injective (b := q) (fun _ => nofun)
    (fun j => (h.nodup_members j).not_mem_erase) g
  let s' := { s.setProcess q { s.processes q with group := some g } with groupLinks := l₂ }
  have hs' : s.addProcess g q = some s' := by
    rw [System.addProcess,hl₁,Option.bind_eq_bind,Option.bind_some,hl₂]
    rfl
  have hpresent : ∀ x, s'.Present x ↔ s.Present x := by
    intro x
    by_cases hx : x = q <;> simp [System.Present,s',System.setProcess,hx]
  refine ⟨s',hs',rfl,h.siblings,h₂,?_,?_⟩
  · intro p x
    rw [h.mem_children,hpresent]
    by_cases hx : x = q <;> simp [s',System.setProcess,hx]
  · intro j x
    rw [mem_rehung h.nodup_members,h.mem_members,hpresent]
    by_cases hx : x = q
    · subst hx
      simp [s',System.setProcess,hq,eq_comm]
    · simp [s',System.setProcess,hx]

theorem Linked.setParent (h : Linked s C M) (hq : s.Present q) (hpq : p ≠ q)
    (hg : (s.processes p).group = some g) :
    ∃ s', s.setParent q p = some s' ∧ Relinked s s' (Function.update s.processes q
        { s.processes q with parent := some p, group := some g }) ∧
      Linked s' (rehung C p q) (rehung M g q) := by
  let s₁ := s.setProcess q { s.processes q with parent := some p }
  have htidy : Links.Tidy s₁.siblings .childrenList fun p => (C p).map .siblingLink := h.siblings
  obtain ⟨l₁,hl₁,h₁⟩ := leaveSiblings_spec htidy q
  obtain ⟨l₂,hl₂,h₂⟩ := h₁.attach siblingLink_injective (b := q) (fun _ => nofun)
    (fun j => (h.nodup_children j).not_mem_erase) p
  let s₂ := { s₁ with siblings := l₂ }
  have hpresent : ∀ x, s₂.Present x ↔ s.Present x := by
    intro x
    by_cases hx : x = q <;> simp [System.Present,s₂,s₁,System.setProcess,hx]
  have hlinked : Linked s₂ (rehung C p q) M := by
    refine ⟨h₂,h.groupLinks,?_,?_⟩
    · intro j x
      rw [mem_rehung h.nodup_children,h.mem_children,hpresent]
      by_cases hx : x = q
      · subst hx
        simp [s₂,s₁,System.setProcess,hq,eq_comm]
      · simp [s₂,s₁,System.setProcess,hx]
    · intro j x
      rw [h.mem_members,hpresent]
      by_cases hx : x = q <;> simp [s₂,s₁,System.setProcess,hx]
  obtain ⟨s',hs',hre,hlinked'⟩ := hlinked.addProcess ((hpresent q).mpr hq) g
  have hg₂ : (s₂.processes p).group = some g := by
    simpa [s₂,s₁,System.setProcess,Function.update_of_ne hpq] using hg
  refine ⟨s',?_,?_,hlinked'⟩
  · rw [System.setParent]
    show (s₁.leaveSiblings q).bind _ = _
    rw [hl₁,Option.bind_some]
    show (l₁.addBefore _ _).bind _ = _
    rw [hl₂,Option.bind_some]
    show ((s₂.processes p).group).bind _ = _
    rw [hg₂,Option.bind_some]
    exact hs'
  · rw [Relinked] at hre ⊢
    rw [hre]
    simp [s₂,s₁,System.setProcess]

theorem Relinked.trans {s₁ : System} {f f' : ProcessId → Process} (h : Relinked s s₁ f)
    (h' : Relinked s₁ s' f') : Relinked s s' f' := by
  rw [Relinked] at *
  rw [h',h]

def adopted (s : System) (cs : List ProcessId) (g : GroupId) : ProcessId → Process :=
  fun q => if q ∈ cs then { s.processes q with parent := some initProcess, group := some g }
    else s.processes q

theorem adopted_cons {c : ProcessId} {cs : List ProcessId} (hc : c ∉ cs)
    (h : Relinked s s' (Function.update s.processes c
      { s.processes c with parent := some initProcess, group := some g })) :
    adopted s' cs g = adopted s (c :: cs) g := by
  have hprocesses := congrArg System.processes h
  funext q
  simp only [adopted,hprocesses,List.mem_cons]
  by_cases hq : q = c
  · subst hq
    simp [hc]
  · simp [hq]

theorem Linked.adopt (h : Linked s C M) (hp : p ≠ initProcess)
    (hg : (s.processes initProcess).group = some g) {cs : List ProcessId} (hcs : C p = cs)
    {fuel : Nat} (hf : cs.length < fuel) {cell : SiblingCell}
    (hcell : (cs.map SiblingCell.siblingLink ++ [SiblingCell.childrenList p]).head? = some cell) :
    ∃ s', s.adopt p fuel cell = some s' ∧ Relinked s s' (adopted s cs g) ∧
      ∃ C' M', Linked s' C' M' := by
  induction cs generalizing s C M fuel cell with
  | nil =>
    obtain ⟨fuel,rfl⟩ : ∃ k, fuel = k + 1 := ⟨fuel - 1,by simp only [List.length_nil] at hf; omega⟩
    obtain rfl : SiblingCell.childrenList p = cell := by simpa using hcell
    exact ⟨s,by simp [System.adopt],rfl,C,M,h⟩
  | cons c cs ih =>
    rw [List.length_cons] at hf
    obtain ⟨fuel,rfl⟩ : ∃ k, fuel = k + 1 := ⟨fuel - 1,by omega⟩
    obtain rfl : SiblingCell.siblingLink c = cell := by simpa using hcell
    have hc : s.Present c := ((h.mem_children p c).mp (hcs ▸ List.mem_cons_self)).1
    have hci : initProcess ≠ c := Nat.ne_of_lt hc.1
    have hnd := h.nodup_children p
    rw [hcs] at hnd
    have hcc := (List.nodup_cons.mp hnd).1
    obtain ⟨s₁,hs₁,hre,hlinked⟩ := h.setParent hc hci hg
    have hnext := h.siblings.next_eq (i := p) (show (C p).map SiblingCell.siblingLink =
      [] ++ SiblingCell.siblingLink c :: cs.map .siblingLink by rw [hcs]; rfl)
    obtain ⟨next,hhead⟩ : ∃ next,
        (cs.map SiblingCell.siblingLink ++ [SiblingCell.childrenList p]).head? = some next := by
      cases cs <;> simp
    rw [hhead] at hnext
    have hcs₁ : rehung C initProcess c p = cs := by
      rw [rehung,if_neg hp,hcs,List.erase_cons_head]
    have hg₁ : (s₁.processes initProcess).group = some g := by
      rw [congrArg System.processes hre]
      simpa [Function.update_of_ne hci] using hg
    obtain ⟨s',hs',hre',hlinked'⟩ := ih hlinked hg₁ hcs₁ (by omega : cs.length < fuel) hhead
    refine ⟨s',?_,?_,hlinked'⟩
    · rw [System.adopt,if_neg nofun]
      show (some c).bind _ = _
      rw [Option.bind_some,hnext]
      show (s.setParent c initProcess).bind _ = _
      rw [hs₁,Option.bind_some]
      exact hs'
    · rw [← adopted_cons hcc hre]
      exact hre.trans hre'

theorem Linked.length_children (h : Linked s C M) (p : ProcessId) :
    (C p).length < s.numProcesses + 1 := by
  have hsub : C p ⊆ List.range s.numProcesses := fun q hq =>
    List.mem_range.mpr ((h.mem_children p q).mp hq).1.2.1
  have hle := ((h.nodup_children p).subperm hsub).length_le
  rw [List.length_range] at hle
  omega

theorem zombified_same (process : Process) (terminateSignal : Option Int) :
    (Process.zombified process terminateSignal).parent = process.parent ∧
      (Process.zombified process terminateSignal).group = process.group ∧
      (Process.zombified process terminateSignal).freed = process.freed := by
  cases terminateSignal <;> simp [Process.zombified]

theorem Linked.congr (h : Linked s C M) (hsiblings : s'.siblings = s.siblings)
    (hgroupLinks : s'.groupLinks = s.groupLinks) (hpresent : ∀ x, s'.Present x ↔ s.Present x)
    (hsame : ∀ x, s.Present x → (s'.processes x).parent = (s.processes x).parent ∧
      (s'.processes x).group = (s.processes x).group) : Linked s' C M := by
  refine ⟨hsiblings ▸ h.siblings,hgroupLinks ▸ h.groupLinks,fun p x => ?_,fun g x => ?_⟩
  · rw [h.mem_children,hpresent]
    exact and_congr_right fun hx => by rw [(hsame x hx).1]
  · rw [h.mem_members,hpresent]
    exact and_congr_right fun hx => by rw [(hsame x hx).2]

theorem Linked.setProcess (h : Linked s C M) (process : Process)
    (hparent : process.parent = (s.processes p).parent)
    (hgroup : process.group = (s.processes p).group)
    (hfreed : process.freed = (s.processes p).freed) : Linked (s.setProcess p process) C M := by
  refine h.congr rfl rfl (fun x => ?_) fun x _ => ?_
  · by_cases hx : x = p <;> simp [System.Present,System.setProcess,hx,hfreed]
  · by_cases hx : x = p <;> simp [System.setProcess,hx,hparent,hgroup]

theorem Linked.zombify (h : Linked s C M) (hp : p ≠ initProcess)
    (hg : (s.processes initProcess).group = some g) (sig : Option Int) :
    ∃ s', s.zombify p sig = some s' ∧ Relinked s s'
        (adopted (s.setProcess p ((s.processes p).zombified sig)) (C p) g) ∧
      ∃ C' M', Linked s' C' M' := by
  obtain ⟨hparent,hgroup,hfreed⟩ := zombified_same (s.processes p) sig
  have h₁ := h.setProcess _ hparent hgroup hfreed
  obtain ⟨next,hnext⟩ : ∃ next,
      ((C p).map SiblingCell.siblingLink ++ [SiblingCell.childrenList p]).head? = some next := by
    cases C p <;> simp
  have hfirst : (s.siblings (.childrenList p)).next = some next := by
    rw [← hnext]
    exact (h.siblings.ring p).path.next_eq
  have hg₁ : ((s.setProcess p ((s.processes p).zombified sig)).processes initProcess).group =
      some g := by
    simpa [System.setProcess,Function.update_of_ne hp.symm] using hg
  obtain ⟨s',hs',hre,hlinked⟩ := h₁.adopt hp hg₁ rfl (h₁.length_children p) hnext
  refine ⟨s',?_,?_,hlinked⟩
  · rw [System.zombify,if_neg hp]
    show ((s.siblings (.childrenList p)).next).bind _ = _
    rw [hfirst,Option.bind_some]
    exact hs'
  · rw [Relinked] at hre ⊢
    exact hre

end Lists

end SabaOS.Sched.Processes
