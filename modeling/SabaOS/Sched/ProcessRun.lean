import SabaOS.Sched.ProcessEnd

namespace SabaOS.Sched.Processes

open SabaOS.Lib

section Groups

variable {s s' : System} {C M : Nat → List ProcessId} {p q : ProcessId} {g : GroupId} {t : Nat}
  {thread : Thread}

def sessionOf (s : System) (q : ProcessId) : Option SessionId :=
  (s.processes q).group.map fun g => (s.groups g).session

structure Joined (s s' : System) (p : ProcessId) (g : GroupId) : Prop where
  processes : s'.processes = Function.update s.processes p { s.processes p with group := some g }
  rest : s' = { s with
    processes := s'.processes, siblings := s'.siblings, groupLinks := s'.groupLinks
    groups := s'.groups, numGroups := s'.numGroups, leaderGroup := s'.leaderGroup
    numSessions := s'.numSessions }
  groups : ∀ j, j < s.numGroups → s'.groups j = s.groups j
  more : s.numGroups ≤ s'.numGroups
  made : g < s'.numGroups

theorem Joined.rooted (hj : Joined s s' p g) (h : Rooted s) (hp : s.Present p)
    (hsession : ∀ j, j < s'.numGroups → (s'.groups j).session < s'.numSessions)
    (hleader : ∀ i, i < s'.numSessions → ∃ g, s'.leaderGroup i = some g ∧ g < s'.numGroups)
    (hfirst : s'.leaderGroup (s.groups 0).session = some 0) : Rooted s' := by
  have hn : s'.numProcesses = s.numProcesses := (congrArg System.numProcesses hj.rest :)
  have hfields : ∀ q, (s'.processes q).parent = (s.processes q).parent ∧
      (s'.processes q).isZombie = (s.processes q).isZombie ∧
      (s'.processes q).freed = (s.processes q).freed := by
    intro q
    rw [hj.processes]
    by_cases hq : q = p <;> simp [hq]
  have hgroup : ∀ q, q ≠ p → (s'.processes q).group = (s.processes q).group := fun q hq => by
    rw [hj.processes,Function.update_of_ne hq]
  have hlow : ∀ q, q ≤ initProcess → q ≠ p := fun q hq heq => Nat.not_lt.mpr hq (heq ▸ hp.1)
  have hzero := hj.groups 0 h.first.1
  have hpresent : ∀ q, s'.Present q ↔ s.Present q := by
    intro q
    rw [System.Present,System.Present,hn,(hfields q).2.2]
  constructor
  · exact hn ▸ h.made
  · exact ⟨(hfields _).1.trans h.kernel.1,
      (hgroup _ (hlow _ (Nat.zero_le _))).trans h.kernel.2.1,(hfields _).2.2.trans h.kernel.2.2⟩
  · exact (hfields _).1.trans h.init_parent
  · exact (hgroup _ (hlow _ (Nat.le_refl _))).trans h.init_group
  · exact (hfields _).2.1.trans h.init_alive
  · exact (hfields _).2.2.trans h.init_kept
  · intro q hq
    obtain ⟨r,hr,hir,hrq,hrf,hrz⟩ := h.parent q ((hpresent q).mp hq)
    exact ⟨r,(hfields q).1.trans hr,hir,hrq,(hfields r).2.2.trans hrf,(hfields r).2.1.trans hrz⟩
  · intro q hq
    have hq := (hpresent q).mp hq
    by_cases hqp : q = p
    · subst hqp
      exact ⟨g,by rw [hj.processes,Function.update_self],hj.made⟩
    · obtain ⟨g',hg',hlt⟩ := h.group q hq
      exact ⟨g',(hgroup q hqp).trans hg',Nat.lt_of_lt_of_le hlt hj.more⟩
  · rw [hzero]
    exact ⟨Nat.lt_of_lt_of_le h.first.1 hj.more,h.first.2.1,hfirst⟩
  · exact hsession
  · exact hleader
  · exact (hfields _).2.1.trans h.kernel_alive

theorem Joined.threaded (hj : Joined s s' p g) (h : Threaded s) : Threaded s' := by
  have htable : s'.threadTable = s.threadTable := (congrArg System.threadTable hj.rest :)
  refine h.congr ?_ ?_ (by rw [htable]) (fun t => by rw [System.thread,htable]; rfl)
    (fun q => by rw [System.living,htable]; rfl) fun q => ?_
  · exact (congrArg System.numProcesses hj.rest :)
  · exact (congrArg System.firstFreeTid hj.rest :)
  · rw [hj.processes]
    by_cases hq : q = p <;> simp [hq]

theorem Good.members_nil (h : Good s) (hlinked : Linked s C M) (hg : s.numGroups ≤ g) : M g = [] := by
  rw [List.eq_nil_iff_forall_not_mem]
  intro q hq
  obtain ⟨hpresent,hgroup⟩ := (hlinked.mem_members g q).mp hq
  obtain ⟨g',hg',hlt⟩ := h.rooted.group q hpresent
  obtain rfl : g = g' := Option.some.inj (hgroup.symm.trans hg')
  exact absurd hlt (Nat.not_lt.mpr hg)

-- What `new ProcessGroup` writes besides the head of its own list, which is empty.
def grouped (s : System) (session : SessionId) (leaderProcess : ProcessId) : System :=
  { s with
    groups := Function.update s.groups s.numGroups ⟨session,leaderProcess⟩
    numGroups := s.numGroups + 1 }

theorem newGroup_eq (hlinked : Linked s C M) (hnil : M s.numGroups = []) (session : SessionId)
    (leaderProcess : ProcessId) :
    s.newGroup session leaderProcess = (s.numGroups,grouped s session leaderProcess) := by
  have hring := hlinked.groupLinks.ring s.numGroups
  rw [hnil] at hring
  rw [System.newGroup,hring.init_eq]
  rfl

theorem Linked.grouped (h : Linked s C M) (session : SessionId) (leaderProcess : ProcessId) :
    Linked (grouped s session leaderProcess) C M :=
  h.congr rfl rfl (fun _ => Iff.rfl) fun _ _ => ⟨rfl,rfl⟩

theorem Good.join (h : Good s) (hp : s.Present p) (hg : g < s.numGroups) :
    ∃ s', s.addProcess g p = some s' ∧ Joined s s' p g ∧ Good s' := by
  obtain ⟨C,M,hlinked⟩ := h.linked
  obtain ⟨s',hs',hre,hlinked'⟩ := hlinked.addProcess hp g
  have hj : Joined s s' p g := by
    have hng : s'.numGroups = s.numGroups := (congrArg System.numGroups hre :)
    refine ⟨(congrArg System.processes hre :),?_,fun j _ => ?_,Nat.le_of_eq hng.symm,hng ▸ hg⟩
    · rw [hre]
    · rw [hre]
  refine ⟨s',hs',hj,⟨_,_,hlinked'⟩,hj.rooted h.rooted hp ?_ ?_ ?_,hj.threaded h.threaded⟩ <;>
    rw [hre]
  · exact h.rooted.session
  · exact h.rooted.leader
  · exact h.rooted.first.2.2

theorem update_lt {α : Type} {f : Nat → α} {a : α} {j n : Nat} (h : j < n) :
    Function.update f n a j = f j :=
  Function.update_of_ne (Nat.ne_of_lt h) _ _

theorem Good.found (h : Good s) (hp : s.Present p) {session : SessionId}
    (hsession : session < s.numSessions) :
    ∃ s', (grouped s session p).addProcess s.numGroups p = some s' ∧
      Joined s s' p s.numGroups ∧ s'.groups s.numGroups = ⟨session,p⟩ ∧ Good s' := by
  obtain ⟨C,M,hlinked⟩ := h.linked
  obtain ⟨s',hs',hre,hlinked'⟩ := (hlinked.grouped session p).addProcess (q := p) hp s.numGroups
  have hgroups : s'.groups = Function.update s.groups s.numGroups ⟨session,p⟩ :=
    (congrArg System.groups hre :)
  have hng : s'.numGroups = s.numGroups + 1 := (congrArg System.numGroups hre :)
  have hl : s'.leaderGroup = s.leaderGroup := (congrArg System.leaderGroup hre :)
  have hns : s'.numSessions = s.numSessions := (congrArg System.numSessions hre :)
  have hj : Joined s s' p s.numGroups := by
    refine ⟨(congrArg System.processes hre :),?_,fun j hlt => ?_,?_,?_⟩
    · rw [hre]
      rfl
    · rw [hgroups,update_lt hlt]
    · exact hng ▸ Nat.le_succ _
    · exact hng ▸ Nat.lt_succ_self _
  refine ⟨s',hs',hj,by rw [hgroups,Function.update_self],⟨_,_,hlinked'⟩,
    hj.rooted h.rooted hp (fun j hlt => ?_) (fun i hlt => ?_) ?_,hj.threaded h.threaded⟩
  · rw [hns]
    rcases Nat.lt_succ_iff_lt_or_eq.mp (hng ▸ hlt : j < s.numGroups + 1) with hlt | rfl
    · rw [hj.groups j hlt]
      exact h.rooted.session j hlt
    · rw [hgroups,Function.update_self]
      exact hsession
  · rw [hns] at hlt
    obtain ⟨g,hg,hgn⟩ := h.rooted.leader i hlt
    exact ⟨g,hl ▸ hg,hng ▸ Nat.lt_succ_of_lt hgn⟩
  · rw [hl]
    exact h.rooted.first.2.2

def sessioned (s : System) : System :=
  { s with
    leaderGroup := Function.update s.leaderGroup s.numSessions none
    numSessions := s.numSessions + 1 }

theorem Good.leaveSession (h : Good s) (hp : s.Present p) :
    ∃ s₁ s', (grouped (sessioned s) s.numSessions p).addProcess s.numGroups p = some s₁ ∧
      s' = s₁.setLeaderGroup s.numSessions (s₁.processes p).group ∧
      Joined s s' p s.numGroups ∧ s'.groups s.numGroups = ⟨s.numSessions,p⟩ ∧
      s'.leaderGroup s.numSessions = some s.numGroups ∧ Good s' := by
  obtain ⟨C,M,hlinked⟩ := h.linked
  have hsessioned : Linked (sessioned s) C M :=
    hlinked.congr rfl rfl (fun _ => Iff.rfl) fun _ _ => ⟨rfl,rfl⟩
  obtain ⟨s₁,hs₁,hre,hlinked'⟩ :=
    (hsessioned.grouped s.numSessions p).addProcess (q := p) hp s.numGroups
  have hprocesses : s₁.processes =
      Function.update s.processes p { s.processes p with group := some s.numGroups } :=
    (congrArg System.processes hre :)
  have hgroups : s₁.groups = Function.update s.groups s.numGroups ⟨s.numSessions,p⟩ :=
    (congrArg System.groups hre :)
  have hng : s₁.numGroups = s.numGroups + 1 := (congrArg System.numGroups hre :)
  have hl : s₁.leaderGroup = Function.update s.leaderGroup s.numSessions none :=
    (congrArg System.leaderGroup hre :)
  have hns : s₁.numSessions = s.numSessions + 1 := (congrArg System.numSessions hre :)
  have hgroup : (s₁.processes p).group = some s.numGroups := by
    rw [hprocesses,Function.update_self]
  have hleader : (s₁.setLeaderGroup s.numSessions (s₁.processes p).group).leaderGroup =
      Function.update s.leaderGroup s.numSessions (some s.numGroups) := by
    rw [System.setLeaderGroup,hgroup,hl,Function.update_idem]
  have hj : Joined s (s₁.setLeaderGroup s.numSessions (s₁.processes p).group) p s.numGroups := by
    refine ⟨hprocesses,?_,fun j hlt => ?_,?_,?_⟩
    · rw [hre]
      rfl
    · exact (congrFun hgroups j).trans (update_lt hlt)
    · exact hng ▸ Nat.le_succ _
    · exact hng ▸ Nat.lt_succ_self _
  refine ⟨s₁,_,hs₁,rfl,hj,(congrFun hgroups _).trans (Function.update_self _ _ _),?_,
    ⟨_,_,hlinked'.congr rfl rfl (fun _ => Iff.rfl) fun _ _ => ⟨rfl,rfl⟩⟩,
    hj.rooted h.rooted hp (fun j hlt => ?_) (fun i hlt => ?_) ?_,hj.threaded h.threaded⟩
  · rw [hleader,Function.update_self]
  · show (s₁.groups j).session < s₁.numSessions
    rw [hns]
    rcases Nat.lt_succ_iff_lt_or_eq.mp (hng ▸ hlt : j < s.numGroups + 1) with hlt | rfl
    · rw [hgroups,update_lt hlt]
      exact Nat.lt_succ_of_lt (h.rooted.session j hlt)
    · rw [hgroups,Function.update_self]
      exact Nat.lt_succ_self _
  · rw [hleader]
    show ∃ g, _ ∧ g < s₁.numGroups
    rw [hng]
    rcases Nat.lt_succ_iff_lt_or_eq.mp (hns ▸ hlt : i < s.numSessions + 1) with hlt | rfl
    · obtain ⟨g,hg,hgn⟩ := h.rooted.leader i hlt
      exact ⟨g,(update_lt hlt).trans hg,Nat.lt_succ_of_lt hgn⟩
    · exact ⟨s.numGroups,Function.update_self _ _ _,Nat.lt_succ_self _⟩
  · rw [hleader,update_lt (h.rooted.session 0 h.rooted.first.1)]
    exact h.rooted.first.2.2

structure System.User (s : System) (p : ProcessId) : Prop where
  low : initProcess ≤ p
  made : p < s.numProcesses
  kept : (s.processes p).freed = false

theorem Good.user (h : Good s) (ht : s.thread t = some thread) (hp : initProcess ≤ thread.process) :
    s.User thread.process :=
  ⟨hp,(h.threaded.owner t thread ht).1,(h.threaded.owner t thread ht).2⟩

theorem System.User.present (h : s.User p) (hp : p ≠ initProcess) : s.Present p :=
  ⟨Nat.lt_of_le_of_ne h.low hp.symm,h.made,h.kept⟩

theorem Good.user_of_parent (h : Good s) (hp : q < s.numProcesses)
    (hf : (s.processes q).freed = false) (hparent : (s.processes q).parent = some p) : s.User q := by
  rcases Nat.eq_zero_or_pos q with rfl | hpos
  · rw [show (0 : Nat) = kernelProcess from rfl,h.rooted.kernel.1] at hparent
    cases hparent
  · exact ⟨hpos,hp,hf⟩

theorem Good.setpgidTarget (h : Good s) (hu : s.User p) {pid : Int} {target : ProcessId}
    (ht : s.setpgidTarget p pid = .ok target) :
    (target = p ∨ (s.processes target).parent = some p) ∧ s.User target := by
  rw [System.setpgidTarget] at ht
  split_ifs at ht with hpid
  · cases ht
    exact ⟨.inl rfl,hu⟩
  · rw [System.getFromTid] at ht
    split_ifs at ht with hlow
    cases hthread : s.thread pid.toNat with
    | none => simp [hthread] at ht
    | some thread =>
      simp only [hthread] at ht
      split_ifs at ht with hother hexec
      cases ht
      obtain ⟨hlt,hf⟩ := h.threaded.owner _ thread hthread
      by_cases heq : thread.process = p
      · exact ⟨.inl heq,heq ▸ hu⟩
      · have hparent : (s.processes thread.process).parent = some p :=
          by_contra fun hne => hother ⟨heq,hne⟩
        exact ⟨.inr hparent,h.user_of_parent hlt hf hparent⟩

theorem Good.sessionLeader_init (h : Good s) : s.sessionLeader initProcess = some initProcess := by
  rw [System.sessionLeader,h.rooted.init_group]
  simp only [Option.bind_eq_bind,Option.bind_some,h.rooted.first.2.2,h.rooted.first.2.1,
    Option.pure_def]

theorem Joined.session (hj : Joined s s' p g) :
    sessionOf s' p = some (s'.groups g).session := by
  rw [sessionOf,hj.processes,Function.update_self]
  rfl

theorem Good.group_lt (h : Good s) (hq : q < s.numProcesses) (hf : (s.processes q).freed = false)
    (hg : (s.processes q).group = some g) : g < s.numGroups := by
  rcases Nat.eq_zero_or_pos q with rfl | hpos
  · rw [show (0 : Nat) = kernelProcess from rfl,h.rooted.kernel.2.1] at hg
    cases hg
  · obtain ⟨g',hg',hlt⟩ := h.group_of_user hpos hq hf
    obtain rfl : g = g' := Option.some.inj (hg.symm.trans hg')
    exact hlt

theorem Good.setpgidJoin (h : Good s) (hp : s.Present p) {pgid r : Int}
    (hs' : s.setpgidJoin p pgid = some (s',r)) : Good s' ∧
      (s' = s ∨ ∃ g, Joined s s' p g ∧ sessionOf s' p = sessionOf s p) := by
  rw [System.setpgidJoin] at hs'
  split_ifs at hs' with hneg
  · cases hs'
    exact ⟨h,.inl rfl⟩
  · cases hthread : s.getFromTid pgid with
    | none =>
      simp only [hthread] at hs'
      cases hs'
      exact ⟨h,.inl rfl⟩
    | some thread =>
      simp only [hthread] at hs'
      obtain ⟨g,hg,hs'⟩ := Option.bind_eq_some_iff.mp hs'
      obtain ⟨own,hown,hs'⟩ := Option.bind_eq_some_iff.mp hs'
      split_ifs at hs' with hsession
      · cases hs'
        exact ⟨h,.inl rfl⟩
      · obtain ⟨s₁,hs₁,hs'⟩ := Option.bind_eq_some_iff.mp hs'
        cases hs'
        have howner : thread.process < s.numProcesses ∧
            (s.processes thread.process).freed = false := by
          rw [System.getFromTid] at hthread
          split_ifs at hthread
          exact h.threaded.owner _ thread hthread
        have hlt := h.group_lt howner.1 howner.2 hg
        obtain ⟨s₂,hs₂,hj,hgood⟩ := h.join hp hlt
        obtain rfl := Option.some.inj (hs₂.symm.trans hs₁)
        refine ⟨hgood,.inr ⟨g,hj,?_⟩⟩
        rw [hj.session,hj.groups g hlt,sessionOf,hown]
        exact congrArg some (not_not.mp hsession)

theorem Good.setpgidLead (h : Good s) (hp : s.Present p) {r : Int}
    (hs' : s.setpgidLead p = some (s',r)) : Good s' ∧
      (s' = s ∨ ∃ g, Joined s s' p g ∧ sessionOf s' p = sessionOf s p) := by
  rw [System.setpgidLead] at hs'
  obtain ⟨own,hown,hs'⟩ := Option.bind_eq_some_iff.mp hs'
  obtain ⟨C,M,hlinked⟩ := h.linked
  have hnew := newGroup_eq hlinked (h.members_nil hlinked (Nat.le_refl _)) (s.groups own).session p
  split_ifs at hs' with hlead
  · cases hs'
    exact ⟨h,.inl rfl⟩
  · simp only [hnew] at hs'
    obtain ⟨s₁,hs₁,hs'⟩ := Option.bind_eq_some_iff.mp hs'
    cases hs'
    obtain ⟨s₂,hs₂,hj,hgroup,hgood⟩ :=
      h.found hp (h.rooted.session own (h.group_lt hp.2.1 hp.2.2 hown))
    obtain rfl := Option.some.inj (hs₂.symm.trans hs₁)
    refine ⟨hgood,.inr ⟨_,hj,?_⟩⟩
    rw [hj.session,hgroup,sessionOf,hown]
    rfl

theorem Good.setpgid (h : Good s) (hu : s.User p) {pid pgid r : Int}
    (hs' : s.setpgid p pid pgid = some (s',r)) : Good s' ∧ (s' = s ∨
      ∃ q g, (q = p ∨ (s.processes q).parent = some p) ∧ s.Present q ∧ Joined s s' q g ∧
        sessionOf s' q = sessionOf s q) := by
  rw [System.setpgid] at hs'
  cases htarget : s.setpgidTarget p pid with
  | error e =>
    simp only [htarget] at hs'
    cases hs'
    exact ⟨h,.inl rfl⟩
  | ok target =>
    simp only [htarget] at hs'
    obtain ⟨hwho,htu⟩ := h.setpgidTarget hu htarget
    obtain ⟨leader,hleader,hs'⟩ := Option.bind_eq_some_iff.mp hs'
    by_cases hlead : leader = target
    · rw [if_pos hlead] at hs'
      cases hs'
      exact ⟨h,.inl rfl⟩
    · rw [if_neg hlead] at hs'
      have hne : target ≠ initProcess := by
        rintro rfl
        rw [h.sessionLeader_init] at hleader
        exact hlead (Option.some.inj hleader).symm
      have hp := htu.present hne
      have hres : Good s' ∧
          (s' = s ∨ ∃ g, Joined s s' target g ∧ sessionOf s' target = sessionOf s target) := by
        split_ifs at hs' with hpgid
        · exact h.setpgidJoin hp hs'
        · exact h.setpgidLead hp hs'
      refine ⟨hres.1,hres.2.imp_right ?_⟩
      rintro ⟨g,hj,hsession⟩
      exact ⟨target,g,hwho,hp,hj,hsession⟩

theorem Good.setsid (h : Good s) (hu : s.User p) {r : Int} (hs' : s.setsid p = some (s',r)) :
    Good s' ∧ (s' = s ∨ s.Present p ∧ Joined s s' p s.numGroups ∧
      s'.groups s.numGroups = ⟨s.numSessions,p⟩) := by
  rw [System.setsid] at hs'
  obtain ⟨g,hg,hs'⟩ := Option.bind_eq_some_iff.mp hs'
  by_cases hlead : (s.groups g).leaderProcess = p
  · rw [if_pos hlead] at hs'
    cases hs'
    exact ⟨h,.inl rfl⟩
  · rw [if_neg hlead] at hs'
    have hne : p ≠ initProcess := by
      rintro rfl
      obtain rfl : 0 = g := Option.some.inj (h.rooted.init_group.symm.trans hg)
      exact hlead h.rooted.first.2.1
    have hp := hu.present hne
    obtain ⟨C,M,hlinked⟩ := h.linked
    have hsessioned : Linked (sessioned s) C M :=
      hlinked.congr rfl rfl (fun _ => Iff.rfl) fun _ _ => ⟨rfl,rfl⟩
    have hnew := newGroup_eq hsessioned (h.members_nil hlinked (Nat.le_refl _)) s.numSessions p
    obtain ⟨s₁,s₂,hs₁,hs₂,hj,hgroup,-,hgood⟩ := h.leaveSession hp
    change ((sessioned s).newGroup s.numSessions p).2.addProcess
      ((sessioned s).newGroup s.numSessions p).1 p >>= _ = _ at hs'
    rw [hnew] at hs'
    obtain ⟨s₃,hs₃,hs'⟩ := Option.bind_eq_some_iff.mp hs'
    obtain rfl := Option.some.inj (hs₁.symm.trans hs₃)
    cases hs'
    subst hs₂
    exact ⟨hgood,.inr ⟨hp,hj,hgroup⟩⟩

end Groups

def Reply.reapedChild : Reply → Option ProcessId
  | .reaped child _ _ _ => some child
  | _ => none

inductive Regroups (s s' : System) (op : Op) (q : ProcessId) : Prop
  | same (hparent : (s'.processes q).parent = (s.processes q).parent)
      (hgroup : (s'.processes q).group = (s.processes q).group)
  | orphaned (p : ProcessId) (hparent : (s.processes q).parent = some p)
      (halive : (s.processes p).isZombie = false) (hzombie : (s'.processes p).isZombie = true)
      (hinit : (s'.processes q).parent = some initProcess)
      (hgroup : (s'.processes q).group = some 0)
  | setpgid (t : Nat) (pid pgid : Int) (p : ProcessId) (hop : op = .setpgid t pid pgid)
      (hcaller : s.caller t = some p) (hwho : q = p ∨ (s.processes q).parent = some p)
      (hparent : (s'.processes q).parent = (s.processes q).parent)
      (hsession : sessionOf s' q = sessionOf s q)
  | setsid (t : Nat) (hop : op = .setsid t) (hcaller : s.caller t = some q)
      (hparent : (s'.processes q).parent = (s.processes q).parent)
      (hsession : sessionOf s' q = some s.numSessions)

structure Moves (s s' : System) (op : Op) (reply : Reply) : Prop where
  made : s.numProcesses ≤ s'.numProcesses
  groups : ∀ j, j < s.numGroups → s'.groups j = s.groups j
  pid : ∀ q, q < s.numProcesses → (s'.processes q).pid = (s.processes q).pid
  fresh : ∀ q, s.numProcesses ≤ q → q < s'.numProcesses → (s'.processes q).freed = false
  freed : ∀ q, q < s.numProcesses → ((s'.processes q).freed = true ↔
    (s.processes q).freed = true ∨ reply.reapedChild = some q)
  reaped : ∀ q, reply.reapedChild = some q → s.Present q ∧ (s.processes q).waitCode ≠ 0
  code : ∀ q, q < s.numProcesses → (s.processes q).isZombie = true →
    (s'.processes q).isZombie = true ∧ (s'.processes q).waitCode = (s.processes q).waitCode
  regroups : ∀ q, s.Present q → Regroups s s' op q

section Steps

variable {s s₁ s' : System} {p q : ProcessId} {g : GroupId} {t : Nat} {thread : Thread} {op : Op}
  {reply : Reply}

theorem Moves.of_processes (hn : s'.numProcesses = s.numProcesses) (hg : s'.groups = s.groups)
    (hreply : reply.reapedChild = none)
    (hsame : ∀ q, (s'.processes q).pid = (s.processes q).pid ∧
      (s'.processes q).freed = (s.processes q).freed)
    (hcode : ∀ q, (s.processes q).isZombie = true → (s'.processes q).isZombie = true ∧
      (s'.processes q).waitCode = (s.processes q).waitCode)
    (hregroups : ∀ q, s.Present q → Regroups s s' op q) : Moves s s' op reply := by
  refine ⟨Nat.le_of_eq hn.symm,fun j _ => by rw [hg],fun q _ => (hsame q).1,fun q hle hlt => ?_,
    fun q _ => ?_,fun q hq => ?_,fun q _ => hcode q,hregroups⟩
  · exact absurd (hn ▸ hlt) (Nat.not_lt.mpr hle)
  · rw [(hsame q).2,hreply]
    simp
  · rw [hreply] at hq
    cases hq

theorem Moves.refl (s : System) (hreply : reply.reapedChild = none) : Moves s s op reply :=
  .of_processes rfl rfl hreply (fun _ => ⟨rfl,rfl⟩) (fun _ h => ⟨h,rfl⟩) fun _ _ => .same rfl rfl

theorem Alike.moves (h : Alike s s') (hcode : ∀ q, (s.processes q).isZombie = true →
    (s'.processes q).waitCode = (s.processes q).waitCode) (hreply : reply.reapedChild = none) :
    Moves s s' op reply :=
  .of_processes (congrArg System.numProcesses h.rest :) (congrArg System.groups h.rest :) hreply
    (fun q => ⟨(congrArg Process.pid (h.processes q) :),(congrArg Process.freed (h.processes q) :)⟩)
    (fun q hq => ⟨(congrArg Process.isZombie (h.processes q) :).trans hq,hcode q hq⟩)
    fun q _ => .same (congrArg Process.parent (h.processes q) :)
      (congrArg Process.group (h.processes q) :)

theorem Passed.moves (h : Passed s s') (hreply : reply.reapedChild = none) : Moves s s' op reply := by
  refine .of_processes (congrArg System.numProcesses h.rest :) (congrArg System.groups h.rest :)
    hreply h.kept (fun q hq => ⟨h.zombie q hq,h.code q hq⟩) fun q hq => ?_
  rcases h.parent q hq with ⟨hparent,hgroup⟩ | ⟨p,hp,hz,hz',hparent,hgroup⟩
  · exact .same hparent hgroup
  · exact .orphaned p hp hz hz' hparent hgroup

theorem Joined.moves (h : Joined s s' p g) (hreply : reply.reapedChild = none)
    (hregroups : (s'.processes p).parent = (s.processes p).parent → Regroups s s' op p) :
    Moves s s' op reply := by
  have hn : s'.numProcesses = s.numProcesses := (congrArg System.numProcesses h.rest :)
  have hfields : ∀ q, (s'.processes q).pid = (s.processes q).pid ∧
      (s'.processes q).freed = (s.processes q).freed ∧
      (s'.processes q).parent = (s.processes q).parent := by
    intro q
    rw [h.processes]
    by_cases hq : q = p <;> simp [hq]
  have hcode : ∀ q, (s.processes q).isZombie = true → (s'.processes q).isZombie = true ∧
      (s'.processes q).waitCode = (s.processes q).waitCode := by
    intro q hz
    rw [h.processes]
    by_cases hq : q = p
    · subst hq
      simp [hz]
    · simp [hq,hz]
  refine ⟨Nat.le_of_eq hn.symm,h.groups,fun q _ => (hfields q).1,fun q hle hlt => ?_,fun q _ => ?_,
    fun q hq => ?_,fun q _ => hcode q,fun q _ => ?_⟩
  · exact absurd (hn ▸ hlt) (Nat.not_lt.mpr hle)
  · rw [(hfields q).2.1,hreply]
    simp
  · rw [hreply] at hq
    cases hq
  · by_cases hq : q = p
    · subst hq
      exact hregroups (hfields q).2.2
    · exact .same (hfields q).2.2 (by rw [h.processes,Function.update_of_ne hq])

theorem Deleted.moves (h : Deleted s₁ s' p) (ha : Alike s s₁)
    (hsame : ∀ q, (s₁.processes q).waitCode = (s.processes q).waitCode) (hp : s.Present p)
    (hcode : (s.processes p).waitCode ≠ 0) (hreply : reply.reapedChild = some p) :
    Moves s s' op reply := by
  have hn : s'.numProcesses = s.numProcesses :=
    (congrArg System.numProcesses h.rest :).trans (congrArg System.numProcesses ha.rest :)
  have hg : s'.groups = s.groups :=
    (congrArg System.groups h.rest :).trans (congrArg System.groups ha.rest :)
  have hpid : ∀ q, (s₁.processes q).pid = (s.processes q).pid :=
    fun q => (congrArg Process.pid (ha.processes q) :)
  have hparent : ∀ q, (s₁.processes q).parent = (s.processes q).parent :=
    fun q => (congrArg Process.parent (ha.processes q) :)
  have hgroup : ∀ q, (s₁.processes q).group = (s.processes q).group :=
    fun q => (congrArg Process.group (ha.processes q) :)
  have hfreed : ∀ q, (s₁.processes q).freed = (s.processes q).freed :=
    fun q => (congrArg Process.freed (ha.processes q) :)
  have hfields : ∀ q, (s'.processes q).pid = (s.processes q).pid ∧
      (s'.processes q).parent = (s.processes q).parent ∧
      (s'.processes q).group = (s.processes q).group := by
    intro q
    rw [h.processes,← hpid,← hparent,← hgroup]
    by_cases hq : q = p <;> simp [hq]
  have hzombies : ∀ q, (s.processes q).isZombie = true → (s'.processes q).isZombie = true ∧
      (s'.processes q).waitCode = (s.processes q).waitCode := by
    intro q hz
    rw [h.processes,← hsame,← (congrArg Process.isZombie (ha.processes q) :).trans hz]
    by_cases hq : q = p
    · subst hq
      simp [Process.core]
    · simp [hq,Process.core]
  refine ⟨Nat.le_of_eq hn.symm,fun j _ => by rw [hg],fun q _ => (hfields q).1,fun q hle hlt => ?_,
    fun q _ => ?_,fun q hq => ?_,fun q _ => hzombies q,
    fun q _ => .same (hfields q).2.1 (hfields q).2.2⟩
  · exact absurd (hn ▸ hlt) (Nat.not_lt.mpr hle)
  · rw [h.processes,hreply,← hfreed]
    by_cases hq : q = p
    · simp [hq]
    · simp [hq,Ne.symm hq]
  · obtain rfl : p = q := Option.some.inj (hreply.symm.trans hq)
    exact ⟨hp,hcode⟩

theorem Alike.passed (h : Alike s s') (hcode : ∀ q, (s.processes q).isZombie = true →
    (s'.processes q).waitCode = (s.processes q).waitCode) : Passed s s' := by
  refine ⟨?_,h.thread,fun q => ⟨?_,?_⟩,fun q hq => ?_,hcode,fun q _ => .inl ⟨?_,?_⟩⟩
  · rw [h.rest]
  · exact (congrArg Process.pid (h.processes q) :)
  · exact (congrArg Process.freed (h.processes q) :)
  · exact (congrArg Process.isZombie (h.processes q) :).trans hq
  · exact (congrArg Process.parent (h.processes q) :)
  · exact (congrArg Process.group (h.processes q) :)

theorem cloneThread_moves (h : Threaded s) (p : ProcessId) (hreply : reply.reapedChild = none) :
    Moves s (s.cloneThread p) op reply := by
  have hfields : ∀ q, ((s.cloneThread p).processes q).pid = (s.processes q).pid ∧
      ((s.cloneThread p).processes q).freed = (s.processes q).freed ∧
      ((s.cloneThread p).processes q).parent = (s.processes q).parent ∧
      ((s.cloneThread p).processes q).group = (s.processes q).group ∧
      ((s.cloneThread p).processes q).isZombie = (s.processes q).isZombie ∧
      ((s.cloneThread p).processes q).waitCode = (s.processes q).waitCode := by
    intro q
    rw [cloneThread_eq h.ends h.ne_nil]
    by_cases hq : q = p <;> simp [hq]
  refine .of_processes ?_ ?_ hreply (fun q => ⟨(hfields q).1,(hfields q).2.1⟩)
    (fun q hz => ⟨(hfields q).2.2.2.2.1.trans hz,(hfields q).2.2.2.2.2⟩)
    fun q _ => .same (hfields q).2.2.1 (hfields q).2.2.2.1
  · rw [cloneThread_eq h.ends h.ne_nil]
  · rw [cloneThread_eq h.ends h.ne_nil]

theorem cloneProcess_moves (h : Relinked (born s) s'
    (Function.update s.processes s.numProcesses (child s p))) (hreply : reply.reapedChild = none) :
    Moves s s' op reply := by
  have hn : s'.numProcesses = s.numProcesses + 1 := (congrArg System.numProcesses h :)
  have hprocesses : s'.processes = Function.update s.processes s.numProcesses (child s p) :=
    (congrArg System.processes h :)
  have hold : ∀ q, q < s.numProcesses → s'.processes q = s.processes q :=
    fun q hq => by rw [hprocesses,update_lt hq]
  refine ⟨hn ▸ Nat.le_succ _,fun j _ => ?_,fun q hq => by rw [hold q hq],fun q hle hlt => ?_,
    fun q hq => ?_,fun q hq => ?_,fun q hq hz => ?_,fun q hq => .same ?_ ?_⟩
  · rw [(congrArg System.groups h :)]
    rfl
  · have hlt : q < s.numProcesses + 1 := hn ▸ hlt
    obtain rfl : q = s.numProcesses := Nat.le_antisymm (Nat.lt_succ_iff.mp hlt) hle
    rw [hprocesses,Function.update_self]
    rfl
  · rw [hold q hq,hreply]
    simp
  · rw [hreply] at hq
    cases hq
  · rw [hold q hq]
    exact ⟨hz,rfl⟩
  · rw [hold q hq.2.1]
  · rw [hold q hq.2.1]

theorem caller_spec (hc : s.caller t = some p) : ∃ thread, s.thread t = some thread ∧
    thread.process = p ∧ thread.isZombie = false ∧ initProcess ≤ p := by
  rw [System.caller] at hc
  obtain ⟨thread,ht,hc⟩ := Option.bind_eq_some_iff.mp hc
  split_ifs at hc with hout
  obtain rfl := Option.some.inj hc
  rw [not_or,not_or] at hout
  exact ⟨thread,ht,rfl,by simpa using hout.1,Nat.pos_of_ne_zero hout.2.2⟩

theorem Good.caller (h : Good s) (hc : s.caller t = some p) :
    s.User p ∧ (s.processes p).isZombie = false := by
  obtain ⟨thread,ht,rfl,hz,hip⟩ := caller_spec hc
  exact ⟨h.user ht hip,h.threaded.alive ht hz hip⟩

theorem setWaiter_processes (s : System) (t : Nat) (waiter : Option Waiter) :
    (s.setWaiter t waiter).processes = s.processes := by
  rw [System.setWaiter]
  cases s.thread t <;> rfl

theorem setWaiter_code (s : System) (t : Nat) (waiter : Option Waiter) (q : ProcessId) :
    ((s.setWaiter t waiter).processes q).waitCode = (s.processes q).waitCode := by
  rw [setWaiter_processes]

theorem setProcess_code (hz : (s.processes p).isZombie = false) (process : Process)
    (hq : (s.processes q).isZombie = true) :
    ((s.setProcess p process).processes q).waitCode = (s.processes q).waitCode := by
  have hne : q ≠ p := by
    rintro rfl
    rw [hz] at hq
    cases hq
  simp [System.setProcess,hne]

theorem Good.pollChildren (h : Good s) {targets : List ProcessId} {options : WaitOptions} {stray : Int}
    (hs' : s.pollChildren t targets options stray = some (s',reply)) :
    Good s' ∧ Moves s s' op reply := by
  have hset := fun waiter => Alike.setWaiter s t waiter
  rw [System.pollChildren] at hs'
  cases hfind : targets.find? fun child => (s.processes child).waitCode ≠ 0 with
  | none =>
    simp only [hfind] at hs'
    split_ifs at hs' <;> cases hs'
    · exact ⟨h.alike (hset _),(hset _).moves (fun q _ => setWaiter_code s t _ q) rfl⟩
    · exact ⟨h.alike (hset _),(hset _).moves (fun q _ => setWaiter_code s t _ q) rfl⟩
  | some child =>
    simp only [hfind] at hs'
    split_ifs at hs' with hmain hnowait hz
    · cases hs'
      exact ⟨h.alike (hset _),(hset _).moves (fun q _ => setWaiter_code s t _ q) rfl⟩
    · obtain ⟨s₁,hs₁,hs'⟩ := Option.bind_eq_some_iff.mp hs'
      cases hs'
      have h₁ := h.alike (hset none)
      obtain ⟨hp,hz₁⟩ := h₁.deleteProcess_present hs₁
      obtain ⟨s₂,hs₂,hd,hgood⟩ := h₁.deleteProcess hp hz₁
      obtain rfl := Option.some.inj (hs₂.symm.trans hs₁)
      have hcode : (s.processes child).waitCode ≠ 0 := by simpa using List.find?_some hfind
      exact ⟨hgood,hd.moves (hset none) (setWaiter_code s t none)
        (((hset none).present child).mp hp) hcode rfl⟩
    · cases hs'
      have ha := (hset none).trans (Alike.setProcess (s.setWaiter t none) child
        { s.processes child with waitCode := 0 }
        (by rw [setWaiter_processes]; rfl))
      refine ⟨h.alike ha,ha.moves (fun q hq => ?_) rfl⟩
      rw [setProcess_code (by rw [setWaiter_processes]; simpa using hz) _
        (by rwa [setWaiter_processes]),setWaiter_code]

theorem Good.waitid (h : Good s) {idType : IdType} {id : Nat} {options : WaitOptions}
    (hs' : s.waitid t p idType id options = some (s',reply)) : Good s' ∧ Moves s s' op reply := by
  rw [System.waitid] at hs'
  split_ifs at hs' with hnone
  · cases hs'
    exact ⟨h,.refl s rfl⟩
  · obtain ⟨targets,-,hs'⟩ := Option.bind_eq_some_iff.mp hs'
    cases targets with
    | error e =>
      cases hs'
      exact ⟨h,.refl s rfl⟩
    | ok targets => exact h.pollChildren hs'

theorem Good.step (h : Good s) (hs' : s.step op = some (s',reply)) :
    Good s' ∧ Moves s s' op reply := by
  cases op with
  | kernelThread =>
    cases hs'
    have hkernel : kernelProcess < s.numProcesses := Nat.lt_trans Nat.zero_lt_one h.rooted.made
    exact ⟨h.cloneThread hkernel h.rooted.kernel.2.2 nofun,cloneThread_moves h.threaded _ rfl⟩
  | fork t =>
    obtain ⟨p,hc,hs'⟩ := Option.bind_eq_some_iff.mp hs'
    obtain ⟨s₁,hs₁,hs'⟩ := Option.bind_eq_some_iff.mp hs'
    obtain ⟨hu,hz⟩ := h.caller hc
    obtain ⟨s₂,hs₂,hre,hgood⟩ := h.cloneProcess hu.low hu.made hu.kept hz
    obtain rfl := Option.some.inj (hs₂.symm.trans hs₁)
    cases hs'
    exact ⟨hgood,cloneProcess_moves hre rfl⟩
  | cloneThread t =>
    obtain ⟨p,hc,hs'⟩ := Option.bind_eq_some_iff.mp hs'
    obtain ⟨hu,hz⟩ := h.caller hc
    cases hs'
    exact ⟨h.cloneThread hu.made hu.kept fun _ => hz,cloneThread_moves h.threaded _ rfl⟩
  | execve t =>
    obtain ⟨p,hc,hs'⟩ := Option.bind_eq_some_iff.mp hs'
    cases hs'
    have ha := Alike.setProcess s p
      { s.processes p with hasPerformedExecve := true } rfl
    exact ⟨h.alike ha,ha.moves (fun q => setProcess_code (h.caller hc).2 _) rfl⟩
  | setpgid t pid pgid =>
    obtain ⟨p,hc,hs'⟩ := Option.bind_eq_some_iff.mp hs'
    obtain ⟨⟨s₁,r⟩,hs₁,hs'⟩ := Option.bind_eq_some_iff.mp hs'
    cases hs'
    obtain ⟨hgood,rfl | ⟨q,g,hwho,hq,hj,hsession⟩⟩ := h.setpgid (h.caller hc).1 hs₁
    · exact ⟨hgood,.refl _ rfl⟩
    · exact ⟨hgood,hj.moves rfl fun hparent => .setpgid t pid pgid p rfl hc hwho hparent hsession⟩
  | setsid t =>
    obtain ⟨p,hc,hs'⟩ := Option.bind_eq_some_iff.mp hs'
    obtain ⟨⟨s₁,r⟩,hs₁,hs'⟩ := Option.bind_eq_some_iff.mp hs'
    cases hs'
    obtain ⟨hgood,rfl | ⟨hp,hj,hgroup⟩⟩ := h.setsid (h.caller hc).1 hs₁
    · exact ⟨hgood,.refl _ rfl⟩
    · refine ⟨hgood,hj.moves rfl fun hparent => .setsid t rfl hc hparent ?_⟩
      rw [hj.session,hgroup]
  | exit t =>
    obtain ⟨p,hc,hs'⟩ := Option.bind_eq_some_iff.mp hs'
    obtain ⟨s₁,hs₁,hs'⟩ := Option.bind_eq_some_iff.mp hs'
    cases hs'
    obtain ⟨thread,ht,rfl,-,hip⟩ := caller_spec hc
    obtain ⟨hgood,hpass⟩ := h.terminateThread ht hip hs₁
    exact ⟨hgood,hpass.moves rfl⟩
  | exitGroup t status =>
    obtain ⟨p,hc,hs'⟩ := Option.bind_eq_some_iff.mp hs'
    obtain ⟨s₁,hs₁,hs'⟩ := Option.bind_eq_some_iff.mp hs'
    cases hs'
    have ha := Alike.setProcess s p
      { s.processes p with waitStatus := status, waitCode := cldExited } rfl
    obtain ⟨hgood,hpass⟩ := (h.alike ha).terminateProcess (h.caller hc).1.low hs₁
    have hpass₁ := ha.passed fun q => setProcess_code (h.caller hc).2 _
    exact ⟨hgood,(hpass₁.trans hpass hgood.rooted.init_alive).moves rfl⟩
  | fatalSignal t signal =>
    obtain ⟨p,hc,hs'⟩ := Option.bind_eq_some_iff.mp hs'
    obtain ⟨s₁,hs₁,hs'⟩ := Option.bind_eq_some_iff.mp hs'
    cases hs'
    obtain ⟨hgood,hpass⟩ := h.terminateProcess (h.caller hc).1.low hs₁
    exact ⟨hgood,hpass.moves rfl⟩
  | report t status code =>
    obtain ⟨p,hc,hs'⟩ := Option.bind_eq_some_iff.mp hs'
    cases hs'
    have ha := Alike.setProcess s p
      { s.processes p with waitStatus := status, waitCode := code } rfl
    exact ⟨h.alike ha,ha.moves (fun q => setProcess_code (h.caller hc).2 _) rfl⟩
  | waitid t idType id options =>
    obtain ⟨p,hc,hs'⟩ := Option.bind_eq_some_iff.mp hs'
    exact h.waitid hs'
  | resume t interrupted stray =>
    obtain ⟨waiter,hw,hs'⟩ := Option.bind_eq_some_iff.mp hs'
    split_ifs at hs' with hint
    · cases hs'
      have ha := Alike.setWaiter s t none
      exact ⟨h.alike ha,ha.moves (fun q _ => setWaiter_code s t none q) rfl⟩
    · exact h.pollChildren hs'

end Steps

section Boot

theorem blank_siblings (p : ProcessId) : Links.init
    (Function.update System.blank.siblings (.siblingLink p) .null) (.childrenList p) =
      System.blank.siblings := by
  funext c
  cases c with
  | childrenList q => by_cases hq : q = p <;> simp [Links.init,System.blank,hq]
  | siblingLink q => by_cases hq : q = p <;> simp [Links.init,System.blank,hq]

theorem blank_groupLinks (p : ProcessId) :
    Function.update System.blank.groupLinks (.groupLink p) .null = System.blank.groupLinks := by
  funext c
  cases c with
  | processList g => simp
  | groupLink q => by_cases hq : q = p <;> simp [System.blank,hq]

theorem blank_processList (g : GroupId) :
    Links.init System.blank.groupLinks (.processList g) = System.blank.groupLinks := by
  funext c
  cases c with
  | processList j => by_cases hj : j = g <;> simp [Links.init,System.blank,hj]
  | groupLink q => simp [Links.init]

def kernelProcessOf (n : Nat) : Process := { pid := 2, numLivingThreads := n + 1 }

def kernelOnly (n : Nat) : System :=
  { System.blank with
    processes := Function.update System.blank.processes kernelProcess (kernelProcessOf n)
    numProcesses := 1
    threadTable := [none,none,none] ++ List.replicate (n + 1) (some { process := kernelProcess })
    firstFreeTid := n + 4 }

theorem kernelThreads_eq (n : Nat) : System.blank.init.kernelThreads n = kernelOnly n := by
  induction n with
  | zero =>
    have hnew : System.blank.newProcess = (0,{ System.blank with
        processes := Function.update System.blank.processes 0 { pid := 2 }
        numProcesses := 1
        threadTable := [none,none,none]
        firstFreeTid := 3 }) := by
      rw [System.newProcess]
      exact congrArg₂ (fun l k => ((0 : Nat),{ System.blank with
        processes := Function.update System.blank.processes 0 { pid := 2 }
        numProcesses := 1
        siblings := l
        groupLinks := k
        threadTable := [none,none,none]
        firstFreeTid := 3 })) (blank_siblings 0) (blank_groupLinks 0)
    rw [System.kernelThreads,System.init,hnew]
    simp only
    rw [cloneThread_eq rfl (by simp)]
    simp [kernelOnly,kernelProcessOf,spawned,kernelProcess]
  | succ n ih =>
    rw [System.kernelThreads,ih,cloneThread_eq (by simp [kernelOnly]) (by simp [kernelOnly])]
    simp [kernelOnly,kernelProcessOf,spawned,List.replicate_succ' (n := n + 1)]

def initProcessOf : Process where
  pid := 1
  numLivingThreads := 1
  parent := some initProcess
  group := some 0

theorem boot_eq (n : Nat) : System.boot n =
    { System.blank with
      processes := Function.update (kernelOnly n).processes initProcess initProcessOf
      numProcesses := 2
      groups := Function.update System.blank.groups 0 ⟨0,initProcess⟩
      numGroups := 1
      leaderGroup := Function.update System.blank.leaderGroup 0 (some 0)
      numSessions := 1
      threadTable := [none,some { process := initProcess },none] ++
        (List.replicate (n + 1) (some { process := kernelProcess }) ++ [none])
      firstFreeTid := n + 5 } := by
  have hsiblings := blank_siblings 1
  have hgroupLinks := blank_groupLinks 1
  have hprocessList := blank_processList 0
  have hgroups : System.blank.numGroups = 0 := rfl
  have hsessions : System.blank.numSessions = 0 := rfl
  rw [System.boot,kernelThreads_eq,System.createInitProcess,System.newProcess,
    allocateTid_eq (by simp [kernelOnly]) (by simp [kernelOnly])]
  simp [kernelOnly,System.newSession,System.newGroup,System.setProcess,System.setLeaderGroup,
    System.newThread,hsiblings,hgroupLinks,hprocessList,hgroups,hsessions,initProcessOf,initProcess]

theorem boot_not_present (n : Nat) (q : ProcessId) : ¬ (System.boot n).Present q := by
  rw [boot_eq]
  exact fun h => absurd h.2.1 (Nat.not_lt.mpr h.1)

theorem Linked.boot (n : Nat) : Linked (System.boot n) (fun _ => []) fun _ => [] := by
  have hout := boot_not_present n
  refine ⟨?_,?_,fun p q => by simp [hout],fun g q => by simp [hout]⟩ <;> rw [boot_eq]
  · refine ⟨⟨fun p => ⟨⟨rfl,rfl⟩,by simp⟩,fun p q h => SiblingCell.childrenList.inj h,by simp,by simp⟩,
      fun c hc => ?_⟩
    cases c with
    | childrenList p => exact absurd List.mem_cons_self (hc p)
    | siblingLink p => rfl
  · refine ⟨⟨fun g => ⟨⟨rfl,rfl⟩,by simp⟩,fun g j h => GroupCell.processList.inj h,by simp,by simp⟩,
      fun c hc => ?_⟩
    cases c with
    | processList g => exact absurd List.mem_cons_self (hc g)
    | groupLink p => rfl

theorem boot_processes (n : Nat) (p : ProcessId) : (System.boot n).processes p =
    if p = 1 then initProcessOf else if p = 0 then kernelProcessOf n else { pid := 0 } := by
  rw [boot_eq]
  by_cases h₁ : p = 1
  · simp [h₁,initProcess]
  · by_cases h₀ : p = 0 <;> simp [h₁,h₀,initProcess,kernelOnly,kernelProcess,System.blank]

theorem Rooted.boot (n : Nat) : Rooted (System.boot n) := by
  have hp := boot_processes n
  constructor
  · rw [boot_eq]
    exact Nat.lt_succ_self 1
  · rw [hp]
    exact ⟨rfl,rfl,rfl⟩
  · rw [hp]
    rfl
  · rw [hp]
    rfl
  · rw [hp]
    rfl
  · rw [hp]
    rfl
  · exact fun q hq => absurd hq (boot_not_present n q)
  · exact fun q hq => absurd hq (boot_not_present n q)
  · rw [boot_eq]
    exact ⟨Nat.zero_lt_one,by simp,by simp⟩
  · rw [boot_eq]
    intro g hg
    obtain rfl : g = 0 := Nat.lt_one_iff.mp hg
    simp
  · rw [boot_eq]
    intro i hi
    obtain rfl : i = 0 := Nat.lt_one_iff.mp hi
    simp
  · rw [hp]
    rfl

theorem boot_threadTable (n : Nat) : (System.boot n).threadTable =
    [none,some { process := initProcess },none] ++
      (List.replicate (n + 1) (some { process := kernelProcess }) ++ [none]) := by
  rw [boot_eq]

theorem boot_thread {n t : Nat} {thread : Thread} (ht : (System.boot n).thread t = some thread) :
    thread = { process := initProcess } ∨ thread = { process := kernelProcess } := by
  have hmem := List.mem_of_getElem? (getElem?_of_thread ht)
  rw [boot_threadTable] at hmem
  simp only [List.mem_append,List.mem_cons,List.mem_replicate,List.not_mem_nil,reduceCtorEq,
    Option.some.injEq,or_false,false_or] at hmem
  exact hmem.imp_right And.right

theorem boot_user {n : Nat} {p : ProcessId} (hp : p < (System.boot n).numProcesses) :
    p = 0 ∨ p = 1 := by
  rw [boot_eq] at hp
  exact Nat.le_one_iff_eq_zero_or_eq_one.mp (Nat.lt_succ_iff.mp hp)

theorem Threaded.boot (n : Nat) : Threaded (System.boot n) := by
  have hp := boot_processes n
  have hlen : (System.boot n).threadTable.length = n + 5 := by
    rw [boot_threadTable]
    simp
  have hn : (System.boot n).numProcesses = 2 := by rw [boot_eq]
  constructor
  · rw [hlen,boot_eq]
  · rw [hlen]
    omega
  · intro t thread ht
    rw [hn,hp]
    rcases boot_thread ht with rfl | rfl
    · exact ⟨Nat.lt_succ_self 1,rfl⟩
    · exact ⟨Nat.zero_lt_two,rfl⟩
  · intro p hlt
    rw [hp,System.living,boot_threadTable]
    rcases boot_user hlt with rfl | rfl
    · simp [kernelProcessOf,Thread.livesIn,kernelProcess,initProcess,List.countP_replicate]
    · simp [initProcessOf,Thread.livesIn,kernelProcess,initProcess,List.countP_replicate]
  · intro p hip hlt
    rw [hp]
    rcases boot_user hlt with rfl | rfl
    · cases hip
    · simp [initProcessOf]
  · intro p hlt hf
    rw [hp] at hf
    rcases boot_user hlt with rfl | rfl <;> cases hf
  · intro p hlt
    rw [hp,hlen]
    rcases boot_user hlt with rfl | rfl
    · simp [kernelProcessOf]
    · simp [initProcessOf]
  · intro p q hlt hlt'
    rw [hp,hp]
    rcases boot_user hlt with rfl | rfl <;> rcases boot_user hlt' with rfl | rfl <;>
      simp [kernelProcessOf,initProcessOf]
  · intro p hip hlt hf
    rcases boot_user hlt with rfl | rfl
    · cases hip
    · refine ⟨{ process := initProcess },?_,rfl⟩
      rw [hp,System.thread,boot_threadTable]
      rfl
  · intro p hlt hf
    rw [hp] at hf
    rcases boot_user hlt with rfl | rfl <;> cases hf
  · intro t thread ht
    rw [hp]
    rcases t with _ | _ | t
    · rw [System.thread,boot_threadTable] at ht
      cases ht
    · rw [System.thread,boot_threadTable] at ht
      cases ht
      exact Nat.le_refl 1
    · rcases boot_thread ht with rfl | rfl
      · exact Nat.le_add_left 1 (t + 1)
      · exact Nat.le_add_left 2 t

theorem Good.boot (n : Nat) : Good (System.boot n) :=
  ⟨⟨_,_,.boot n⟩,.boot n,.boot n⟩

end Boot

section Runs

variable {s s' : System} {p q : ProcessId} {n t : Nat} {op : Op} {ops : List Op} {reply : Reply}
  {replies : List Reply}

theorem Good.run (h : Good s) (hs' : s.run ops = some (s',replies)) : Good s' := by
  induction ops generalizing s replies with
  | nil =>
    cases hs'
    exact h
  | cons op ops ih =>
    obtain ⟨⟨s₁,reply⟩,hs₁,hs'⟩ := Option.bind_eq_some_iff.mp hs'
    obtain ⟨⟨s₂,rest⟩,hs₂,hs'⟩ := Option.bind_eq_some_iff.mp hs'
    cases hs'
    exact ih (h.step hs₁).1 hs₂

theorem process_tree (h : (System.boot n).run ops = some (s,replies)) :
    (∃ children members, Linked s children members ∧
      ∀ p, (s.processes p).isZombie = true → children p = []) ∧ Rooted s ∧ Threaded s := by
  have hgood := (Good.boot n).run h
  obtain ⟨C,M,hlinked⟩ := hgood.linked
  refine ⟨⟨C,M,hlinked,fun p hz => ?_⟩,hgood.rooted,hgood.threaded⟩
  rw [List.eq_nil_iff_forall_not_mem]
  intro q hq
  obtain ⟨hpresent,hparent⟩ := (hlinked.mem_children p q).mp hq
  obtain ⟨r,hr,-,-,-,halive⟩ := hgood.rooted.parent q hpresent
  obtain rfl : p = r := Option.some.inj (hparent.symm.trans hr)
  rw [hz] at halive
  cases halive

theorem process_tree_exit : ∃ s replies,
    (System.boot 0).run [.fork 1,.fork 5,.exitGroup 5 3] = some (s,replies) ∧ Rooted s := by
  obtain ⟨⟨s,replies⟩,hrun⟩ := Option.isSome_iff_exists.mp
    (show ((System.boot 0).run [.fork 1,.fork 5,.exitGroup 5 3]).isSome = true by decide)
  exact ⟨s,replies,hrun,(process_tree hrun).2.1⟩

theorem run_cons (hs' : s.run (op :: ops) = some (s',replies)) : ∃ s₁ reply rest,
    s.step op = some (s₁,reply) ∧ s₁.run ops = some (s',rest) ∧ replies = reply :: rest := by
  obtain ⟨⟨s₁,reply⟩,hs₁,hs'⟩ := Option.bind_eq_some_iff.mp hs'
  obtain ⟨⟨s₂,rest⟩,hs₂,hs'⟩ := Option.bind_eq_some_iff.mp hs'
  cases hs'
  exact ⟨s₁,reply,rest,hs₁,hs₂,rfl⟩

theorem Moves.present (hm : Moves s s' op reply) (hq : q < s.numProcesses) (hq' : s'.Present q) :
    s.Present q := by
  refine ⟨hq'.1,hq,?_⟩
  by_contra hf
  have hgone := (hm.freed q hq).mpr (.inl (by simpa using hf))
  rw [hq'.2.2] at hgone
  cases hgone

theorem Good.run_present (h : Good s) (hs' : s.run ops = some (s',replies))
    (hq : q < s.numProcesses) (hq' : s'.Present q) : s.Present q := by
  induction ops generalizing s replies with
  | nil =>
    cases hs'
    exact hq'
  | cons op ops ih =>
    obtain ⟨s₁,reply,rest,hs₁,hs₂,-⟩ := run_cons hs'
    obtain ⟨h₁,hm⟩ := h.step hs₁
    exact hm.present hq (ih h₁ hs₂ (Nat.lt_of_lt_of_le hq hm.made))

theorem Regroups.parent (hr : Regroups s s' op q) :
    (s'.processes q).parent = (s.processes q).parent ∨
      (s'.processes q).parent = some initProcess := by
  cases hr with
  | same hparent => exact .inl hparent
  | orphaned p _ _ _ hinit => exact .inr hinit
  | setpgid _ _ _ _ _ _ _ hparent => exact .inl hparent
  | setsid _ _ _ hparent => exact .inl hparent

theorem Good.run_init_child (h : Good s) (hs' : s.run ops = some (s',replies)) (hq : s.Present q)
    (hq' : s'.Present q) (hinit : (s.processes q).parent = some initProcess) :
    (s'.processes q).parent = some initProcess := by
  induction ops generalizing s replies with
  | nil =>
    cases hs'
    exact hinit
  | cons op ops ih =>
    obtain ⟨s₁,reply,rest,hs₁,hs₂,-⟩ := run_cons hs'
    obtain ⟨h₁,hm⟩ := h.step hs₁
    have hq₁ := h₁.run_present hs₂ (Nat.lt_of_lt_of_le hq.2.1 hm.made) hq'
    refine ih h₁ hs₂ hq₁ ?_
    rcases (hm.regroups q hq).parent with hparent | hparent
    · exact hparent.trans hinit
    · exact hparent

def System.Stays (s : System) (q : ProcessId) : List Op → Prop
  | [] => True
  | op :: ops => (∀ t, op = .setsid t → s.caller t ≠ some q) ∧
      ∀ s' reply, s.step op = some (s',reply) → s'.Stays q ops

theorem Moves.session (hm : Moves s s' op reply) (h : Good s) (hq : s.Present q)
    (hgroup : (s'.processes q).group = (s.processes q).group) : sessionOf s' q = sessionOf s q := by
  obtain ⟨g,hg,hlt⟩ := h.rooted.group q hq
  rw [sessionOf,sessionOf,hgroup,hg,Option.map_some,Option.map_some,hm.groups g hlt]

theorem Good.keeps_session (h : Good s) (hs' : s.run ops = some (s',replies)) (hq : s.Present q)
    (hq' : s'.Present q) (hparent : (s'.processes q).parent = (s.processes q).parent)
    (hstays : s.Stays q ops) : sessionOf s' q = sessionOf s q := by
  induction ops generalizing s replies with
  | nil =>
    cases hs'
    rfl
  | cons op ops ih =>
    obtain ⟨s₁,reply,rest,hs₁,hs₂,-⟩ := run_cons hs'
    obtain ⟨h₁,hm⟩ := h.step hs₁
    have hq₁ := h₁.run_present hs₂ (Nat.lt_of_lt_of_le hq.2.1 hm.made) hq'
    have hnext : (s₁.processes q).parent = (s.processes q).parent →
        sessionOf s' q = sessionOf s₁ q := fun heq =>
      ih h₁ hs₂ hq₁ (hparent.trans heq.symm) (hstays.2 s₁ reply hs₁)
    cases hm.regroups q hq with
    | same hparent₁ hgroup => exact (hnext hparent₁).trans (hm.session h hq hgroup)
    | setpgid _ _ _ _ _ _ _ hparent₁ hsession => exact (hnext hparent₁).trans hsession
    | setsid t hop hcaller => exact absurd hcaller (hstays.1 t hop)
    | orphaned p hp _ hz hinit =>
      -- the parent would be `init` from here on, and `init` does not end
      have hend := h₁.run_init_child hs₂ hq₁ hq' hinit
      obtain rfl : initProcess = p := Option.some.inj (hend.symm.trans (hparent.trans hp))
      rw [h₁.rooted.init_alive] at hz
      cases hz

theorem session_kept {ops' : List Op} {replies' : List Reply}
    (h : (System.boot n).run ops = some (s,replies)) (hs' : s.run ops' = some (s',replies'))
    (hq : s.Present q) (hq' : s'.Present q)
    (hparent : (s'.processes q).parent = (s.processes q).parent) (hstays : s.Stays q ops') :
    sessionOf s' q = sessionOf s q :=
  ((Good.boot n).run h).keeps_session hs' hq hq' hparent hstays

theorem session_kept_setpgid : ∃ s s' replies replies',
    (System.boot 0).run [.fork 1] = some (s,replies) ∧
      s.run [.setpgid 5 0 0] = some (s',replies') ∧ sessionOf s' 2 = sessionOf s 2 := by
  obtain ⟨⟨s,replies⟩,hrun,hcheck⟩ := (Option.any_eq_true _ _).mp
    (show ((System.boot 0).run [.fork 1]).any (fun r => r.1.Present 2 ∧
      (r.1.run [.setpgid 5 0 0]).any fun r' => r'.1.Present 2 ∧
        (r'.1.processes 2).parent = (r.1.processes 2).parent) = true by decide)
  obtain ⟨hq,hcheck⟩ := of_decide_eq_true hcheck
  obtain ⟨⟨s',replies'⟩,hrun',hcheck⟩ := (Option.any_eq_true _ _).mp hcheck
  obtain ⟨hq',hparent⟩ := of_decide_eq_true hcheck
  exact ⟨s,s',replies,replies',hrun,hrun',session_kept hrun hrun' hq hq' hparent
    ⟨fun _ => nofun,fun _ _ _ => trivial⟩⟩

theorem orphans_join_init (h : (System.boot n).run ops = some (s,replies))
    (hs' : s.step op = some (s',reply)) (hq : s.Present q) (hq' : s'.Present q)
    (hparent : (s.processes q).parent = some p) (hz : (s'.processes p).isZombie = true) :
    (s'.processes q).parent = some initProcess ∧
      (s'.processes q).group = (s'.processes initProcess).group ∧
      sessionOf s' q = sessionOf s' initProcess := by
  obtain ⟨hgood,hm⟩ := ((Good.boot n).run h).step hs'
  have hmoved : (s'.processes q).parent ≠ (s.processes q).parent := by
    intro heq
    obtain ⟨r,hr,-,-,-,halive⟩ := hgood.rooted.parent q hq'
    obtain rfl : p = r := Option.some.inj ((heq.trans hparent).symm.trans hr)
    rw [hz] at halive
    cases halive
  cases hm.regroups q hq with
  | same hsame => exact absurd hsame hmoved
  | setpgid _ _ _ _ _ _ _ hsame => exact absurd hsame hmoved
  | setsid _ _ _ hsame => exact absurd hsame hmoved
  | orphaned _ _ _ _ hinit hgroup =>
    have hzero := hgroup.trans hgood.rooted.init_group.symm
    exact ⟨hinit,hzero,by rw [sessionOf,sessionOf,hzero]⟩

theorem orphans_join_init_exit : ∃ s s' replies reply,
    (System.boot 0).run [.fork 1,.fork 5] = some (s,replies) ∧
      s.step (.exitGroup 5 3) = some (s',reply) ∧ (s'.processes 3).parent = some initProcess := by
  obtain ⟨⟨s,replies⟩,hrun,hcheck⟩ := (Option.any_eq_true _ _).mp
    (show ((System.boot 0).run [.fork 1,.fork 5]).any (fun r => r.1.Present 3 ∧
      (r.1.processes 3).parent = some 2 ∧ (r.1.step (.exitGroup 5 3)).any fun r' =>
        r'.1.Present 3 ∧ (r'.1.processes 2).isZombie = true) = true by decide)
  obtain ⟨hq,hparent,hcheck⟩ := of_decide_eq_true hcheck
  obtain ⟨⟨s',reply⟩,hstep,hcheck⟩ := (Option.any_eq_true _ _).mp hcheck
  obtain ⟨hq',hz⟩ := of_decide_eq_true hcheck
  exact ⟨s,s',replies,reply,hrun,hstep,(orphans_join_init hrun hstep hq hq' hparent hz).1⟩

def reapedChildren (replies : List Reply) : List ProcessId := replies.filterMap Reply.reapedChild

theorem reapedChildren_cons (reply : Reply) (rest : List Reply) :
    q ∈ reapedChildren (reply :: rest) ↔ reply.reapedChild = some q ∨ q ∈ reapedChildren rest := by
  simp only [reapedChildren,List.filterMap_cons]
  cases reply.reapedChild <;> simp [eq_comm]

theorem Good.reaped_fresh (h : Good s) (hs' : s.run ops = some (s',replies)) :
    (reapedChildren replies).Nodup ∧
      ∀ q, q ∈ reapedChildren replies → q < s.numProcesses → (s.processes q).freed = false := by
  induction ops generalizing s replies with
  | nil =>
    cases hs'
    exact ⟨List.nodup_nil,by simp [reapedChildren]⟩
  | cons op ops ih =>
    obtain ⟨s₁,reply,rest,hs₁,hs₂,rfl⟩ := run_cons hs'
    obtain ⟨h₁,hm⟩ := h.step hs₁
    obtain ⟨hnd,hfresh⟩ := ih h₁ hs₂
    refine ⟨?_,fun q hq hlt => ?_⟩
    · cases hreply : reply.reapedChild with
      | none => simpa [reapedChildren,hreply] using hnd
      | some child =>
        obtain ⟨hp,-⟩ := hm.reaped child hreply
        have hgone := (hm.freed child hp.2.1).mpr (.inr hreply)
        have hout : child ∉ reapedChildren rest := by
          intro hm'
          rw [hfresh child hm' (Nat.lt_of_lt_of_le hp.2.1 hm.made)] at hgone
          cases hgone
        simpa [reapedChildren,hreply] using ⟨by simpa [reapedChildren] using hout,hnd⟩
    · rcases (reapedChildren_cons reply rest).mp hq with hreply | hrest
      · exact (hm.reaped q hreply).1.2.2
      · have hf := hfresh q hrest (Nat.lt_of_lt_of_le hlt hm.made)
        by_contra hgone
        rw [(hm.freed q hlt).mpr (.inl (by simpa using hgone))] at hf
        cases hf

theorem Good.reaped_freed (h : Good s) (hs' : s.run ops = some (s',replies)) :
    s.numProcesses ≤ s'.numProcesses ∧
      (∀ q, q < s.numProcesses → (s'.processes q).pid = (s.processes q).pid) ∧
      (∀ q, q < s'.numProcesses → ((s'.processes q).freed = true ↔
        q < s.numProcesses ∧ (s.processes q).freed = true ∨ q ∈ reapedChildren replies)) ∧
      ∀ q, q ∈ reapedChildren replies → q < s'.numProcesses := by
  induction ops generalizing s replies with
  | nil =>
    cases hs'
    exact ⟨Nat.le_refl _,fun _ _ => rfl,fun q hq => by simp [reapedChildren,hq],
      fun q hq => absurd hq List.not_mem_nil⟩
  | cons op ops ih =>
    obtain ⟨s₁,reply,rest,hs₁,hs₂,rfl⟩ := run_cons hs'
    obtain ⟨h₁,hm⟩ := h.step hs₁
    obtain ⟨hle,hpid,hfreed,hmade⟩ := ih h₁ hs₂
    refine ⟨Nat.le_trans hm.made hle,fun q hq => ?_,fun q hq => ?_,fun q hq => ?_⟩
    · exact (hpid q (Nat.lt_of_lt_of_le hq hm.made)).trans (hm.pid q hq)
    · rw [hfreed q hq,reapedChildren_cons]
      by_cases hlt : q < s.numProcesses
      · rw [hm.freed q hlt]
        simp only [hlt,Nat.lt_of_lt_of_le hlt hm.made,true_and]
        exact or_assoc
      · have hreply : reply.reapedChild ≠ some q := fun heq => hlt (hm.reaped q heq).1.2.1
        simp only [hlt,false_and,false_or,hreply]
        refine or_iff_right fun ⟨hlt₁,hf⟩ => ?_
        rw [hm.fresh q (Nat.not_lt.mp hlt) hlt₁] at hf
        cases hf
    · rcases (reapedChildren_cons reply rest).mp hq with hreply | hrest
      · exact Nat.lt_of_lt_of_le (hm.reaped q hreply).1.2.1 (Nat.le_trans hm.made hle)
      · exact hmade q hrest

theorem reaped_once (h : (System.boot n).run ops = some (s,replies)) :
    (reapedChildren replies).Nodup ∧
      (∀ q, q < s.numProcesses →
        ((s.processes q).freed = true ↔ q ∈ reapedChildren replies)) ∧
      (∀ p q, p < s.numProcesses → q < s.numProcesses →
        (s.processes p).pid = (s.processes q).pid → p = q) ∧
      ∀ q, q ∈ reapedChildren replies → s.thread (s.processes q).pid = none := by
  have hboot := Good.boot n
  have hgood := hboot.run h
  obtain ⟨hle,-,hfreed,hmade⟩ := hboot.reaped_freed h
  obtain ⟨hnd,-⟩ := hboot.reaped_fresh h
  have hiff : ∀ q, q < s.numProcesses →
      ((s.processes q).freed = true ↔ q ∈ reapedChildren replies) := by
    intro q hq
    rw [hfreed q hq,or_iff_right]
    rintro ⟨hlt,hf⟩
    rw [boot_processes] at hf
    rcases boot_user hlt with rfl | rfl <;> cases hf
  refine ⟨hnd,hiff,hgood.threaded.pid_inj,fun q hq => ?_⟩
  exact hgood.threaded.gone q (hmade q hq) ((hiff q (hmade q hq)).mpr hq)

theorem reaped_once_child : ∃ s replies,
    (System.boot 0).run [.fork 1,.exitGroup 5 3,.waitid 1 .all 0 { exited := true }] =
        some (s,replies) ∧ 2 ∈ reapedChildren replies ∧ s.thread (s.processes 2).pid = none := by
  obtain ⟨⟨s,replies⟩,hrun,hcheck⟩ := (Option.any_eq_true _ _).mp
    (show ((System.boot 0).run [.fork 1,.exitGroup 5 3,.waitid 1 .all 0 { exited := true }]).any
      (fun r => 2 ∈ reapedChildren r.2) = true by decide)
  have hmem := of_decide_eq_true hcheck
  exact ⟨s,replies,hrun,hmem,(reaped_once hrun).2.2.2 2 hmem⟩

theorem Good.zombie_stays (h : Good s) (hs' : s.run ops = some (s',replies)) (hq : s.Present q)
    (hz : (s.processes q).isZombie = true) (hcode : (s.processes q).waitCode = 0) :
    s'.Present q ∧ (s'.processes q).isZombie = true ∧ (s'.processes q).waitCode = 0 := by
  induction ops generalizing s replies with
  | nil =>
    cases hs'
    exact ⟨hq,hz,hcode⟩
  | cons op ops ih =>
    obtain ⟨s₁,reply,rest,hs₁,hs₂,-⟩ := run_cons hs'
    obtain ⟨h₁,hm⟩ := h.step hs₁
    obtain ⟨hz₁,hcode₁⟩ := hm.code q hq.2.1 hz
    refine ih h₁ hs₂ ⟨hq.1,Nat.lt_of_lt_of_le hq.2.1 hm.made,?_⟩ hz₁ (hcode₁.trans hcode)
    by_contra hf
    rcases (hm.freed q hq.2.1).mp (by simpa using hf) with hgone | hreply
    · rw [hq.2.2] at hgone
      cases hgone
    · exact (hm.reaped q hreply).2 hcode

theorem step_waitid (hc : s.caller t = some p) {idType : IdType} {id : Nat} {options : WaitOptions}
    (hexited : options.exited = true) {targets : List ProcessId}
    (htargets : s.targetChildren p idType id options = some (.ok targets)) :
    s.step (.waitid t idType id options) = s.pollChildren t targets options 0 := by
  rw [System.step,hc,Option.bind_eq_bind,Option.bind_some,System.waitid,
    if_neg (by simp [hexited]),htargets]
  rfl

theorem Good.getMainThread (h : Good s) (hq : s.Present q) (stray : Int) :
    s.getMainThread q stray = some ((s.processes q).pid : Int) := by
  have hfind : (s.threadList q).head? = some (s.processes q).pid := by
    rw [System.threadList,List.head?_filter,List.find?_range_eq_some]
    obtain ⟨thread,ht,hthread⟩ := h.threaded.main q (Nat.le_of_lt hq.1) hq.2.1 hq.2.2
    refine ⟨by simp [ht,hthread],List.mem_range.mpr (thread_lt ht),fun u hu => ?_⟩
    cases hslot : s.thread u with
    | none => rfl
    | some other =>
      have hne : other.process ≠ q := by
        rintro rfl
        exact absurd (h.threaded.first u other hslot) (Nat.not_le.mpr hu)
      simp [hne]
  rw [System.getMainThread,hfind]
  exact if_pos rfl

theorem Good.getMainThread_reaped (h : Good s) (hq : ¬s.Present q)
    (hz : (s.processes q).isZombie = true) (stray : Int) :
    s.getMainThread q stray = if stray = (s.processes q).pid then some stray else none := by
  have hnil : s.threadList q = [] := by
    rw [List.eq_nil_iff_forall_not_mem]
    intro u hu
    obtain ⟨thread,ht,rfl⟩ := mem_threadList.mp hu
    obtain ⟨hlt,hf⟩ := h.threaded.owner u thread ht
    have hlow : thread.process = kernelProcess ∨ thread.process = initProcess := by
      have hle := Nat.not_lt.mp fun hlow => hq ⟨hlow,hlt,hf⟩
      exact Nat.le_one_iff_eq_zero_or_eq_one.mp hle
    rcases hlow with heq | heq
    · rw [heq,h.rooted.kernel_alive] at hz
      cases hz
    · rw [heq,h.rooted.init_alive] at hz
      cases hz
  rw [System.getMainThread,hnil]
  rfl

theorem Good.poll_reaps (h : Good s) {targets : List ProcessId} {options : WaitOptions}
    (hfind : (targets.find? fun child => (s.processes child).waitCode ≠ 0) = some q)
    (hq : s.Present q) (hz : (s.processes q).isZombie = true) (hnowait : options.nowait = false)
    (stray : Int) : ∃ s', s.pollChildren t targets options stray = some (s',.reaped q (s.processes q).pid
      (s.processes q).waitStatus (s.processes q).waitCode) ∧ ¬ s'.Present q := by
  have hset := Alike.setWaiter s t none
  obtain ⟨s',hs',hd,-⟩ := (h.alike hset).deleteProcess ((hset.present q).mpr hq)
    (by rw [setWaiter_processes]; exact hz)
  refine ⟨s',?_,fun hp => ((hd.present q).mp hp).2 rfl⟩
  rw [System.pollChildren,hfind]
  simp only [h.getMainThread hq,reduceCtorEq,and_false,hnowait,hz,Bool.false_eq_true,if_false,if_true,
    hs']
  rfl

theorem zombie_fate (h : (System.boot n).run ops = some (s,replies)) (hq : s.Present q)
    (hz : (s.processes q).isZombie = true) (hparent : (s.processes q).parent = some p)
    (hc : s.caller t = some p) (options : WaitOptions) (hexited : options.exited = true)
    (hnowait : options.nowait = false) :
    ((s.processes q).waitCode ≠ 0 → ∃ s',
      s.step (.waitid t .pid (s.processes q).pid options) = some (s',.reaped q (s.processes q).pid
        (s.processes q).waitStatus (s.processes q).waitCode) ∧ ¬ s'.Present q) ∧
    ((s.processes q).waitCode = 0 → ∀ ops' s' replies', s.run ops' = some (s',replies') →
      s'.Present q ∧ (s'.processes q).isZombie = true ∧ (s'.processes q).waitCode = 0) := by
  have hgood := (Good.boot n).run h
  refine ⟨fun hcode => ?_,fun hcode ops' s' replies' hs' => hgood.zombie_stays hs' hq hz hcode⟩
  obtain ⟨thread,ht,hthread⟩ := hgood.threaded.main q (Nat.le_of_lt hq.1) hq.2.1 hq.2.2
  have htargets : s.targetChildren p .pid (s.processes q).pid options =
      some (.ok (System.addChild options q)) := by
    rw [System.targetChildren,ht]
    simp [hthread,hparent]
  rw [step_waitid hc hexited htargets]
  refine hgood.poll_reaps ?_ hq hz hnowait 0
  rw [System.addChild,if_pos hexited]
  simp [hcode]

theorem zombie_fate_exitGroup : ∃ s s' replies,
    (System.boot 0).run [.fork 1,.exitGroup 5 3] = some (s,replies) ∧
      s.step (.waitid 1 .pid (s.processes 2).pid { exited := true }) =
        some (s',.reaped 2 (s.processes 2).pid (s.processes 2).waitStatus (s.processes 2).waitCode) ∧
      ¬ s'.Present 2 := by
  obtain ⟨⟨s,replies⟩,hrun,hcheck⟩ := (Option.any_eq_true _ _).mp
    (show ((System.boot 0).run [.fork 1,.exitGroup 5 3]).any (fun r => r.1.Present 2 ∧
      (r.1.processes 2).isZombie = true ∧ (r.1.processes 2).parent = some 1 ∧
        r.1.caller 1 = some 1 ∧ (r.1.processes 2).waitCode ≠ 0) = true by decide)
  obtain ⟨hq,hz,hparent,hc,hcode⟩ := of_decide_eq_true hcheck
  obtain ⟨s',hs',hout⟩ := (zombie_fate hrun hq hz hparent hc { exited := true } rfl rfl).1 hcode
  exact ⟨s,s',replies,hrun,hs',hout⟩

def Reply.child : Reply → Option ProcessId
  | .reaped child _ _ _ => some child
  | .reported child _ _ _ => some child
  | _ => none

theorem Good.poll_finds (h : Good s) {targets : List ProcessId} {options : WaitOptions}
    (hfind : (targets.find? fun child => (s.processes child).waitCode ≠ 0) = some q)
    (hq : s.Present q) (stray : Int) :
    ∃ s' reply, s.pollChildren t targets options stray = some (s',reply) ∧ reply.child = some q := by
  by_cases hnowait : options.nowait = true
  · rw [System.pollChildren,hfind]
    simp only [h.getMainThread hq,reduceCtorEq,and_false,hnowait,if_false,if_true]
    exact ⟨_,_,rfl,rfl⟩
  · by_cases hz : (s.processes q).isZombie = true
    · obtain ⟨s',hs',-⟩ := h.poll_reaps (t := t) hfind hq hz (by simpa using hnowait) stray
      exact ⟨s',_,hs',rfl⟩
    · rw [System.pollChildren,hfind]
      simp only [h.getMainThread hq,reduceCtorEq,and_false,hnowait,hz,Bool.false_eq_true,if_false]
      exact ⟨_,_,rfl,rfl⟩

theorem mapM_listEntry (cs : List ProcessId) :
    (cs.map SiblingCell.siblingLink).mapM SiblingCell.listEntry = some cs := by
  induction cs with
  | nil => rfl
  | cons c cs ih =>
    rw [List.map_cons,List.mapM_cons,ih]
    rfl

theorem mem_addChild {options : WaitOptions} {c : ProcessId} (hc : c ∈ System.addChild options q) :
    c = q := by
  simp only [System.addChild,List.mem_append] at hc
  rcases hc with (hc | hc) | hc <;> split_ifs at hc <;> simp at hc <;> exact hc

theorem Linked.targetChildren_all {C M : Nat → List ProcessId} (h : Linked s C M) (hq : q ∈ C p)
    (id : Nat) (options : WaitOptions) : s.targetChildren p .all id options =
      some (.ok ((C p).flatMap (System.addChild options))) := by
  have hring := h.siblings.ring p
  obtain ⟨c,cs,hC⟩ := List.exists_cons_of_ne_nil (List.ne_nil_of_mem hq)
  have hnext := hring.path.next_eq
  rw [hC,List.map_cons] at hnext
  have hempty : s.siblings.isEmpty (.childrenList p) = false := by
    simpa [Links.isEmpty] using fun heq => by
      rw [heq] at hnext
      cases hnext
  have hcollect : s.siblings.collect (.childrenList p) (s.numProcesses + 1) =
      some ((C p).map .siblingLink) :=
    hring.collect_eq (by rw [List.length_map]; exact h.length_children p)
  rw [System.targetChildren]
  simp only [hempty,Bool.false_eq_true,if_false,hcollect,Option.bind_eq_bind,Option.bind_some,
    mapM_listEntry]
  rfl

theorem wait_any (h : (System.boot n).run ops = some (s,replies)) (hq : s.Present q)
    (hparent : (s.processes q).parent = some p) (hcode : (s.processes q).waitCode ≠ 0)
    (hc : s.caller t = some p) (id : Nat) (options : WaitOptions) (hexited : options.exited = true) :
    ∃ s' reply c, s.step (.waitid t .all id options) = some (s',reply) ∧ reply.child = some c ∧
      s.Present c ∧ (s.processes c).parent = some p ∧ (s.processes c).waitCode ≠ 0 := by
  have hgood := (Good.boot n).run h
  obtain ⟨C,M,hlinked⟩ := hgood.linked
  have hqC := (hlinked.mem_children p q).mpr ⟨hq,hparent⟩
  have hmem : q ∈ (C p).flatMap (System.addChild options) := by
    refine List.mem_flatMap.mpr ⟨q,hqC,?_⟩
    rw [System.addChild,if_pos hexited]
    simp
  obtain ⟨c,hfind⟩ := Option.isSome_iff_exists.mp (List.find?_isSome
    (p := fun child => (s.processes child).waitCode ≠ 0) |>.mpr ⟨q,hmem,by simpa using hcode⟩)
  obtain ⟨c',hc',hmem'⟩ := List.mem_flatMap.mp (List.mem_of_find?_eq_some hfind)
  obtain rfl := mem_addChild hmem'
  obtain ⟨hpresent,hparent'⟩ := (hlinked.mem_children p c).mp hc'
  rw [step_waitid hc hexited (hlinked.targetChildren_all hqC id options)]
  obtain ⟨s',reply,hs',hchild⟩ := hgood.poll_finds (t := t) hfind hpresent 0
  exact ⟨s',reply,c,hs',hchild,hpresent,hparent',by simpa using List.find?_some hfind⟩

theorem wait_any_exitGroup : ∃ s s' replies reply c,
    (System.boot 0).run [.fork 1,.exitGroup 5 3] = some (s,replies) ∧
      s.step (.waitid 1 .all 0 { exited := true }) = some (s',reply) ∧ reply.child = some c := by
  obtain ⟨⟨s,replies⟩,hrun,hcheck⟩ := (Option.any_eq_true _ _).mp
    (show ((System.boot 0).run [.fork 1,.exitGroup 5 3]).any (fun r => r.1.Present 2 ∧
      (r.1.processes 2).parent = some 1 ∧ (r.1.processes 2).waitCode ≠ 0 ∧
        r.1.caller 1 = some 1) = true by decide)
  obtain ⟨hq,hparent,hcode,hc⟩ := of_decide_eq_true hcheck
  obtain ⟨s',reply,c,hs',hchild,-⟩ := wait_any hrun hq hparent hcode hc 0 { exited := true } rfl
  exact ⟨s,s',replies,reply,c,hrun,hs',hchild⟩

end Runs

end SabaOS.Sched.Processes
