import SabaOS.Sched.ProcessInvariant

namespace SabaOS.Sched.Processes

open SabaOS.Lib

section Ended

variable {s s' : System} {C M : Nat → List ProcessId} {p q : ProcessId} {g : GroupId} {t : Nat}
  {thread : Thread}

structure Passed (s s' : System) : Prop where
  rest : s' = { s with
    processes := s'.processes, siblings := s'.siblings, groupLinks := s'.groupLinks
    threadTable := s'.threadTable }
  thread : ∀ t, (s'.thread t).map Thread.process = (s.thread t).map Thread.process
  kept : ∀ q, (s'.processes q).pid = (s.processes q).pid ∧
    (s'.processes q).freed = (s.processes q).freed
  zombie : ∀ q, (s.processes q).isZombie = true → (s'.processes q).isZombie = true
  code : ∀ q, (s.processes q).isZombie = true →
    (s'.processes q).waitCode = (s.processes q).waitCode
  parent : ∀ q, s.Present q → (s'.processes q).parent = (s.processes q).parent ∧
      (s'.processes q).group = (s.processes q).group ∨
    ∃ p, (s.processes q).parent = some p ∧ (s.processes p).isZombie = false ∧
      (s'.processes p).isZombie = true ∧ (s'.processes q).parent = some initProcess ∧
      (s'.processes q).group = some 0

theorem Passed.refl (s : System) : Passed s s :=
  ⟨rfl,fun _ => rfl,fun _ => ⟨rfl,rfl⟩,fun _ h => h,fun _ _ => rfl,fun _ _ => .inl ⟨rfl,rfl⟩⟩

theorem Passed.present (h : Passed s s') (q : ProcessId) : s'.Present q ↔ s.Present q := by
  have hn : s'.numProcesses = s.numProcesses := (congrArg System.numProcesses h.rest :)
  rw [System.Present,System.Present,hn,(h.kept q).2]

theorem Passed.trans {s₁ : System} (h : Passed s s₁) (h' : Passed s₁ s')
    (hinit : (s'.processes initProcess).isZombie = false) : Passed s s' := by
  refine ⟨by rw [h'.rest,h.rest],fun t => (h'.thread t).trans (h.thread t),
    fun q => ⟨(h'.kept q).1.trans (h.kept q).1,(h'.kept q).2.trans (h.kept q).2⟩,
    fun q hq => h'.zombie q (h.zombie q hq),
    fun q hq => (h'.code q (h.zombie q hq)).trans (h.code q hq),fun q hq => ?_⟩
  rcases h.parent q hq with ⟨hp,hg⟩ | ⟨p,hp,hz,hz₁,hp₁,hg₁⟩
  · rcases h'.parent q ((h.present q).mpr hq) with ⟨hp',hg'⟩ | ⟨p,hp',hz',hz₁',hrest⟩
    · exact .inl ⟨hp'.trans hp,hg'.trans hg⟩
    · refine .inr ⟨p,hp ▸ hp',?_,hz₁',hrest⟩
      by_contra hzombie
      rw [h.zombie p (by simpa using hzombie)] at hz'
      cases hz'
  · rcases h'.parent q ((h.present q).mpr hq) with ⟨hp',hg'⟩ | ⟨r,hr,-,hrz,-⟩
    · exact .inr ⟨p,hp,hz,h'.zombie p hz₁,hp'.trans hp₁,hg'.trans hg₁⟩
    · obtain rfl : initProcess = r := Option.some.inj (hp₁.symm.trans hr)
      rw [hinit] at hrz
      cases hrz

theorem Threaded.ended (h : Threaded s) (ht : s.thread t = some thread)
    (hz : thread.isZombie = false)
    (hn : s'.numProcesses = s.numProcesses) (hends : s'.firstFreeTid = s.firstFreeTid)
    (htable : s'.threadTable = s.threadTable.set t (some { thread with isZombie := true }))
    (hkept : ∀ q, (s'.processes q).pid = (s.processes q).pid ∧
      (s'.processes q).freed = (s.processes q).freed)
    (hliving : ∀ q, (s'.processes q).numLivingThreads =
      if q = thread.process then (s.processes q).numLivingThreads - 1
      else (s.processes q).numLivingThreads)
    (hzombie : ∀ q, (s'.processes q).isZombie =
      if q = thread.process then decide ((s.processes q).numLivingThreads - 1 = 0)
      else (s.processes q).isZombie) : Threaded s' := by
  have hlt := thread_lt ht
  have hthread : ∀ u, s'.thread u =
      if u = t then some { thread with isZombie := true } else s.thread u :=
    fun u => thread_set hlt _ htable
  have hcount : ∀ q, s'.living q = if q = thread.process then s.living q - 1 else s.living q := by
    intro q
    have hset := living_set s' ht _ htable q
    by_cases hq : q = thread.process
    · subst hq
      simp only [Thread.livesIn,hz,decide_true,Bool.not_false,Bool.and_self,if_true,Option.any_some,
        Bool.not_true,Bool.and_false,Bool.false_eq_true,if_false] at hset ⊢
      omega
    · simpa [Thread.livesIn,Ne.symm hq,hq] using hset
  have hlen : s'.threadTable.length = s.threadTable.length := by rw [htable,List.length_set]
  constructor <;> simp only [hn,hlen,hends,fun q => (hkept q).1,fun q => (hkept q).2]
  · exact h.ends
  · exact h.low
  · intro u thread' hu
    rw [hthread] at hu
    split_ifs at hu with hut
    · obtain rfl := Option.some.inj hu
      exact h.owner t thread ht
    · exact h.owner u thread' hu
  · intro q hq
    rw [hliving,hcount,h.counted q hq]
  · intro q hiq hq
    rw [hliving,hzombie]
    split_ifs
    · simp
    · exact h.zombie q hiq hq
  · intro q hq hf
    rw [hzombie]
    split_ifs with hqp
    · subst hqp
      rw [(h.owner t thread ht).2] at hf
      cases hf
    · exact h.freed q hq hf
  · exact h.pid_lt
  · exact h.pid_inj
  · intro q hiq hq hf
    obtain ⟨thread',ht',heq⟩ := h.main q hiq hq hf
    rw [hthread]
    split_ifs with hut
    · rw [hut,ht] at ht'
      obtain rfl := Option.some.inj ht'
      exact ⟨_,rfl,heq⟩
    · exact ⟨thread',ht',heq⟩
  · intro q hq hf
    have hgone := h.gone q hq hf
    rw [hthread,if_neg]
    · exact hgone
    · rintro rfl
      rw [ht] at hgone
      cases hgone
  · intro u thread' hu
    rw [hthread] at hu
    split_ifs at hu with hut
    · obtain rfl := Option.some.inj hu
      exact hut ▸ h.first t thread ht
    · exact h.first u thread' hu

theorem Rooted.adopted (h : Rooted s) {cs : List ProcessId} (hp : initProcess < p)
    (hmem : ∀ q, q ∈ cs ↔ s.Present q ∧ (s.processes q).parent = some p)
    (hrest : s' = { s with
      processes := s'.processes, siblings := s'.siblings, groupLinks := s'.groupLinks
      threadTable := s'.threadTable })
    (hfreed : ∀ q, (s'.processes q).freed = (s.processes q).freed)
    (hzombie : ∀ q, q ≠ p → (s'.processes q).isZombie = (s.processes q).isZombie)
    (hcs : ∀ q, q ∈ cs → (s'.processes q).parent = some initProcess ∧ (s'.processes q).group = some 0)
    (hother : ∀ q, q ∉ cs → (s'.processes q).parent = (s.processes q).parent ∧
      (s'.processes q).group = (s.processes q).group) : Rooted s' := by
  have hn : s'.numProcesses = s.numProcesses := (congrArg System.numProcesses hrest :)
  have hg : s'.groups = s.groups := (congrArg System.groups hrest :)
  have hng : s'.numGroups = s.numGroups := (congrArg System.numGroups hrest :)
  have hl : s'.leaderGroup = s.leaderGroup := (congrArg System.leaderGroup hrest :)
  have hns : s'.numSessions = s.numSessions := (congrArg System.numSessions hrest :)
  have hpresent : ∀ q, s'.Present q ↔ s.Present q := by
    intro q
    rw [System.Present,System.Present,hn,hfreed]
  have hlow : ∀ q, q ≤ initProcess → q ∉ cs :=
    fun q hq hm => Nat.not_lt.mpr hq ((hmem q).mp hm).1.1
  have hkernel := hother kernelProcess (hlow _ (Nat.zero_le _))
  have hinit := hother initProcess (hlow _ (Nat.le_refl _))
  constructor
  · exact hn ▸ h.made
  · exact ⟨hkernel.1.trans h.kernel.1,hkernel.2.trans h.kernel.2.1,
      (hfreed _).trans h.kernel.2.2⟩
  · exact hinit.1.trans h.init_parent
  · exact hinit.2.trans h.init_group
  · exact (hzombie _ (Nat.ne_of_lt hp)).trans h.init_alive
  · exact (hfreed _).trans h.init_kept
  · intro q hq
    have hq := (hpresent q).mp hq
    by_cases hm : q ∈ cs
    · exact ⟨initProcess,(hcs q hm).1,Nat.le_refl _,hq.1,(hfreed _).trans h.init_kept,
        (hzombie _ (Nat.ne_of_lt hp)).trans h.init_alive⟩
    · obtain ⟨r,hr,hir,hrq,hrf,hrz⟩ := h.parent q hq
      have hrp : r ≠ p := fun hrp => hm ((hmem q).mpr ⟨hq,hrp ▸ hr⟩)
      exact ⟨r,(hother q hm).1.trans hr,hir,hrq,(hfreed r).trans hrf,(hzombie r hrp).trans hrz⟩
  · intro q hq
    rw [hng]
    by_cases hm : q ∈ cs
    · exact ⟨0,(hcs q hm).2,h.first.1⟩
    · exact (hother q hm).2 ▸ h.group q ((hpresent q).mp hq)
  · rw [hng,hg,hl]
    exact h.first
  · rw [hng,hg,hns]
    exact h.session
  · rw [hns,hl,hng]
    exact h.leader
  · exact (hzombie _ (Nat.ne_of_lt (Nat.lt_trans Nat.zero_lt_one hp))).trans h.kernel_alive

def lowered (s : System) (t : Nat) (thread : Thread) : System :=
  { s.setProcess thread.process { s.processes thread.process with
      numLivingThreads := (s.processes thread.process).numLivingThreads - 1 } with
    threadTable := s.threadTable.set t (some { thread with isZombie := true }) }

theorem terminateThread_eq (ht : s.thread t = some thread) (hz : thread.isZombie = false)
    (sig : Option Int) : s.terminateThread t sig =
      if (s.processes thread.process).numLivingThreads - 1 = 0 then
        (lowered s t thread).zombify thread.process sig
      else some (lowered s t thread) := by
  rw [System.terminateThread,ht]
  simp only [Option.bind_eq_bind,Option.bind_some,hz,Bool.false_eq_true,if_false]
  rfl

theorem terminateThread_zombie (ht : s.thread t = some thread) (hz : thread.isZombie = true)
    (sig : Option Int) : s.terminateThread t sig = some s := by
  rw [System.terminateThread,ht]
  simp [hz]

theorem map_process_set (ht : s.thread t = some thread)
    (htable : s'.threadTable = s.threadTable.set t (some { thread with isZombie := true })) (u : Nat) :
    (s'.thread u).map Thread.process = (s.thread u).map Thread.process := by
  rw [thread_set (thread_lt ht) _ htable]
  by_cases hu : u = t
  · rw [if_pos hu,hu,ht]
    rfl
  · rw [if_neg hu]

theorem Linked.lowered (h : Linked s C M) (t : Nat) (thread : Thread) :
    Linked (lowered s t thread) C M :=
  h.setProcess (p := thread.process) { s.processes thread.process with
    numLivingThreads := (s.processes thread.process).numLivingThreads - 1 } rfl rfl rfl |>.congr
    rfl rfl (fun _ => Iff.rfl) fun _ _ => ⟨rfl,rfl⟩

theorem adopted_fields (s : System) (cs : List ProcessId) (g : GroupId) (q : ProcessId) :
    (adopted s cs g q).pid = (s.processes q).pid ∧
      (adopted s cs g q).numLivingThreads = (s.processes q).numLivingThreads ∧
      (adopted s cs g q).isZombie = (s.processes q).isZombie ∧
      (adopted s cs g q).freed = (s.processes q).freed := by
  by_cases hq : q ∈ cs <;> simp [adopted,hq]

theorem adopted_links (s : System) (cs : List ProcessId) (g : GroupId) (q : ProcessId) :
    (q ∈ cs → (adopted s cs g q).parent = some initProcess ∧ (adopted s cs g q).group = some g) ∧
      (q ∉ cs → (adopted s cs g q).parent = (s.processes q).parent ∧
        (adopted s cs g q).group = (s.processes q).group) := by
  by_cases hq : q ∈ cs <;> simp [adopted,hq]

def zombied (s : System) (t : Nat) (thread : Thread) (sig : Option Int) : System :=
  (lowered s t thread).setProcess thread.process
    (((lowered s t thread).processes thread.process).zombified sig)

theorem zombied_fields (s : System) (t : Nat) (thread : Thread) (sig : Option Int) (q : ProcessId) :
    ((zombied s t thread sig).processes q).pid = (s.processes q).pid ∧
      ((zombied s t thread sig).processes q).numLivingThreads =
        (if q = thread.process then (s.processes q).numLivingThreads - 1
          else (s.processes q).numLivingThreads) ∧
      ((zombied s t thread sig).processes q).isZombie =
        (if q = thread.process then true else (s.processes q).isZombie) ∧
      ((zombied s t thread sig).processes q).freed = (s.processes q).freed ∧
      ((zombied s t thread sig).processes q).parent = (s.processes q).parent ∧
      ((zombied s t thread sig).processes q).group = (s.processes q).group := by
  by_cases hq : q = thread.process
  · cases sig <;> simp [zombied,lowered,System.setProcess,Process.zombified,hq]
  · simp [zombied,lowered,System.setProcess,hq]

theorem adopted_code (s : System) (cs : List ProcessId) (g : GroupId) (q : ProcessId) :
    (adopted s cs g q).waitCode = (s.processes q).waitCode := by
  by_cases hq : q ∈ cs <;> simp [adopted,hq]

theorem zombied_code {sig : Option Int} (hq : q ≠ thread.process) :
    ((zombied s t thread sig).processes q).waitCode = (s.processes q).waitCode := by
  simp [zombied,lowered,System.setProcess,hq]

theorem Good.lastThread (h : Good s) (ht : s.thread t = some thread)
    (hz : thread.isZombie = false) (hp : initProcess ≤ thread.process)
    (hlast : (s.processes thread.process).numLivingThreads - 1 = 0) {sig : Option Int}
    (hs' : (lowered s t thread).zombify thread.process sig = some s') : Good s' ∧ Passed s s' := by
  obtain ⟨C,M,hlinked⟩ := h.linked
  have hne : thread.process ≠ initProcess := by
    intro heq
    rw [System.zombify,if_pos heq] at hs'
    cases hs'
  have hinit : ((lowered s t thread).processes initProcess).group = some 0 := by
    simpa [lowered,System.setProcess,Function.update_of_ne hne.symm] using h.rooted.init_group
  obtain ⟨s₂,hs₂,hre,hlinked'⟩ := (hlinked.lowered t thread).zombify hne hinit sig
  obtain rfl := Option.some.inj (hs₂.symm.trans hs')
  have hf : s₂.processes = adopted (zombied s t thread sig) (C thread.process) 0 :=
    (congrArg System.processes hre :)
  have hrest : s₂ = { s with
      processes := s₂.processes, siblings := s₂.siblings, groupLinks := s₂.groupLinks
      threadTable := s₂.threadTable } := by
    rw [hre]
    rfl
  have htable : s₂.threadTable = s.threadTable.set t (some { thread with isZombie := true }) :=
    (congrArg System.threadTable hre :)
  have hfields : ∀ q, (s₂.processes q).pid = (s.processes q).pid ∧
      (s₂.processes q).numLivingThreads = (if q = thread.process then
        (s.processes q).numLivingThreads - 1 else (s.processes q).numLivingThreads) ∧
      (s₂.processes q).isZombie =
        (if q = thread.process then true else (s.processes q).isZombie) ∧
      (s₂.processes q).freed = (s.processes q).freed := by
    intro q
    obtain ⟨h₁,h₂,h₃,h₄⟩ := adopted_fields (zombied s t thread sig) (C thread.process) 0 q
    obtain ⟨k₁,k₂,k₃,k₄,-⟩ := zombied_fields s t thread sig q
    rw [hf]
    exact ⟨h₁.trans k₁,h₂.trans k₂,h₃.trans k₃,h₄.trans k₄⟩
  have hcs : ∀ q, q ∈ C thread.process → (s₂.processes q).parent = some initProcess ∧
      (s₂.processes q).group = some 0 := by
    rw [hf]
    exact fun q => (adopted_links (zombied s t thread sig) (C thread.process) 0 q).1
  have hother : ∀ q, q ∉ C thread.process → (s₂.processes q).parent = (s.processes q).parent ∧
      (s₂.processes q).group = (s.processes q).group := by
    intro q hq
    obtain ⟨h₁,h₂⟩ := (adopted_links (zombied s t thread sig) (C thread.process) 0 q).2 hq
    obtain ⟨-,-,-,-,k₁,k₂⟩ := zombied_fields s t thread sig q
    rw [hf]
    exact ⟨h₁.trans k₁,h₂.trans k₂⟩
  have halive := h.threaded.alive ht hz hp
  refine ⟨⟨hlinked',?_,?_⟩,hrest,map_process_set ht htable,
    fun q => ⟨(hfields q).1,(hfields q).2.2.2⟩,?_,?_,?_⟩
  · exact h.rooted.adopted (Nat.lt_of_le_of_ne hp hne.symm) (hlinked.mem_children _) hrest (fun q => (hfields q).2.2.2)
      (fun q hq => by rw [(hfields q).2.2.1,if_neg hq]) hcs hother
  · refine h.threaded.ended ht hz (by rw [hrest]) (by rw [hrest]) htable
      (fun q => ⟨(hfields q).1,(hfields q).2.2.2⟩) (fun q => (hfields q).2.1) fun q => ?_
    rw [(hfields q).2.2.1]
    split_ifs with hq
    · simp [hq,hlast]
    · rfl
  · intro q hq
    rw [(hfields q).2.2.1]
    split_ifs
    · rfl
    · exact hq
  · intro q hq
    have hne : q ≠ thread.process := by
      rintro rfl
      rw [halive] at hq
      cases hq
    rw [hf,adopted_code,zombied_code hne]
  · intro q hq
    by_cases hm : q ∈ C thread.process
    · refine .inr ⟨thread.process,((hlinked.mem_children _ q).mp hm).2,halive,?_,hcs q hm⟩
      rw [(hfields _).2.2.1,if_pos rfl]
    · exact .inl (hother q hm)

theorem Good.terminateThread (h : Good s) (ht : s.thread t = some thread)
    (hp : initProcess ≤ thread.process) {sig : Option Int}
    (hs' : s.terminateThread t sig = some s') : Good s' ∧ Passed s s' := by
  cases hz : thread.isZombie with
  | true =>
    obtain rfl := Option.some.inj ((terminateThread_zombie ht hz sig).symm.trans hs')
    exact ⟨h,.refl s⟩
  | false =>
    rw [terminateThread_eq ht hz] at hs'
    have halive := h.threaded.alive ht hz hp
    have hlt := (h.threaded.owner t thread ht).1
    obtain ⟨C,M,hlinked⟩ := h.linked
    have hl := hlinked.lowered t thread
    split_ifs at hs' with hlast
    · exact h.lastThread ht hz hp hlast hs'
    · obtain rfl := Option.some.inj hs'
      have hsame : ∀ q, ((Processes.lowered s t thread).processes q).pid = (s.processes q).pid ∧
          ((Processes.lowered s t thread).processes q).parent = (s.processes q).parent ∧
          ((Processes.lowered s t thread).processes q).group = (s.processes q).group ∧
          ((Processes.lowered s t thread).processes q).isZombie = (s.processes q).isZombie ∧
          ((Processes.lowered s t thread).processes q).freed = (s.processes q).freed := by
        intro q
        by_cases hq : q = thread.process <;> simp [Processes.lowered,System.setProcess,hq]
      refine ⟨⟨⟨C,M,hl⟩,?_,?_⟩,rfl,map_process_set ht rfl,?_,?_,?_,?_⟩
      · exact h.rooted.of_processes rfl fun q => ⟨(hsame q).2.1,(hsame q).2.2.1,(hsame q).2.2.2⟩
      · refine h.threaded.ended ht hz rfl rfl rfl (fun q => ⟨(hsame q).1,(hsame q).2.2.2.2⟩)
          (fun q => ?_) fun q => ?_
        · by_cases hq : q = thread.process <;> simp [Processes.lowered,System.setProcess,hq]
        · rw [(hsame q).2.2.2.1]
          by_cases hq : q = thread.process
          · subst hq
            simp [hlast,halive]
          · simp [hq]
      · exact fun q => ⟨(hsame q).1,(hsame q).2.2.2.2⟩
      · exact fun q hq => (hsame q).2.2.2.1.trans hq
      · intro q _
        by_cases hq : q = thread.process <;> simp [Processes.lowered,System.setProcess,hq]
      · exact fun q _ => .inl ⟨(hsame q).2.1,(hsame q).2.2.1⟩

theorem Good.terminateAll (h : Good s) (hip : initProcess ≤ p) {sig : Option Int} {ts : List Nat}
    (hts : ∀ t ∈ ts, (s.thread t).map Thread.process = some p)
    (hs' : ts.foldlM (fun s t => s.terminateThread t sig) s = some s') : Good s' ∧ Passed s s' := by
  induction ts generalizing s with
  | nil =>
    obtain rfl := Option.some.inj hs'
    exact ⟨h,.refl s⟩
  | cons t ts ih =>
    rw [List.foldlM_cons] at hs'
    obtain ⟨s₁,hs₁,hs'⟩ := Option.bind_eq_some_iff.mp hs'
    obtain ⟨thread,ht,hthread⟩ := Option.map_eq_some_iff.mp (hts t List.mem_cons_self)
    obtain ⟨h₁,hpass⟩ := h.terminateThread ht (hthread ▸ hip) hs₁
    obtain ⟨h',hpass'⟩ := ih h₁
      (fun u hu => (hpass.thread u).trans (hts u (List.mem_cons_of_mem _ hu))) hs'
    exact ⟨h',hpass.trans hpass' h'.rooted.init_alive⟩

theorem mem_threadList {p : ProcessId} : t ∈ s.threadList p ↔
    ∃ thread, s.thread t = some thread ∧ thread.process = p := by
  rw [System.threadList,List.mem_filter,List.mem_range]
  constructor
  · rintro ⟨-,hany⟩
    obtain ⟨thread,ht,hthread⟩ := (Option.any_eq_true _ _).mp hany
    exact ⟨thread,ht,by simpa using hthread⟩
  · rintro ⟨thread,ht,hthread⟩
    exact ⟨thread_lt ht,by rw [ht]; simpa using hthread⟩

theorem Good.terminateProcess (h : Good s) (hip : initProcess ≤ p) {sig : Option Int}
    (hs' : s.terminateProcess p sig = some s') : Good s' ∧ Passed s s' := by
  refine h.terminateAll hip (fun t ht => ?_) hs'
  obtain ⟨thread,ht,hthread⟩ := mem_threadList.mp ht
  rw [ht,Option.map_some,hthread]

theorem deleteThreads {ts : List Nat} (hnd : ts.Nodup)
    (hts : ∀ t ∈ ts, ∃ thread, s.thread t = some thread ∧ thread.isZombie = true) :
    ∃ s', ts.foldlM System.deleteThread s = some s' ∧
      s' = { s with threadTable := s'.threadTable } ∧
      s'.threadTable.length = s.threadTable.length ∧
      (∀ u, s'.thread u = if u ∈ ts then none else s.thread u) ∧
      ∀ q, s'.living q = s.living q := by
  induction ts generalizing s with
  | nil => exact ⟨s,rfl,rfl,rfl,by simp,fun _ => rfl⟩
  | cons t ts ih =>
    obtain ⟨htts,hnd⟩ := List.nodup_cons.mp hnd
    obtain ⟨thread,ht,hz⟩ := hts t List.mem_cons_self
    have hs₁ : s.deleteThread t = some { s with threadTable := s.threadTable.set t none } := by
      rw [System.deleteThread,terminateThread_zombie ht hz]
      rfl
    have hthread : ∀ u, System.thread { s with threadTable := s.threadTable.set t none } u =
        if u = t then none else s.thread u := fun u => thread_set (thread_lt ht) _ rfl
    obtain ⟨s',hs',hrest,hlen,hthread',hliving⟩ := ih (s := { s with
        threadTable := s.threadTable.set t none }) hnd fun u hu => by
      rw [hthread,if_neg (ne_of_mem_of_not_mem hu htts)]
      exact hts u (List.mem_cons_of_mem _ hu)
    refine ⟨s',?_,?_,?_,fun u => ?_,fun q => ?_⟩
    · rw [List.foldlM_cons,hs₁]
      exact hs'
    · rw [hrest]
    · rw [hlen,List.length_set]
    · rw [hthread',hthread]
      by_cases hut : u = t <;> simp [hut]
    · have hset := living_set { s with threadTable := s.threadTable.set t none } ht none rfl q
      rw [hliving]
      simpa [Thread.livesIn,hz] using hset

structure Deleted (s s' : System) (p : ProcessId) : Prop where
  rest : s' = { s with
    processes := s'.processes, siblings := s'.siblings, groupLinks := s'.groupLinks
    threadTable := s'.threadTable }
  processes : s'.processes = Function.update s.processes p { s.processes p with freed := true }
  length : s'.threadTable.length = s.threadTable.length
  thread : ∀ u, s'.thread u = if (s.thread u).any (·.process = p) then none else s.thread u
  living : ∀ q, s'.living q = s.living q

theorem Deleted.present (h : Deleted s s' p) (q : ProcessId) :
    s'.Present q ↔ s.Present q ∧ q ≠ p := by
  have hn : s'.numProcesses = s.numProcesses := (congrArg System.numProcesses h.rest :)
  rw [System.Present,System.Present,hn,h.processes]
  by_cases hq : q = p <;> simp [hq]

theorem Deleted.rooted (hd : Deleted s s' p) (h : Rooted s) (hp : s.Present p)
    (hz : (s.processes p).isZombie = true) : Rooted s' := by
  have hn : s'.numProcesses = s.numProcesses := (congrArg System.numProcesses hd.rest :)
  have hg : s'.groups = s.groups := (congrArg System.groups hd.rest :)
  have hng : s'.numGroups = s.numGroups := (congrArg System.numGroups hd.rest :)
  have hl : s'.leaderGroup = s.leaderGroup := (congrArg System.leaderGroup hd.rest :)
  have hns : s'.numSessions = s.numSessions := (congrArg System.numSessions hd.rest :)
  have hold : ∀ q, q ≠ p → s'.processes q = s.processes q := fun q hq => by
    rw [hd.processes,Function.update_of_ne hq]
  have hlow : ∀ q, q ≤ initProcess → q ≠ p := fun q hq heq =>
    Nat.not_lt.mpr hq (heq ▸ hp.1)
  have hkernel := hold kernelProcess (hlow _ (Nat.zero_le _))
  have hinit := hold initProcess (hlow _ (Nat.le_refl _))
  constructor
  · exact hn ▸ h.made
  · exact hkernel ▸ h.kernel
  · exact hinit ▸ h.init_parent
  · exact hinit ▸ h.init_group
  · exact hinit ▸ h.init_alive
  · exact hinit ▸ h.init_kept
  · intro q hq
    obtain ⟨hq,hqp⟩ := (hd.present q).mp hq
    obtain ⟨r,hr,hir,hrq,hrf,hrz⟩ := h.parent q hq
    have hrp : r ≠ p := by
      rintro rfl
      rw [hz] at hrz
      cases hrz
    exact ⟨r,hold q hqp ▸ hr,hir,hrq,hold r hrp ▸ hrf,hold r hrp ▸ hrz⟩
  · intro q hq
    obtain ⟨hq,hqp⟩ := (hd.present q).mp hq
    rw [hng]
    exact hold q hqp ▸ h.group q hq
  · rw [hng,hg,hl]
    exact h.first
  · rw [hng,hg,hns]
    exact h.session
  · rw [hns,hl,hng]
    exact h.leader
  · exact hkernel ▸ h.kernel_alive

theorem Deleted.threaded (hd : Deleted s s' p) (h : Threaded s) (hp : s.Present p)
    (hz : (s.processes p).isZombie = true) : Threaded s' := by
  have hn : s'.numProcesses = s.numProcesses := (congrArg System.numProcesses hd.rest :)
  have hends : s'.firstFreeTid = s.firstFreeTid := (congrArg System.firstFreeTid hd.rest :)
  have hfields : ∀ q, (s'.processes q).pid = (s.processes q).pid ∧
      (s'.processes q).numLivingThreads = (s.processes q).numLivingThreads ∧
      (s'.processes q).isZombie = (s.processes q).isZombie := by
    intro q
    rw [hd.processes]
    by_cases hq : q = p <;> simp [hq]
  have hfreed : ∀ q, q ≠ p → (s'.processes q).freed = (s.processes q).freed := fun q hq => by
    rw [hd.processes,Function.update_of_ne hq]
  have hkept : ∀ u thread, s'.thread u = some thread → s.thread u = some thread ∧
      thread.process ≠ p := by
    intro u thread hu
    rw [hd.thread] at hu
    split_ifs at hu with hany
    rw [hu,Option.any_some] at hany
    exact ⟨hu,by simpa using hany⟩
  constructor <;> simp only [hn,hends,hd.length,hd.living,fun q => (hfields q).1,
    fun q => (hfields q).2.1,fun q => (hfields q).2.2]
  · exact h.ends
  · exact h.low
  · intro u thread hu
    obtain ⟨hu,hne⟩ := hkept u thread hu
    rw [hfreed _ hne]
    exact h.owner u thread hu
  · exact h.counted
  · exact h.zombie
  · intro q hq hf
    by_cases hqp : q = p
    · exact hqp ▸ hz
    · exact h.freed q hq (hfreed q hqp ▸ hf)
  · exact h.pid_lt
  · exact h.pid_inj
  · intro q hiq hq hf
    have hqp : q ≠ p := by
      rintro rfl
      simp [hd.processes] at hf
    obtain ⟨thread,ht,heq⟩ := h.main q hiq hq (hfreed q hqp ▸ hf)
    refine ⟨thread,?_,heq⟩
    rw [hd.thread,ht,if_neg (by simp [heq,hqp])]
  · intro q hq hf
    rw [hd.thread]
    by_cases hqp : q = p
    · subst hqp
      obtain ⟨thread,ht,heq⟩ := h.main q (Nat.le_of_lt hp.1) hq hp.2.2
      rw [ht,if_pos (by simp [heq])]
    · rw [h.gone q hq (hfreed q hqp ▸ hf)]
      simp
  · intro u thread hu
    exact h.first u thread (hkept u thread hu).1

theorem Good.deleteProcess (h : Good s) (hp : s.Present p) (hz : (s.processes p).isZombie = true) :
    ∃ s', s.deleteProcess p = some s' ∧ Deleted s s' p ∧ Good s' := by
  obtain ⟨C,M,hlinked⟩ := h.linked
  obtain ⟨r,hr,-⟩ := h.rooted.parent p hp
  obtain ⟨g,hg,-⟩ := h.rooted.group p hp
  obtain ⟨l₁,hl₁,h₁⟩ := hlinked.siblings.detach ((hlinked.mem_children r p).mpr ⟨hp,hr⟩)
  obtain ⟨l₂,hl₂,h₂⟩ := hlinked.groupLinks.detach ((hlinked.mem_members g p).mpr ⟨hp,hg⟩)
  have hzombies : ∀ t ∈ s.threadList p, ∃ thread,
      System.thread { s with siblings := l₁, groupLinks := l₂ } t = some thread ∧
        thread.isZombie = true := by
    intro t ht
    obtain ⟨thread,hthread,heq⟩ := mem_threadList.mp ht
    refine ⟨thread,hthread,?_⟩
    by_contra hliving
    have halive := h.threaded.alive hthread (by simpa using hliving) (heq ▸ Nat.le_of_lt hp.1)
    rw [heq,hz] at halive
    cases halive
  obtain ⟨s₁,hs₁,hrest,hlen,hthread,hliving⟩ :=
    deleteThreads (s := { s with siblings := l₁, groupLinks := l₂ })
      (List.nodup_range.filter _) hzombies
  have hs' : s.deleteProcess p = some (s₁.setProcess p { s₁.processes p with freed := true }) := by
    rw [System.deleteProcess,if_pos hz,hl₁,hl₂]
    simp only [Option.bind_eq_bind,Option.bind_some]
    exact congrArg (Option.bind · _) hs₁
  have hd : Deleted s (s₁.setProcess p { s₁.processes p with freed := true }) p := by
    refine ⟨?_,?_,hlen,fun u => ?_,hliving⟩
    · rw [hrest]
      rfl
    · rw [hrest]
      rfl
    · show s₁.thread u = _
      rw [hthread]
      refine if_congr (mem_threadList.trans ?_) rfl rfl
      rw [Option.any_eq_true]
      simp
  refine ⟨_,hs',hd,⟨fun j => (C j).erase p,fun j => (M j).erase p,?_⟩,
    hd.rooted h.rooted hp hz,hd.threaded h.threaded hp hz⟩
  refine ⟨?_,?_,fun j x => ?_,fun j x => ?_⟩
  · rw [hrest]
    exact h₁
  · rw [hrest]
    exact h₂
  · rw [(hlinked.nodup_children j).mem_erase_iff,hlinked.mem_children,hd.present,hd.processes]
    by_cases hx : x = p <;> simp [hx]
  · rw [(hlinked.nodup_members j).mem_erase_iff,hlinked.mem_members,hd.present,hd.processes]
    by_cases hx : x = p <;> simp [hx]

theorem Good.deleteProcess_present (h : Good s) (hs' : s.deleteProcess p = some s') :
    s.Present p ∧ (s.processes p).isZombie = true := by
  obtain ⟨C,M,hlinked⟩ := h.linked
  rw [System.deleteProcess] at hs'
  split_ifs at hs' with hz
  refine ⟨?_,hz⟩
  by_contra hp
  have hout : ∀ i, SiblingCell.siblingLink p ∉
      SiblingCell.childrenList i :: (C i).map .siblingLink := by
    intro i hm
    simp only [List.mem_cons,reduceCtorEq,List.mem_map,SiblingCell.siblingLink.injEq,
      exists_eq_right,false_or] at hm
    exact hp ((hlinked.mem_children i p).mp hm).1
  rw [Links.remove,hlinked.siblings.null _ hout] at hs'
  simp [ListHead.null] at hs'

end Ended

end SabaOS.Sched.Processes
