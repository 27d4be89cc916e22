import SabaOS.Sched.ProcessTree

namespace SabaOS.Sched.Processes

open SabaOS.Lib

def Thread.livesIn (thread : Thread) (p : ProcessId) : Bool :=
  thread.process = p && !thread.isZombie

def System.living (s : System) (p : ProcessId) : Nat :=
  s.threadTable.countP fun slot => slot.any (·.livesIn p)

structure Rooted (s : System) : Prop where
  made : initProcess < s.numProcesses
  kernel : (s.processes kernelProcess).parent = none ∧ (s.processes kernelProcess).group = none ∧
    (s.processes kernelProcess).freed = false
  init_parent : (s.processes initProcess).parent = some initProcess
  init_group : (s.processes initProcess).group = some 0
  init_alive : (s.processes initProcess).isZombie = false
  init_kept : (s.processes initProcess).freed = false
  parent : ∀ q, s.Present q → ∃ p, (s.processes q).parent = some p ∧ initProcess ≤ p ∧ p < q ∧
    (s.processes p).freed = false ∧ (s.processes p).isZombie = false
  group : ∀ q, s.Present q → ∃ g, (s.processes q).group = some g ∧ g < s.numGroups
  first : 0 < s.numGroups ∧ (s.groups 0).leaderProcess = initProcess ∧
    s.leaderGroup (s.groups 0).session = some 0
  session : ∀ g, g < s.numGroups → (s.groups g).session < s.numSessions
  leader : ∀ i, i < s.numSessions → ∃ g, s.leaderGroup i = some g ∧ g < s.numGroups
  kernel_alive : (s.processes kernelProcess).isZombie = false

structure Threaded (s : System) : Prop where
  ends : s.firstFreeTid = s.threadTable.length
  low : 2 ≤ s.threadTable.length
  owner : ∀ t thread, s.thread t = some thread →
    thread.process < s.numProcesses ∧ (s.processes thread.process).freed = false
  counted : ∀ p, p < s.numProcesses → (s.processes p).numLivingThreads = s.living p
  zombie : ∀ p, initProcess ≤ p → p < s.numProcesses →
    ((s.processes p).isZombie = true ↔ (s.processes p).numLivingThreads = 0)
  freed : ∀ p, p < s.numProcesses → (s.processes p).freed = true → (s.processes p).isZombie = true
  pid_lt : ∀ p, p < s.numProcesses → (s.processes p).pid < s.threadTable.length
  pid_inj : ∀ p q, p < s.numProcesses → q < s.numProcesses →
    (s.processes p).pid = (s.processes q).pid → p = q
  main : ∀ p, initProcess ≤ p → p < s.numProcesses → (s.processes p).freed = false →
    ∃ thread, s.thread (s.processes p).pid = some thread ∧ thread.process = p
  gone : ∀ p, p < s.numProcesses → (s.processes p).freed = true →
    s.thread (s.processes p).pid = none
  first : ∀ t thread, s.thread t = some thread → (s.processes thread.process).pid ≤ t

structure Good (s : System) : Prop where
  linked : ∃ children members, Linked s children members
  rooted : Rooted s
  threaded : Threaded s

section Table

variable {s s' : System} {p q : ProcessId} {t u : Nat} {thread : Thread}

theorem thread_lt (h : s.thread t = some thread) : t < s.threadTable.length := by
  by_contra hlt
  rw [System.thread,List.getElem?_eq_none (by omega)] at h
  cases h

theorem getElem?_of_thread (h : s.thread t = some thread) : s.threadTable[t]? = some (some thread) := by
  rw [System.thread] at h
  cases hslot : s.threadTable[t]? with
  | none => rw [hslot] at h; cases h
  | some slot =>
    rw [hslot] at h
    exact congrArg some h

theorem thread_set (ht : t < s.threadTable.length) (slot : Option Thread)
    (hs' : s'.threadTable = s.threadTable.set t slot) :
    s'.thread u = if u = t then slot else s.thread u := by
  rw [System.thread,hs']
  by_cases hu : u = t
  · subst hu
    rw [if_pos rfl,List.getElem?_set_self ht]
    rfl
  · rw [if_neg hu,List.getElem?_set_ne (Ne.symm hu)]
    rfl

theorem living_set (s' : System) (h : s.thread t = some thread) (slot : Option Thread)
    (hs' : s'.threadTable = s.threadTable.set t slot) (p : ProcessId) :
    s'.living p + (if thread.livesIn p then 1 else 0) =
      s.living p + if slot.any (·.livesIn p) then 1 else 0 := by
  have hlt := thread_lt h
  have hold : s.threadTable[t] = some thread := by
    have hslot := getElem?_of_thread h
    rwa [List.getElem?_eq_getElem hlt,Option.some.injEq] at hslot
  have hset := List.countP_set (p := fun slot => slot.any (·.livesIn p)) (a := slot) hlt
  rw [hold] at hset
  rw [System.living,System.living,hs',hset]
  by_cases hthread : thread.livesIn p
  · have hpos : 0 < s.threadTable.countP fun slot => slot.any (·.livesIn p) :=
      List.countP_pos_iff.mpr ⟨some thread,hold ▸ List.getElem_mem hlt,hthread⟩
    simp only [Option.any_some,hthread,if_true]
    omega
  · simp [hthread]

theorem thread_append (slot : Option Thread) (hs' : s'.threadTable = s.threadTable ++ [slot]) :
    s'.thread u = if u = s.threadTable.length then slot else s.thread u := by
  rw [System.thread,hs',List.getElem?_append]
  by_cases hu : u = s.threadTable.length
  · subst hu
    simp
  · rw [if_neg hu]
    by_cases hlt : u < s.threadTable.length
    · rw [if_pos hlt]
      rfl
    · rw [if_neg hlt,System.thread,List.getElem?_eq_none (by simp; omega),
        List.getElem?_eq_none (by omega)]

theorem living_append (slot : Option Thread) (hs' : s'.threadTable = s.threadTable ++ [slot])
    (p : ProcessId) : s'.living p = s.living p + if slot.any (·.livesIn p) then 1 else 0 := by
  rw [System.living,hs',List.countP_append,List.countP_singleton]
  rfl

theorem living_pos (h : s.thread t = some thread) (hp : thread.livesIn p = true) : 0 < s.living p :=
  List.countP_pos_iff.mpr ⟨some thread,List.mem_of_getElem? (getElem?_of_thread h),hp⟩

end Table

section Kept

variable {s s' : System} {p q : ProcessId} {t : Nat} {thread : Thread}

theorem Threaded.alive (h : Threaded s) (ht : s.thread t = some thread)
    (hz : thread.isZombie = false) (hp : initProcess ≤ thread.process) :
    (s.processes thread.process).isZombie = false := by
  obtain ⟨hlt,-⟩ := h.owner t thread ht
  have hpos := living_pos ht (p := thread.process) (by simp [Thread.livesIn,hz])
  rw [← h.counted _ hlt] at hpos
  by_contra hzombie
  have hzero := (h.zombie _ hp hlt).mp (by simpa using hzombie)
  omega

def Process.core (process : Process) : Process :=
  { process with waitStatus := 0, waitCode := 0, hasPerformedExecve := false }

structure Alike (s s' : System) : Prop where
  processes : ∀ p, (s'.processes p).core = (s.processes p).core
  rest : s' = { s with processes := s'.processes, threadTable := s'.threadTable }
  length : s'.threadTable.length = s.threadTable.length
  thread : ∀ t, (s'.thread t).map Thread.process = (s.thread t).map Thread.process
  living : ∀ p, s'.living p = s.living p

theorem Alike.present (h : Alike s s') (q : ProcessId) : s'.Present q ↔ s.Present q := by
  have hn : s'.numProcesses = s.numProcesses := (congrArg System.numProcesses h.rest :)
  have hf : (s'.processes q).freed = (s.processes q).freed := (congrArg Process.freed (h.processes q) :)
  rw [System.Present,System.Present,hn,hf]

theorem Rooted.of_processes (hr : Rooted s) {f : ProcessId → Process}
    (hs' : s' = { s with
      processes := f, siblings := s'.siblings, groupLinks := s'.groupLinks
      threadTable := s'.threadTable, firstFreeTid := s'.firstFreeTid })
    (hsame : ∀ q, (f q).parent = (s.processes q).parent ∧ (f q).group = (s.processes q).group ∧
      (f q).isZombie = (s.processes q).isZombie ∧ (f q).freed = (s.processes q).freed) :
    Rooted s' := by
  have hpresent : ∀ q, s'.Present q ↔ s.Present q := by
    intro q
    rw [hs']
    simp only [System.Present,(hsame q).2.2.2]
  have hprocesses : s'.processes = f := by rw [hs']
  have hn : s'.numProcesses = s.numProcesses := by rw [hs']
  have hg : s'.groups = s.groups := by rw [hs']
  have hng : s'.numGroups = s.numGroups := by rw [hs']
  have hl : s'.leaderGroup = s.leaderGroup := by rw [hs']
  have hns : s'.numSessions = s.numSessions := by rw [hs']
  constructor
  · exact hn ▸ hr.made
  · rw [hprocesses]
    exact ⟨(hsame _).1.trans hr.kernel.1,(hsame _).2.1.trans hr.kernel.2.1,
      (hsame _).2.2.2.trans hr.kernel.2.2⟩
  · exact hprocesses ▸ (hsame _).1.trans hr.init_parent
  · exact hprocesses ▸ (hsame _).2.1.trans hr.init_group
  · exact hprocesses ▸ (hsame _).2.2.1.trans hr.init_alive
  · exact hprocesses ▸ (hsame _).2.2.2.trans hr.init_kept
  · intro q hq
    obtain ⟨p,hp,hip,hpq,hf,hz⟩ := hr.parent q ((hpresent q).mp hq)
    rw [hprocesses]
    exact ⟨p,(hsame q).1.trans hp,hip,hpq,(hsame p).2.2.2.trans hf,(hsame p).2.2.1.trans hz⟩
  · intro q hq
    obtain ⟨g,hgroup,hlt⟩ := hr.group q ((hpresent q).mp hq)
    rw [hprocesses,hng]
    exact ⟨g,(hsame q).2.1.trans hgroup,hlt⟩
  · rw [hng,hg,hl]
    exact hr.first
  · rw [hng,hg,hns]
    exact hr.session
  · rw [hns,hl,hng]
    exact hr.leader
  · exact hprocesses ▸ (hsame _).2.2.1.trans hr.kernel_alive

theorem Rooted.alike (hr : Rooted s) (h : Alike s s') : Rooted s' := by
  refine hr.of_processes (f := s'.processes) ?_ fun q => ⟨?_,?_,?_,?_⟩
  · rw [h.rest]
  · exact (congrArg Process.parent (h.processes q) :)
  · exact (congrArg Process.group (h.processes q) :)
  · exact (congrArg Process.isZombie (h.processes q) :)
  · exact (congrArg Process.freed (h.processes q) :)

theorem Threaded.congr (ht : Threaded s) (hn : s'.numProcesses = s.numProcesses)
    (hends : s'.firstFreeTid = s.firstFreeTid)
    (hlen : s'.threadTable.length = s.threadTable.length)
    (hmap : ∀ t, (s'.thread t).map Thread.process = (s.thread t).map Thread.process)
    (hcount : ∀ q, s'.living q = s.living q)
    (hsame : ∀ q, (s'.processes q).pid = (s.processes q).pid ∧
      (s'.processes q).numLivingThreads = (s.processes q).numLivingThreads ∧
      (s'.processes q).isZombie = (s.processes q).isZombie ∧
      (s'.processes q).freed = (s.processes q).freed) : Threaded s' := by
  have hthread : ∀ t thread', s'.thread t = some thread' →
      ∃ thread, s.thread t = some thread ∧ thread.process = thread'.process := by
    intro t thread' ht'
    have hmap := hmap t
    rw [ht',Option.map_some] at hmap
    exact Option.map_eq_some_iff.mp hmap.symm
  constructor <;> simp only [fun q => (hsame q).1,fun q => (hsame q).2.1,fun q => (hsame q).2.2.1,
    fun q => (hsame q).2.2.2,hn,hends,hlen,hcount]
  · exact ht.ends
  · exact ht.low
  · intro t thread' ht'
    obtain ⟨thread,hs,heq⟩ := hthread t thread' ht'
    exact heq ▸ ht.owner t thread hs
  · exact ht.counted
  · exact ht.zombie
  · exact ht.freed
  · exact ht.pid_lt
  · exact ht.pid_inj
  · intro p hp hlt hf
    obtain ⟨thread,hs,heq⟩ := ht.main p hp hlt hf
    have hmap := hmap (s.processes p).pid
    rw [hs,Option.map_some] at hmap
    obtain ⟨thread',hs',heq'⟩ := Option.map_eq_some_iff.mp hmap
    exact ⟨thread',hs',heq'.trans heq⟩
  · intro p hlt hf
    have hmap := hmap (s.processes p).pid
    rw [ht.gone p hlt hf,Option.map_none] at hmap
    exact Option.map_eq_none_iff.mp hmap
  · intro t thread' ht'
    obtain ⟨thread,hs,heq⟩ := hthread t thread' ht'
    exact heq ▸ ht.first t thread hs

theorem Threaded.alike (ht : Threaded s) (h : Alike s s') : Threaded s' := by
  refine ht.congr ?_ ?_ h.length h.thread h.living fun q => ⟨?_,?_,?_,?_⟩
  · exact (congrArg System.numProcesses h.rest :)
  · exact (congrArg System.firstFreeTid h.rest :)
  · exact (congrArg Process.pid (h.processes q) :)
  · exact (congrArg Process.numLivingThreads (h.processes q) :)
  · exact (congrArg Process.isZombie (h.processes q) :)
  · exact (congrArg Process.freed (h.processes q) :)

theorem Good.alike (hs : Good s) (h : Alike s s') : Good s' := by
  obtain ⟨C,M,hlinked⟩ := hs.linked
  refine ⟨⟨C,M,hlinked.congr ?_ ?_ h.present fun x _ => ⟨?_,?_⟩⟩,hs.rooted.alike h,
    hs.threaded.alike h⟩
  · exact (congrArg System.siblings h.rest :)
  · exact (congrArg System.groupLinks h.rest :)
  · exact (congrArg Process.parent (h.processes x) :)
  · exact (congrArg Process.group (h.processes x) :)

theorem Alike.setProcess (s : System) (p : ProcessId) (process : Process)
    (hcore : process.core = (s.processes p).core) : Alike s (s.setProcess p process) := by
  refine ⟨fun q => ?_,rfl,rfl,fun _ => rfl,fun _ => rfl⟩
  by_cases hq : q = p <;> simp [System.setProcess,hq,hcore]

theorem Alike.setWaiter (s : System) (t : Nat) (waiter : Option Waiter) :
    Alike s (s.setWaiter t waiter) := by
  cases ht : s.thread t with
  | none =>
    have heq : s.setWaiter t waiter = s := by rw [System.setWaiter,ht]
    rw [heq]
    exact ⟨fun _ => rfl,rfl,rfl,fun _ => rfl,fun _ => rfl⟩
  | some thread =>
    have heq : s.setWaiter t waiter =
        { s with threadTable := s.threadTable.set t (some { thread with waiter := waiter }) } := by
      rw [System.setWaiter,ht]
    rw [heq]
    refine ⟨fun _ => rfl,rfl,List.length_set,fun u => ?_,fun p => ?_⟩
    · rw [thread_set (thread_lt ht) _ rfl]
      by_cases hu : u = t
      · rw [if_pos hu,hu,ht]
        rfl
      · rw [if_neg hu]
    · have hset := living_set { s with
        threadTable := s.threadTable.set t (some { thread with waiter := waiter }) } ht
        (some { thread with waiter := waiter }) rfl p
      exact Nat.add_right_cancel hset

theorem Alike.trans {s₁ : System} (h : Alike s s₁) (h' : Alike s₁ s') : Alike s s' :=
  ⟨fun p => (h'.processes p).trans (h.processes p),by rw [h'.rest,h.rest],
    h'.length.trans h.length,fun t => (h'.thread t).trans (h.thread t),
    fun p => (h'.living p).trans (h.living p)⟩

end Kept

section Made

variable {s s' : System} {p q : ProcessId} {t : Nat} {thread : Thread}

theorem allocateTid_eq (hends : s.firstFreeTid = s.threadTable.length) (hne : s.threadTable ≠ []) :
    s.allocateTid = (s.threadTable.length,{ s with
      threadTable := s.threadTable ++ [none], firstFreeTid := s.threadTable.length + 1 }) := by
  have hnone : ((List.range s.threadTable.length).find? fun i =>
      s.firstFreeTid ≤ i ∧ s.threadTable[i]? = some none) = none := by
    rw [List.find?_eq_none]
    intro i hi
    rw [List.mem_range] at hi
    simp only [decide_eq_true_eq,not_and]
    omega
  have hempty : s.threadTable.isEmpty = false := List.isEmpty_eq_false_iff.mpr hne
  rw [System.allocateTid,hempty]
  simp only [Bool.false_eq_true,if_false,hnone]

theorem set_append_last (table : List (Option Thread)) (slot : Option Thread) :
    (table ++ [none]).set table.length slot = table ++ [slot] := by
  rw [List.set_append_right _ _ (Nat.le_refl _),Nat.sub_self]
  rfl

def spawned (s : System) (p : ProcessId) : List (Option Thread) :=
  s.threadTable ++ [some { process := p }]

theorem Threaded.ne_nil (h : Threaded s) : s.threadTable ≠ [] := by
  intro hnil
  have hlow := h.low
  rw [hnil] at hlow
  simp at hlow

theorem cloneThread_eq (hends : s.firstFreeTid = s.threadTable.length) (hne : s.threadTable ≠ [])
    (p : ProcessId) : s.cloneThread p = { s with
    processes := Function.update s.processes p
      { s.processes p with numLivingThreads := (s.processes p).numLivingThreads + 1 }
    threadTable := spawned s p
    firstFreeTid := s.threadTable.length + 1 } := by
  rw [System.cloneThread,allocateTid_eq hends hne]
  simp only [System.newThread,System.setProcess,set_append_last,spawned]

theorem living_spawned (hs' : s'.threadTable = spawned s p) (q : ProcessId) :
    s'.living q = s.living q + if q = p then 1 else 0 := by
  rw [living_append _ hs']
  by_cases hq : q = p
  · simp [hq,Thread.livesIn]
  · simp [hq,Thread.livesIn,Ne.symm hq]

theorem Good.cloneThread (h : Good s) (hp : p < s.numProcesses)
    (hfreed : (s.processes p).freed = false)
    (hz : initProcess ≤ p → (s.processes p).isZombie = false) : Good (s.cloneThread p) := by
  have heq := cloneThread_eq h.threaded.ends h.threaded.ne_nil p
  generalize s.cloneThread p = s' at heq
  have htable : s'.threadTable = spawned s p := by rw [heq]
  have hprocesses : ∀ q, (s'.processes q).pid = (s.processes q).pid ∧
      (s'.processes q).parent = (s.processes q).parent ∧
      (s'.processes q).group = (s.processes q).group ∧
      (s'.processes q).isZombie = (s.processes q).isZombie ∧
      (s'.processes q).freed = (s.processes q).freed ∧
      (s'.processes q).numLivingThreads =
        (s.processes q).numLivingThreads + if q = p then 1 else 0 := by
    intro q
    rw [heq]
    by_cases hq : q = p <;> simp [hq]
  have hlen : s'.threadTable.length = s.threadTable.length + 1 := by simp [htable,spawned]
  have hthread : ∀ u, s'.thread u =
      if u = s.threadTable.length then some { process := p } else s.thread u :=
    fun u => thread_append _ htable
  have hkept : ∀ q, q < s.numProcesses → s'.thread (s.processes q).pid = s.thread (s.processes q).pid :=
    fun q hq => by rw [hthread,if_neg (Nat.ne_of_lt (h.threaded.pid_lt q hq))]
  have hn : s'.numProcesses = s.numProcesses := by rw [heq]
  have hends : s'.firstFreeTid = s'.threadTable.length := by rw [hlen,heq]
  obtain ⟨C,M,hlinked⟩ := h.linked
  refine ⟨⟨C,M,hlinked.congr (by rw [heq]) (by rw [heq]) (fun x => ?_) fun x _ => ?_⟩,?_,?_⟩
  · simp only [System.Present,hn,(hprocesses x).2.2.2.2.1]
  · exact ⟨(hprocesses x).2.1,(hprocesses x).2.2.1⟩
  · refine h.rooted.of_processes (f := s'.processes) ?_ fun q => ?_
    · rw [heq]
    · obtain ⟨-,hparent,hgroup,hzombie,hf,-⟩ := hprocesses q
      exact ⟨hparent,hgroup,hzombie,hf⟩
  · constructor <;> simp only [hn,hlen,fun q => (hprocesses q).1]
    · exact hends.trans hlen
    · have := h.threaded.low
      omega
    · intro u thread hu
      rw [(hprocesses _).2.2.2.2.1]
      rw [hthread] at hu
      split_ifs at hu with hul
      · obtain rfl := Option.some.inj hu
        exact ⟨hp,hfreed⟩
      · exact h.threaded.owner u thread hu
    · intro q hq
      rw [(hprocesses q).2.2.2.2.2,living_spawned htable,h.threaded.counted q hq]
    · intro q hiq hq
      rw [(hprocesses q).2.2.2.1,(hprocesses q).2.2.2.2.2,h.threaded.zombie q hiq hq]
      by_cases hqp : q = p
      · subst hqp
        have hpos := mt (h.threaded.zombie q hiq hq).mpr (by simp [hz hiq])
        simp [hpos]
      · simp [hqp]
    · intro q hq hf
      rw [(hprocesses q).2.2.2.2.1] at hf
      rw [(hprocesses q).2.2.2.1]
      exact h.threaded.freed q hq hf
    · intro q hq
      have := h.threaded.pid_lt q hq
      omega
    · exact h.threaded.pid_inj
    · intro q hiq hq hf
      rw [(hprocesses q).2.2.2.2.1] at hf
      rw [hkept q hq]
      exact h.threaded.main q hiq hq hf
    · intro q hq hf
      rw [(hprocesses q).2.2.2.2.1] at hf
      rw [hkept q hq]
      exact h.threaded.gone q hq hf
    · intro u thread hu
      rw [hthread] at hu
      split_ifs at hu with hul
      · obtain rfl := Option.some.inj hu
        exact hul ▸ Nat.le_of_lt (h.threaded.pid_lt p hp)
      · exact h.threaded.first u thread hu

def born (s : System) : System :=
  { s with
    processes := Function.update s.processes s.numProcesses
      { pid := s.threadTable.length, numLivingThreads := 1 }
    numProcesses := s.numProcesses + 1
    threadTable := spawned s s.numProcesses
    firstFreeTid := s.threadTable.length + 1 }

theorem Good.cloneProcess_eq (h : Good s) (p : ProcessId) :
    s.cloneProcess p = (born s).setParent s.numProcesses p := by
  obtain ⟨C,M,hlinked⟩ := h.linked
  have hout : ¬ s.Present s.numProcesses := fun hp => Nat.lt_irrefl _ hp.2.1
  have hC : ∀ p, s.numProcesses ∉ C p := fun p hm => hout ((hlinked.mem_children p _).mp hm).1
  have hM : ∀ g, s.numProcesses ∉ M g := fun g hm => hout ((hlinked.mem_members g _).mp hm).1
  have hnil : C s.numProcesses = [] := by
    rw [List.eq_nil_iff_forall_not_mem]
    intro q hq
    obtain ⟨hpresent,hparent⟩ := (hlinked.mem_children _ q).mp hq
    obtain ⟨r,hr,-,hrq,-⟩ := h.rooted.parent q hpresent
    obtain rfl : s.numProcesses = r := Option.some.inj (hparent.symm.trans hr)
    exact absurd hpresent.2.1 (Nat.not_lt.mpr (Nat.le_of_lt hrq))
  have hlink : Function.update s.siblings (.siblingLink s.numProcesses) .null = s.siblings := by
    rw [← hlinked.siblings.null (.siblingLink s.numProcesses) fun i => by simp [hC i],
      Function.update_eq_self]
  have hgroup : Function.update s.groupLinks (.groupLink s.numProcesses) .null = s.groupLinks := by
    rw [← hlinked.groupLinks.null (.groupLink s.numProcesses) fun i => by simp [hM i],
      Function.update_eq_self]
  have hring := hlinked.siblings.ring s.numProcesses
  rw [hnil] at hring
  rw [System.cloneProcess,System.newProcess,allocateTid_eq h.threaded.ends h.threaded.ne_nil]
  simp only [hlink,hgroup,hring.init_eq,System.newThread,System.setProcess,Function.update_self,
    Function.update_idem,set_append_last,Nat.zero_add]
  rfl

theorem Good.group_of_user (h : Good s) (hip : initProcess ≤ p) (hp : p < s.numProcesses)
    (hf : (s.processes p).freed = false) :
    ∃ g, (s.processes p).group = some g ∧ g < s.numGroups := by
  rcases Nat.lt_or_eq_of_le hip with hlt | rfl
  · exact h.rooted.group p ⟨hlt,hp,hf⟩
  · exact ⟨0,h.rooted.init_group,h.rooted.first.1⟩

def child (s : System) (p : ProcessId) : Process where
  pid := s.threadTable.length
  numLivingThreads := 1
  parent := some p
  group := (s.processes p).group

theorem Linked.born {C M : Nat → List ProcessId} (h : Linked s C M) : Linked (born s) C M := by
  have hpresent : ∀ x, (Processes.born s).Present x ↔
      s.Present x ∨ x = s.numProcesses ∧ initProcess < s.numProcesses := by
    intro x
    by_cases hx : x = s.numProcesses
    · subst hx
      simp [System.Present,Processes.born]
    · have hlt : x < s.numProcesses + 1 ↔ x < s.numProcesses :=
        Nat.lt_succ_iff_lt_or_eq.trans (or_iff_left hx)
      simp [System.Present,Processes.born,hx,hlt]
  refine ⟨h.siblings,h.groupLinks,fun p x => ?_,fun g x => ?_⟩
  · rw [h.mem_children,hpresent]
    by_cases hx : x = s.numProcesses
    · subst hx
      simp [System.Present,Processes.born]
    · simp [Processes.born,hx]
  · rw [h.mem_members,hpresent]
    by_cases hx : x = s.numProcesses
    · subst hx
      simp [System.Present,Processes.born]
    · simp [Processes.born,hx]

theorem Rooted.forked (h : Rooted s) {g : GroupId} (hn : s'.numProcesses = s.numProcesses + 1)
    (hprocesses : ∀ q, s'.processes q = if q = s.numProcesses then child s p else s.processes q)
    (hgroups : s'.groups = s.groups ∧ s'.numGroups = s.numGroups ∧
      s'.leaderGroup = s.leaderGroup ∧ s'.numSessions = s.numSessions)
    (hg : (s.processes p).group = some g) (hgn : g < s.numGroups) (hip : initProcess ≤ p)
    (hp : p < s.numProcesses) (hf : (s.processes p).freed = false)
    (hz : (s.processes p).isZombie = false) : Rooted s' := by
  have hold : ∀ q, q < s.numProcesses → s'.processes q = s.processes q :=
    fun q hq => by rw [hprocesses,if_neg (Nat.ne_of_lt hq)]
  have hnew : s'.processes s.numProcesses = child s p := by rw [hprocesses,if_pos rfl]
  have hkernel : kernelProcess < s.numProcesses := Nat.lt_trans Nat.zero_lt_one h.made
  have hpresent : ∀ q, s'.Present q → s.Present q ∨ q = s.numProcesses := by
    intro q hq
    by_cases hqn : q = s.numProcesses
    · exact .inr hqn
    · have hle : q < s.numProcesses + 1 := hn ▸ hq.2.1
      have hlt : q < s.numProcesses := Nat.lt_of_le_of_ne (Nat.lt_succ_iff.mp hle) hqn
      exact .inl ⟨hq.1,hlt,hold q hlt ▸ hq.2.2⟩
  obtain ⟨h₁,h₂,h₃,h₄⟩ := hgroups
  constructor
  · exact hn ▸ Nat.lt_succ_of_lt h.made
  · exact hold _ hkernel ▸ h.kernel
  · exact hold _ h.made ▸ h.init_parent
  · exact hold _ h.made ▸ h.init_group
  · exact hold _ h.made ▸ h.init_alive
  · exact hold _ h.made ▸ h.init_kept
  · intro q hq
    rcases hpresent q hq with hq | rfl
    · obtain ⟨r,hr,hir,hrq,hrf,hrz⟩ := h.parent q hq
      have hrold := hold r (Nat.lt_trans hrq hq.2.1)
      exact ⟨r,hold q hq.2.1 ▸ hr,hir,hrq,hrold ▸ hrf,hrold ▸ hrz⟩
    · exact ⟨p,by rw [hnew]; rfl,hip,hp,hold p hp ▸ hf,hold p hp ▸ hz⟩
  · intro q hq
    rw [h₂]
    rcases hpresent q hq with hq | rfl
    · exact hold q hq.2.1 ▸ h.group q hq
    · exact ⟨g,by rw [hnew]; exact hg,hgn⟩
  · rw [h₁,h₂,h₃]
    exact h.first
  · rw [h₁,h₂,h₄]
    exact h.session
  · rw [h₂,h₃,h₄]
    exact h.leader
  · exact hold _ hkernel ▸ h.kernel_alive

theorem Threaded.forked (h : Threaded s) (hn : s'.numProcesses = s.numProcesses + 1)
    (hprocesses : ∀ q, s'.processes q = if q = s.numProcesses then child s p else s.processes q)
    (htable : s'.threadTable = spawned s s.numProcesses)
    (hends : s'.firstFreeTid = s.threadTable.length + 1) : Threaded s' := by
  have hold : ∀ q, q < s.numProcesses → s'.processes q = s.processes q :=
    fun q hq => by rw [hprocesses,if_neg (Nat.ne_of_lt hq)]
  have hnew : s'.processes s.numProcesses = child s p := by rw [hprocesses,if_pos rfl]
  have hlen : s'.threadTable.length = s.threadTable.length + 1 := by simp [htable,spawned]
  have hthread : ∀ u, s'.thread u =
      if u = s.threadTable.length then some { process := s.numProcesses } else s.thread u :=
    fun u => thread_append _ htable
  have hcases : ∀ q, q < s'.numProcesses → q < s.numProcesses ∨ q = s.numProcesses :=
    fun q hq => by omega
  have hkept : ∀ q, q < s.numProcesses →
      s'.thread (s.processes q).pid = s.thread (s.processes q).pid :=
    fun q hq => by rw [hthread,if_neg (Nat.ne_of_lt (h.pid_lt q hq))]
  have hnone : s.living s.numProcesses = 0 := by
    rw [System.living,List.countP_eq_zero]
    intro slot hslot hlives
    obtain ⟨u,hu,rfl⟩ := List.mem_iff_getElem.mp hslot
    cases hthread : s.threadTable[u] with
    | none => rw [hthread] at hlives; cases hlives
    | some thread =>
      rw [hthread] at hlives
      have howner := (h.owner u thread (by
        rw [System.thread,List.getElem?_eq_getElem hu,hthread]
        rfl)).1
      have heq : thread.process = s.numProcesses := by
        simp only [Option.any_some,Thread.livesIn,Bool.and_eq_true] at hlives
        exact eq_of_beq hlives.1
      exact absurd (heq ▸ howner) (Nat.lt_irrefl _)
  constructor
  · exact hends.trans hlen.symm
  · have := h.low
    omega
  · intro u thread hu
    rw [hthread] at hu
    split_ifs at hu with hul
    · obtain rfl := Option.some.inj hu
      exact ⟨by rw [hn]; exact Nat.lt_succ_self _,by rw [hnew]; rfl⟩
    · obtain ⟨hlt,hf⟩ := h.owner u thread hu
      exact ⟨hn ▸ Nat.lt_succ_of_lt hlt,hold _ hlt ▸ hf⟩
  · intro q hq
    rw [living_spawned htable]
    rcases hcases q hq with hq | rfl
    · rw [hold q hq,if_neg (Nat.ne_of_lt hq),h.counted q hq]
      rfl
    · rw [hnew,if_pos rfl,hnone]
      rfl
  · intro q hiq hq
    rcases hcases q hq with hq | rfl
    · rw [hold q hq]
      exact h.zombie q hiq hq
    · rw [hnew]
      simp [child]
  · intro q hq
    rcases hcases q hq with hq | rfl
    · rw [hold q hq]
      exact h.freed q hq
    · rw [hnew]
      exact nofun
  · intro q hq
    rcases hcases q hq with hq | rfl
    · rw [hold q hq,hlen]
      exact Nat.lt_succ_of_lt (h.pid_lt q hq)
    · rw [hnew,hlen]
      exact Nat.lt_succ_self _
  · intro q r hq hr
    rcases hcases q hq with hq | rfl <;> rcases hcases r hr with hr | rfl
    · rw [hold q hq,hold r hr]
      exact h.pid_inj q r hq hr
    · rw [hold q hq,hnew]
      exact fun heq => absurd heq (Nat.ne_of_lt (h.pid_lt q hq))
    · rw [hnew,hold r hr]
      exact fun heq => absurd heq.symm (Nat.ne_of_lt (h.pid_lt r hr))
    · exact fun _ => rfl
  · intro q hiq hq hf
    rcases hcases q hq with hq | rfl
    · rw [hold q hq] at hf ⊢
      rw [hkept q hq]
      exact h.main q hiq hq hf
    · rw [hnew]
      exact ⟨{ process := s.numProcesses },by rw [hthread]; exact if_pos rfl,rfl⟩
  · intro q hq hf
    rcases hcases q hq with hq | rfl
    · rw [hold q hq] at hf ⊢
      rw [hkept q hq]
      exact h.gone q hq hf
    · rw [hnew] at hf
      cases hf
  · intro u thread hu
    rw [hthread] at hu
    split_ifs at hu with hul
    · obtain rfl := Option.some.inj hu
      rw [hnew,hul]
      exact Nat.le_refl _
    · rw [hold _ (h.owner u thread hu).1]
      exact h.first u thread hu

theorem Good.cloneProcess (h : Good s) (hip : initProcess ≤ p) (hp : p < s.numProcesses)
    (hf : (s.processes p).freed = false) (hz : (s.processes p).isZombie = false) :
    ∃ s', s.cloneProcess p = some s' ∧
      Relinked (born s) s' (Function.update s.processes s.numProcesses (child s p)) ∧ Good s' := by
  obtain ⟨C,M,hlinked⟩ := h.linked
  obtain ⟨g,hg,hgn⟩ := h.group_of_user hip hp hf
  have hne : p ≠ s.numProcesses := Nat.ne_of_lt hp
  have hborn : (born s).Present s.numProcesses :=
    ⟨h.rooted.made,Nat.lt_succ_self _,by simp [born]⟩
  obtain ⟨s',hs',hre,hlinked'⟩ := hlinked.born.setParent hborn hne (g := g)
    (by simpa [born,Function.update_of_ne hne] using hg)
  have hre' : Relinked (born s) s' (Function.update s.processes s.numProcesses (child s p)) := by
    rw [Relinked] at hre ⊢
    rw [hre]
    simp [born,child,hg]
  have hn : s'.numProcesses = s.numProcesses + 1 := (congrArg System.numProcesses hre' :)
  have hprocesses : ∀ q, s'.processes q = if q = s.numProcesses then child s p else s.processes q := by
    intro q
    rw [hre']
    by_cases hq : q = s.numProcesses <;> simp [hq]
  have hgroups : s'.groups = s.groups ∧ s'.numGroups = s.numGroups ∧
      s'.leaderGroup = s.leaderGroup ∧ s'.numSessions = s.numSessions := by
    rw [hre']
    exact ⟨rfl,rfl,rfl,rfl⟩
  have htable : s'.threadTable = spawned s s.numProcesses := (congrArg System.threadTable hre' :)
  have hends : s'.firstFreeTid = s.threadTable.length + 1 := (congrArg System.firstFreeTid hre' :)
  exact ⟨s',h.cloneProcess_eq p ▸ hs',hre',⟨_,_,hlinked'⟩,
    h.rooted.forked hn hprocesses hgroups hg hgn hip hp hf hz,
    h.threaded.forked hn hprocesses htable hends⟩

end Made

end SabaOS.Sched.Processes
