import SabaOS.Userland.Epoll

namespace SabaOS.Userland.Epoll

open SabaOS.Klib

namespace EPoll

variable {D E : Type}

def occupied (epoll : EPoll D E) : Set Nat := {i | (epoll.slot i).description.isSome}

structure Arranged (event : D → Option E) (epoll : EPoll D E) : Prop where
  length : epoll.waitEvents.length = epoll.events.length + 1
  waits : ∀ i < epoll.events.length,
    epoll.waitEvents[i + 1]? = some ((epoll.slot i).description.bind event)
  free : ∀ i < epoll.events.length, (epoll.slot i).description = none → epoll.firstFreeEvent ≤ i

section Slots

variable {epoll : EPoll D E} {index : Nat} {registered : RegisteredEvent D} {e : Option E}

theorem slot_of_length_le {i : Nat} (h : epoll.events.length ≤ i) : epoll.slot i = .empty :=
  List.getD_eq_default _ _ h

theorem lt_of_occupied {i : Nat} (h : i ∈ epoll.occupied) : i < epoll.events.length := by
  by_contra hge
  rw [occupied,Set.mem_ofPred_eq,slot_of_length_le (Nat.le_of_not_lt hge)] at h
  cases h

theorem getD_set (hi : index < epoll.events.length) (i : Nat) :
    (epoll.events.set index registered).getD i .empty = if i = index then registered else epoll.slot i := by
  rw [List.getD_eq_getElem?_getD,List.getElem?_set,slot,List.getD_eq_getElem?_getD]
  rcases eq_or_ne i index with rfl | hne
  · rw [if_pos rfl,if_pos hi,if_pos rfl]
    rfl
  · rw [if_neg hne.symm,if_neg hne]

theorem setSlot_slot (registered : RegisteredEvent D) (e : Option E)
    (hi : index < epoll.events.length) (i : Nat) :
    (epoll.setSlot index registered e).slot i = if i = index then registered else epoll.slot i :=
  getD_set hi i

theorem setSlot_length : (epoll.setSlot index registered e).events.length = epoll.events.length :=
  List.length_set

theorem setSlot_waits (registered : RegisteredEvent D) (e : Option E)
    (hi : index + 1 < epoll.waitEvents.length) (i : Nat) :
    (epoll.setSlot index registered e).waitEvents[i + 1]? =
      if i = index then some e else epoll.waitEvents[i + 1]? := by
  rw [setSlot]
  dsimp only
  rw [List.getElem?_set]
  rcases eq_or_ne i index with rfl | hne
  · rw [if_pos rfl,if_pos hi,if_pos rfl]
  · rw [if_neg (by omega),if_neg hne]

end Slots

section Allocate

variable {event : D → Option E} {epoll : EPoll D E}

theorem Arranged.allocate (h : Arranged event epoll) {epoll' : EPoll D E} {index : Nat}
    (ha : epoll.allocateEventsIndex = (epoll',index)) :
    index < epoll'.events.length ∧ epoll'.waitEvents.length = epoll'.events.length + 1 ∧
    (∀ i, epoll'.slot i = epoll.slot i) ∧ (epoll.slot index).description = none ∧
    epoll'.keyToEventsIndex = epoll.keyToEventsIndex ∧
    (∀ i < epoll'.events.length, i ≠ index →
      epoll'.waitEvents[i + 1]? = some ((epoll.slot i).description.bind event)) ∧
    ∀ i < epoll'.events.length, i ≠ index → (epoll.slot i).description = none →
      epoll'.firstFreeEvent ≤ i := by
  rw [allocateEventsIndex] at ha
  cases hfind : (List.range' epoll.firstFreeEvent (epoll.events.length - epoll.firstFreeEvent)).find?
      fun i => (epoll.slot i).description.isNone with
  | some i =>
    rw [hfind] at ha
    cases ha
    obtain ⟨hfree,hmem,hbefore⟩ := List.find?_range'_eq_some.mp hfind
    have hi := List.mem_range'_1.mp hmem
    refine ⟨by dsimp only; omega,h.length,fun _ => rfl,Option.isNone_iff_eq_none.mp hfree,rfl,
      fun j hj _ => h.waits j hj,?_⟩
    intro j hj hne hnone
    have hfirst := h.free j hj hnone
    rcases Nat.lt_or_ge j index with hlt | hge
    · have hjfree := hbefore j hfirst hlt
      rw [hnone] at hjfree
      cases hjfree
    · dsimp only
      omega
  | none =>
    rw [hfind] at ha
    cases ha
    have hnone := List.find?_range'_eq_none.mp hfind
    refine ⟨by simp,by simp [h.length],?_,?_,rfl,?_,?_⟩
    · intro i
      rw [slot,slot,List.getD_eq_getElem?_getD,List.getD_eq_getElem?_getD,List.getElem?_append]
      split_ifs with hi
      · rfl
      · rw [List.getElem?_eq_none (Nat.le_of_not_lt hi)]
        cases i - epoll.events.length with
        | zero => rfl
        | succ n => rfl
    · rw [slot_of_length_le (Nat.le_refl _)]
      rfl
    · intro i hi hne
      simp only [List.length_append,List.length_singleton] at hi
      have hlt : i < epoll.events.length := by omega
      rw [List.getElem?_append_left (by rw [h.length]; omega)]
      exact h.waits i hlt
    · intro i hi hne hfree
      simp only [List.length_append,List.length_singleton] at hi
      have hlt : i < epoll.events.length := by omega
      have hfirst := h.free i hlt hfree
      have hsome := hnone i hfirst (by omega)
      rw [hfree] at hsome
      cases hsome

end Allocate

section Ctl

variable {event : D → Option E} {epoll : EPoll D E} {key : UInt64} {j : Nat}

theorem arranged_setSlot {registered : RegisteredEvent D} {e : Option E} {first : Nat}
    {keys : HashTable UInt64 Nat} (hj : j < epoll.events.length)
    (hlength : epoll.waitEvents.length = epoll.events.length + 1)
    (hwaits : ∀ i < epoll.events.length, i ≠ j →
      epoll.waitEvents[i + 1]? = some ((epoll.slot i).description.bind event))
    (hfree : ∀ i < epoll.events.length, i ≠ j → (epoll.slot i).description = none → first ≤ i)
    (he : registered.description.bind event = e) (hfirst : registered.description = none → first ≤ j) :
    Arranged event { epoll.setSlot j registered e with keyToEventsIndex := keys, firstFreeEvent := first } := by
  have hslot := setSlot_slot registered e hj
  have hwait := setSlot_waits registered e (by omega : j + 1 < epoll.waitEvents.length)
  have hlen : (epoll.setSlot j registered e).events.length = epoll.events.length := setSlot_length
  refine ⟨?_,?_,?_⟩
  · rw [setSlot]
    dsimp only
    rw [List.length_set,List.length_set,hlength]
  · intro i hi
    refine (hwait i).trans ?_
    refine Eq.trans ?_ (congrArg (fun r => some (r.description.bind event)) (hslot i).symm)
    split_ifs with hij
    · rw [he]
    · exact hwaits i (hlen ▸ hi) hij
  · intro i hi hnone
    have hdesc := (congrArg RegisteredEvent.description (hslot i)).symm.trans hnone
    split_ifs at hdesc with hij
    · exact hij ▸ hfirst hdesc
    · exact hfree i (hlen ▸ hi) hij hdesc

theorem Arranged.add (h : Arranged event epoll) (target : D) (userEvent : EpollEvent) (hd : epoll.keyToEventsIndex.Distinct)
    (hget : epoll.keyToEventsIndex.get key = none) : ∃ epoll' j,
    epoll.ctl epollCtlAdd key target (event target) userEvent = (epoll',0) ∧ j ∉ epoll.occupied ∧
    Arranged event epoll' ∧ epoll'.keyToEventsIndex.Distinct ∧
    (∀ i, epoll'.slot i = if i = j then ⟨some target,0,userEvent⟩ else epoll.slot i) ∧
    ∀ k, epoll'.keyToEventsIndex.get k = if k = key then some j else epoll.keyToEventsIndex.get k := by
  rcases hfresh : epoll.allocateEventsIndex with ⟨fresh,j⟩
  obtain ⟨hj,hlength,hslot,hfree,hkeys,hwaits,hcursor⟩ := h.allocate hfresh
  have hctl : epoll.ctl epollCtlAdd key target (event target) userEvent =
      ({ fresh.setSlot j ⟨some target,0,userEvent⟩ (event target) with
        keyToEventsIndex := epoll.keyToEventsIndex.emplace key j },0) := by
    rw [ctl,if_pos rfl,hget,hfresh,← hkeys]
    rfl
  have hslot' : ∀ i, (fresh.setSlot j ⟨some target,0,userEvent⟩ (event target)).slot i =
      if i = j then ⟨some target,0,userEvent⟩ else epoll.slot i := by
    intro i
    rw [setSlot_slot _ _ hj,hslot]
  refine ⟨_,j,hctl,?_,?_,hd.emplace hget,hslot',HashTable.get_emplace⟩
  · rw [occupied,Set.mem_ofPred_eq,hfree]
    nofun
  · refine arranged_setSlot hj hlength ?_ ?_ rfl nofun
    · intro i hi hij
      rw [hslot]
      exact hwaits i hi hij
    · intro i hi hij hnone
      rw [hslot] at hnone
      exact hcursor i hi hij hnone

theorem Arranged.resample (h : Arranged event epoll) {events : List (RegisteredEvent D)}
    (hlength : events.length = epoll.events.length)
    (hdesc : ∀ i, (events.getD i .empty).description = (epoll.slot i).description) :
    Arranged event { epoll with events := events } := by
  refine ⟨h.length.trans (congrArg Nat.succ hlength.symm),?_,?_⟩
  · intro i hi
    refine (h.waits i (hlength ▸ hi)).trans ?_
    rw [← hdesc]
    rfl
  · intro i hi hnone
    exact h.free i (hlength ▸ hi) ((hdesc i).symm.trans hnone)

theorem Arranged.mod (h : Arranged event epoll) (target : D) (userEvent : EpollEvent) (hget : epoll.keyToEventsIndex.get key = some j)
    (hj : j ∈ epoll.occupied) : ∃ epoll',
    epoll.ctl epollCtlMod key target (event target) userEvent = (epoll',0) ∧ Arranged event epoll' ∧
    epoll'.keyToEventsIndex = epoll.keyToEventsIndex ∧ epoll'.waitEvents = epoll.waitEvents ∧
    ∀ i, epoll'.slot i =
      if i = j then (epoll.slot j).setUser userEvent else epoll.slot i := by
  have hctl : epoll.ctl epollCtlMod key target (event target) userEvent =
      ({ epoll with
        events := epoll.events.set j ((epoll.slot j).setUser userEvent) },0) := by
    rw [ctl,if_neg (by decide),if_pos rfl,hget]
  have hslot : ∀ i, (epoll.events.set j ((epoll.slot j).setUser userEvent)).getD i .empty =
      if i = j then (epoll.slot j).setUser userEvent else epoll.slot i :=
    getD_set (lt_of_occupied hj)
  have hdesc : ∀ i, ((epoll.events.set j ((epoll.slot j).setUser userEvent)).getD i
      .empty).description = (epoll.slot i).description := by
    intro i
    rw [hslot]
    split_ifs with hij
    · rw [hij,RegisteredEvent.setUser_description]
    · rfl
  exact ⟨_,hctl,h.resample List.length_set hdesc,rfl,rfl,hslot⟩

theorem Arranged.del (h : Arranged event epoll) (target : D) (userEvent : EpollEvent) (hd : epoll.keyToEventsIndex.Distinct)
    (hget : epoll.keyToEventsIndex.get key = some j) (hj : j ∈ epoll.occupied) : ∃ epoll',
    epoll.ctl epollCtlDel key target (event target) userEvent = (epoll',0) ∧ Arranged event epoll' ∧
    epoll'.keyToEventsIndex.Distinct ∧
    (∀ i, epoll'.slot i = if i = j then .empty else epoll.slot i) ∧
    (∀ i, i ≠ j → epoll'.waitEvents[i + 1]? = epoll.waitEvents[i + 1]?) ∧
    ∀ k, epoll'.keyToEventsIndex.get k = if k = key then none else epoll.keyToEventsIndex.get k := by
  have hctl : epoll.ctl epollCtlDel key target (event target) userEvent =
      ({ epoll.setSlot j .empty none with
        keyToEventsIndex := epoll.keyToEventsIndex.remove key
        firstFreeEvent := if epoll.firstFreeEvent > j then j else epoll.firstFreeEvent },0) := by
    rw [ctl,if_neg (by decide),if_neg (by decide),if_pos rfl,hget]
    rfl
  have hlt := lt_of_occupied hj
  have hwidth : j + 1 < epoll.waitEvents.length := by
    rw [h.length]
    omega
  have hslot := setSlot_slot .empty none hlt
  have hwait := setSlot_waits .empty none hwidth
  refine ⟨_,hctl,?_,hd.remove,hslot,?_,hd.get_remove⟩
  · refine arranged_setSlot hlt h.length (fun i hi _ => h.waits i hi) ?_ rfl ?_
    · intro i hi hij hnone
      have hfirst := h.free i hi hnone
      split_ifs <;> omega
    · intro hnone
      split_ifs <;> omega
  · intro i hij
    exact (hwait i).trans (if_neg hij)

end Ctl

structure Sane (event : D → Option E) (epoll : EPoll D E) : Prop where
  arranged : epoll.Arranged event
  distinct : epoll.keyToEventsIndex.Distinct
  occupied : ∀ k j, epoll.keyToEventsIndex.get k = some j → j ∈ epoll.occupied
  single : ∀ k k' j, epoll.keyToEventsIndex.get k = some j → epoll.keyToEventsIndex.get k' = some j →
    k = k'

theorem new_sane (event : D → Option E) : (new : EPoll D E).Sane event :=
  ⟨⟨rfl,nofun,nofun⟩,HashTable.new_distinct 16,nofun,nofun⟩

theorem occupied_resample {epoll : EPoll D E} {events : List (RegisteredEvent D)}
    (hdesc : ∀ i, (events.getD i .empty).description = (epoll.slot i).description) :
    occupied { epoll with events := events } = epoll.occupied := by
  apply Set.ext
  intro i
  rw [occupied,occupied,Set.mem_ofPred_eq,Set.mem_ofPred_eq,← hdesc]
  rfl

theorem Sane.resample {event : D → Option E} {epoll : EPoll D E} (h : epoll.Sane event)
    {events : List (RegisteredEvent D)} (hlength : events.length = epoll.events.length)
    (hdesc : ∀ i, (events.getD i .empty).description = (epoll.slot i).description) :
    Sane event { epoll with events := events } := by
  refine ⟨h.arranged.resample hlength hdesc,h.distinct,?_,h.single⟩
  rw [occupied_resample hdesc]
  exact h.occupied

inductive CtlStep (epoll epoll' : EPoll D E) (op : Int) (key : UInt64) (target : D)
    (userEvent : EpollEvent) (ret : Int) : Prop
  | refused : ret ≠ 0 → (op = epollCtlMod → epoll.keyToEventsIndex.get key = none) → epoll' = epoll →
      CtlStep epoll epoll' op key target userEvent ret
  | added (j : Nat) : op = epollCtlAdd → ret = 0 → epoll.keyToEventsIndex.get key = none →
      j ∉ epoll.occupied →
      (∀ i, epoll'.slot i = if i = j then ⟨some target,0,userEvent⟩ else epoll.slot i) →
      (∀ k, epoll'.keyToEventsIndex.get k = if k = key then some j else epoll.keyToEventsIndex.get k) →
      CtlStep epoll epoll' op key target userEvent ret
  | modified (j : Nat) : op = epollCtlMod → ret = 0 → epoll.keyToEventsIndex.get key = some j →
      (∀ i, epoll'.slot i =
        if i = j then (epoll.slot j).setUser userEvent else epoll.slot i) →
      epoll'.keyToEventsIndex = epoll.keyToEventsIndex →
      CtlStep epoll epoll' op key target userEvent ret
  | deleted (j : Nat) : op = epollCtlDel → ret = 0 → epoll.keyToEventsIndex.get key = some j →
      (∀ i, epoll'.slot i = if i = j then .empty else epoll.slot i) →
      (∀ k, epoll'.keyToEventsIndex.get k = if k = key then none else epoll.keyToEventsIndex.get k) →
      CtlStep epoll epoll' op key target userEvent ret

section Step

variable {event : D → Option E} {epoll : EPoll D E}

theorem Sane.ctl (h : epoll.Sane event) (op : Int) (key : UInt64) (target : D) (userEvent : EpollEvent) :
    (epoll.ctl op key target (event target) userEvent).1.Sane event ∧
    CtlStep epoll (epoll.ctl op key target (event target) userEvent).1 op key target userEvent
      (epoll.ctl op key target (event target) userEvent).2 := by
  have hrefused : ∀ ret : Int, ret ≠ 0 → (op = epollCtlMod → epoll.keyToEventsIndex.get key = none) →
      epoll.ctl op key target (event target) userEvent = (epoll,ret) →
      (epoll.ctl op key target (event target) userEvent).1.Sane event ∧
      CtlStep epoll (epoll.ctl op key target (event target) userEvent).1 op key target userEvent
        (epoll.ctl op key target (event target) userEvent).2 := by
    intro ret hret hmod hctl
    rw [hctl]
    exact ⟨h,.refused hret hmod rfl⟩
  by_cases hadd : op = epollCtlAdd
  · cases hget : epoll.keyToEventsIndex.get key with
    | some j =>
      exact hrefused (-eexist) (by decide) (fun hmod => by rw [hadd] at hmod; cases hmod)
        (by rw [EPoll.ctl,if_pos hadd,hget])
    | none =>
      obtain ⟨epoll',j,hctl,hj,harr,hdist,hslot,hget'⟩ := h.arranged.add target userEvent h.distinct hget
      rw [← hadd] at hctl
      rw [hctl]
      have hold : ∀ k i, k ≠ key → epoll'.keyToEventsIndex.get k = some i →
          epoll.keyToEventsIndex.get k = some i := by
        intro k i hk hi
        rwa [hget',if_neg hk] at hi
      refine ⟨⟨harr,hdist,?_,?_⟩,.added j hadd rfl hget hj hslot hget'⟩
      · intro k i hi
        rw [EPoll.occupied,Set.mem_ofPred_eq,hslot]
        split_ifs with hij
        · rfl
        · have hk : k ≠ key := by
            rintro rfl
            rw [hget',if_pos rfl] at hi
            exact hij (Option.some.inj hi).symm
          exact h.occupied k i (hold k i hk hi)
      · intro k k' i hi hi'
        rcases eq_or_ne k key with rfl | hk
        · rcases eq_or_ne k' k with rfl | hk'
          · rfl
          · rw [hget',if_pos rfl] at hi
            obtain rfl := Option.some.inj hi
            exact absurd (h.occupied k' j (hold k' j hk' hi')) hj
        · rcases eq_or_ne k' key with rfl | hk'
          · rw [hget',if_pos rfl] at hi'
            obtain rfl := Option.some.inj hi'
            exact absurd (h.occupied k j (hold k j hk hi)) hj
          · exact h.single k k' i (hold k i hk hi) (hold k' i hk' hi')
  by_cases hmod : op = epollCtlMod
  · cases hget : epoll.keyToEventsIndex.get key with
    | none =>
      exact hrefused (-enoent) (by decide) (fun _ => hget)
        (by rw [EPoll.ctl,if_neg hadd,if_pos hmod,hget])
    | some j =>
      have hj := h.occupied key j hget
      obtain ⟨epoll',hctl,harr,hkeys,-,hslot⟩ := h.arranged.mod target userEvent hget hj
      rw [← hmod] at hctl
      rw [hctl]
      refine ⟨⟨harr,hkeys ▸ h.distinct,?_,hkeys ▸ h.single⟩,.modified j hmod rfl hget hslot hkeys⟩
      intro k i hi
      rw [hkeys] at hi
      have hi := h.occupied k i hi
      rw [EPoll.occupied,Set.mem_ofPred_eq,hslot]
      split_ifs with hij
      · exact hj
      · exact hi
  by_cases hdel : op = epollCtlDel
  · cases hget : epoll.keyToEventsIndex.get key with
    | none =>
      exact hrefused (-enoent) (by decide) (fun h => absurd h hmod)
        (by rw [EPoll.ctl,if_neg hadd,if_neg hmod,if_pos hdel,hget])
    | some j =>
      have hj := h.occupied key j hget
      obtain ⟨epoll',hctl,harr,hdist,hslot,-,hget'⟩ :=
        h.arranged.del target userEvent h.distinct hget hj
      rw [← hdel] at hctl
      rw [hctl]
      have hold : ∀ k i, epoll'.keyToEventsIndex.get k = some i →
          k ≠ key ∧ epoll.keyToEventsIndex.get k = some i := by
        intro k i hi
        rw [hget'] at hi
        split_ifs at hi with hk
        exact ⟨hk,hi⟩
      refine ⟨⟨harr,hdist,?_,?_⟩,.deleted j hdel rfl hget hslot hget'⟩
      · intro k i hi
        obtain ⟨hk,hi⟩ := hold k i hi
        rw [EPoll.occupied,Set.mem_ofPred_eq,hslot,if_neg]
        · exact h.occupied k i hi
        · rintro rfl
          exact hk (h.single k key i hi hget)
      · intro k k' i hi hi'
        exact h.single k k' i (hold k i hi).2 (hold k' i hi').2
  exact hrefused (-einval) (by decide) (fun h => absurd h hmod)
    (by rw [EPoll.ctl,if_neg hadd,if_neg hmod,if_neg hdel])

end Step

end EPoll

end SabaOS.Userland.Epoll
