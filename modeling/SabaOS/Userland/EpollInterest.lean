import SabaOS.Lib.Indexed
import SabaOS.Lib.Tracking
import SabaOS.Userland.EpollSlots

namespace SabaOS.Userland.Epoll

open SabaOS.Klib SabaOS.Lib

abbrev Pair : Type := Int × UInt64

def key (q : Pair) : UInt64 := calculateKey q.1 q.2

structure Op where
  op : Int
  fd : Int
  description : UInt64
  userEvent : EpollEvent
deriving DecidableEq, Repr

def Op.pair (o : Op) : Pair := (o.fd,o.description)

def Op.known (o : Op) : Prop := o.op = epollCtlAdd ∨ o.op = epollCtlMod ∨ o.op = epollCtlDel

structure Interest (E : Type) where
  epoll : EPoll UInt64 E
  registered : List Pair

namespace Interest

variable {E : Type} (event : UInt64 → Option E)

def start : Interest E := ⟨EPoll.new,[]⟩

def next (s : Interest E) (o : Op) : Interest E × Int :=
  let (epoll,ret) := s.epoll.ctl o.op (key o.pair) o.description (event o.description) o.userEvent
  let registered :=
    if ret ≠ 0 then s.registered
    else if o.op = epollCtlAdd then o.pair :: s.registered
    else if o.op = epollCtlDel then s.registered.filter (· ≠ o.pair)
    else s.registered
  (⟨epoll,registered⟩,ret)

def Steps (s : Interest E) (o : Op) (s' : Interest E) : Prop := (s.next event o).1 = s'

def pairs (s : Interest E) : Set Pair := {q | q ∈ s.registered}

structure Consistent (s : Interest E) : Prop where
  indexed : ∃ index : Pair → Nat,
    Indexed s.epoll.keyToEventsIndex.get key s.pairs s.epoll.occupied index ∧
    ∀ q ∈ s.pairs, (s.epoll.slot (index q)).description = some q.2
  arranged : s.epoll.Arranged event

structure Right (s : Interest E) (o : Op) : Prop where
  add : o.op = epollCtlAdd → ((s.next event o).2 = -eexist ↔ o.pair ∈ s.registered)
  modify : o.op = epollCtlMod ∨ o.op = epollCtlDel →
    ((s.next event o).2 = -enoent ↔ o.pair ∉ s.registered)
  touches : o.op = epollCtlMod ∨ o.op = epollCtlDel →
    ∀ i, s.epoll.keyToEventsIndex.get (key o.pair) ≠ some i →
      (s.next event o).1.epoll.slot i = s.epoll.slot i ∧
      (s.next event o).1.epoll.waitEvents[i + 1]? = s.epoll.waitEvents[i + 1]?

def Good (s : Interest E) (o : Op) (s' : Interest E) : Prop := s.Right event o ∧ s'.Consistent event

def Safe (s : Interest E) (o : Op) (_ : Interest E) : Prop :=
  o.known → ∀ q ∈ s.pairs, key q = key o.pair → q = o.pair

structure Inv (s : Interest E) : Prop where
  consistent : s.Consistent event
  distinct : s.epoll.keyToEventsIndex.Distinct

variable {event} {s s' : Interest E} {o : Op}

theorem start_inv : (start : Interest E).Inv event := by
  refine ⟨⟨⟨fun _ => 0,⟨?_,?_⟩,nofun⟩,⟨rfl,nofun,nofun⟩⟩,HashTable.new_distinct 16⟩
  · intro k i
    exact ⟨nofun,fun ⟨_,hq,_⟩ => absurd hq List.not_mem_nil⟩
  · have hpairs : (start : Interest E).pairs = ∅ := Set.eq_empty_of_forall_notMem fun _ => List.not_mem_nil
    have hslots : (start : Interest E).epoll.occupied = ∅ := Set.eq_empty_of_forall_notMem nofun
    rw [hpairs,hslots]
    exact Set.bijOn_empty _

section Steps

theorem next_refused {ret : Int} (hret : ret ≠ 0) (h : s.epoll.ctl o.op (key o.pair) o.description
    (event o.description) o.userEvent = (s.epoll,ret)) : s.next event o = (s,ret) := by
  rw [next,h]
  dsimp only
  rw [if_pos hret]

theorem next_done {epoll : EPoll UInt64 E} (h : s.epoll.ctl o.op (key o.pair) o.description
    (event o.description) o.userEvent = (epoll,0)) : s.next event o =
      (⟨epoll,if o.op = epollCtlAdd then o.pair :: s.registered
        else if o.op = epollCtlDel then s.registered.filter (· ≠ o.pair) else s.registered⟩,0) := by
  rw [next,h]
  rfl

theorem inv_refused {ret : Int} (hi : s.Inv event) (h : s.next event o = (s,ret)) :
    (s.next event o).1.Inv event := by
  rw [h]
  exact hi

theorem good_unknown (hi : s.Inv event) (ho : ¬o.known) :
    s.Right event o ∧ (s.next event o).1.Inv event := by
  rw [Op.known,not_or,not_or] at ho
  have hctl : s.epoll.ctl o.op (key o.pair) o.description (event o.description) o.userEvent =
      (s.epoll,-einval) := by
    rw [EPoll.ctl,if_neg ho.1,if_neg ho.2.1,if_neg ho.2.2]
  refine ⟨⟨fun h => absurd h ho.1,fun h => ?_,fun h => ?_⟩,inv_refused hi (next_refused (by decide) hctl)⟩
  · exact absurd h (not_or.mpr ho.2)
  · exact absurd h (not_or.mpr ho.2)

theorem good_add (hi : s.Inv event) (ho : o.op = epollCtlAdd)
    (hsafe : ∀ q ∈ s.pairs, key q = key o.pair → q = o.pair) :
    s.Right event o ∧ (s.next event o).1.Inv event := by
  have hother : ¬(o.op = epollCtlMod ∨ o.op = epollCtlDel) := by
    rw [ho]
    decide
  obtain ⟨index,hindex,hdesc⟩ := hi.consistent.indexed
  cases hget : s.epoll.keyToEventsIndex.get (key o.pair) with
  | some j =>
    have hnext : s.next event o = (s,-eexist) := next_refused (by decide) (by
      rw [EPoll.ctl,if_pos ho,hget])
    have hmem := (hindex.mem_of_get hget hsafe).1
    refine ⟨⟨fun _ => ?_,fun h => absurd h hother,fun h => absurd h hother⟩,inv_refused hi hnext⟩
    rw [hnext]
    exact iff_of_true rfl hmem
  | none =>
    obtain ⟨epoll,j,hctl,hj,harr,hdist,hslot,hget'⟩ := hi.consistent.arranged.add o.description
      o.userEvent hi.distinct hget
    rw [← ho] at hctl
    have hnext := next_done hctl
    rw [if_pos ho] at hnext
    have hnot := hindex.not_mem_of_get hget
    refine ⟨⟨fun _ => ?_,fun h => absurd h hother,fun h => absurd h hother⟩,?_⟩
    · rw [hnext]
      exact iff_of_false (show (0 : Int) ≠ -eexist by decide) hnot
    rw [hnext]
    have hpairs : pairs (⟨epoll,o.pair :: s.registered⟩ : Interest E) = insert o.pair s.pairs :=
      Set.ext fun _ => List.mem_cons
    have hslots : epoll.occupied = insert j s.epoll.occupied := by
      apply Set.ext
      intro i
      rw [Set.mem_insert_iff,EPoll.occupied,EPoll.occupied,Set.mem_ofPred_eq,Set.mem_ofPred_eq,hslot]
      split_ifs with hij
      · exact iff_of_true rfl (.inl hij)
      · exact (or_iff_right hij).symm
    refine ⟨⟨⟨Function.update index o.pair j,?_,?_⟩,harr⟩,hdist⟩
    · rw [hpairs,hslots]
      exact hindex.insert hget hj hget'
    · intro q hq
      rw [hpairs] at hq
      dsimp only
      rw [hslot]
      rcases Set.mem_insert_iff.mp hq with rfl | hq
      · rw [Function.update_self,if_pos rfl]
        rfl
      · have hne : q ≠ o.pair := by
          rintro rfl
          exact hnot hq
        have hplace : index q ≠ j := by
          rintro rfl
          exact hj (hindex.bij.mapsTo hq)
        rw [Function.update_of_ne hne,if_neg hplace]
        exact hdesc q hq

theorem good_mod (hi : s.Inv event) (ho : o.op = epollCtlMod)
    (hsafe : ∀ q ∈ s.pairs, key q = key o.pair → q = o.pair) :
    s.Right event o ∧ (s.next event o).1.Inv event := by
  have hadd : o.op ≠ epollCtlAdd := by
    rw [ho]
    decide
  have hdel : o.op ≠ epollCtlDel := by
    rw [ho]
    decide
  obtain ⟨index,hindex,hdesc⟩ := hi.consistent.indexed
  cases hget : s.epoll.keyToEventsIndex.get (key o.pair) with
  | none =>
    have hnext : s.next event o = (s,-enoent) := next_refused (by decide) (by
      rw [EPoll.ctl,if_neg hadd,if_pos ho,hget])
    have hnot := hindex.not_mem_of_get hget
    refine ⟨⟨fun h => absurd h hadd,fun _ => ?_,fun _ i _ => ?_⟩,inv_refused hi hnext⟩
    · rw [hnext]
      exact iff_of_true rfl hnot
    · rw [hnext]
      exact ⟨rfl,rfl⟩
  | some j =>
    obtain ⟨hmem,hj⟩ := hindex.mem_of_get hget hsafe
    have hocc : j ∈ s.epoll.occupied := hj ▸ hindex.bij.mapsTo hmem
    obtain ⟨epoll,hctl,harr,hkeys,hwaits,hslot⟩ := hi.consistent.arranged.mod o.description
      o.userEvent hget hocc
    rw [← ho] at hctl
    have hnext := next_done hctl
    rw [if_neg hadd,if_neg hdel] at hnext
    refine ⟨⟨fun h => absurd h hadd,fun _ => ?_,fun _ i hne => ?_⟩,?_⟩
    · rw [hnext]
      exact iff_of_false (show (0 : Int) ≠ -enoent by decide) (not_not_intro hmem)
    · rw [hnext]
      have hij : i ≠ j := by
        rintro rfl
        exact hne hget
      exact ⟨(hslot i).trans (if_neg hij),by rw [hwaits]⟩
    rw [hnext]
    have hsame : ∀ i, (epoll.slot i).description = (s.epoll.slot i).description := by
      intro i
      rw [hslot]
      split_ifs with hij
      · rw [hij,RegisteredEvent.setUser_description]
      · rfl
    have hslots : epoll.occupied = s.epoll.occupied := by
      apply Set.ext
      intro i
      rw [EPoll.occupied,EPoll.occupied,Set.mem_ofPred_eq,Set.mem_ofPred_eq,hsame]
    refine ⟨⟨⟨index,?_,fun q hq => (hsame _).trans (hdesc q hq)⟩,harr⟩,hkeys ▸ hi.distinct⟩
    rw [hslots,hkeys]
    exact hindex

theorem good_del (hi : s.Inv event) (ho : o.op = epollCtlDel)
    (hsafe : ∀ q ∈ s.pairs, key q = key o.pair → q = o.pair) :
    s.Right event o ∧ (s.next event o).1.Inv event := by
  have hadd : o.op ≠ epollCtlAdd := by
    rw [ho]
    decide
  have hmod : o.op ≠ epollCtlMod := by
    rw [ho]
    decide
  obtain ⟨index,hindex,hdesc⟩ := hi.consistent.indexed
  cases hget : s.epoll.keyToEventsIndex.get (key o.pair) with
  | none =>
    have hnext : s.next event o = (s,-enoent) := next_refused (by decide) (by
      rw [EPoll.ctl,if_neg hadd,if_neg hmod,if_pos ho,hget])
    have hnot := hindex.not_mem_of_get hget
    refine ⟨⟨fun h => absurd h hadd,fun _ => ?_,fun _ i _ => ?_⟩,inv_refused hi hnext⟩
    · rw [hnext]
      exact iff_of_true rfl hnot
    · rw [hnext]
      exact ⟨rfl,rfl⟩
  | some j =>
    obtain ⟨hmem,hj⟩ := hindex.mem_of_get hget hsafe
    have hocc : j ∈ s.epoll.occupied := hj ▸ hindex.bij.mapsTo hmem
    obtain ⟨epoll,hctl,harr,hdist,hslot,hwaits,hget'⟩ := hi.consistent.arranged.del
      o.description o.userEvent hi.distinct hget hocc
    rw [← ho] at hctl
    have hnext := next_done hctl
    rw [if_neg hadd,if_pos ho] at hnext
    refine ⟨⟨fun h => absurd h hadd,fun _ => ?_,fun _ i hne => ?_⟩,?_⟩
    · rw [hnext]
      exact iff_of_false (show (0 : Int) ≠ -enoent by decide) (not_not_intro hmem)
    · rw [hnext]
      have hij : i ≠ j := by
        rintro rfl
        exact hne hget
      exact ⟨(hslot i).trans (if_neg hij),hwaits i hij⟩
    rw [hnext]
    have hpairs : pairs (⟨epoll,s.registered.filter (· ≠ o.pair)⟩ : Interest E) = s.pairs \ {o.pair} := by
      apply Set.ext
      intro q
      rw [pairs,Set.mem_ofPred_eq,List.mem_filter,decide_eq_true_eq]
      rfl
    have hslots : epoll.occupied = s.epoll.occupied \ {index o.pair} := by
      apply Set.ext
      intro i
      rw [hj,Set.mem_sdiff,Set.mem_singleton_iff,EPoll.occupied,EPoll.occupied,Set.mem_ofPred_eq,
        Set.mem_ofPred_eq,hslot]
      split_ifs with hij
      · exact iff_of_false Bool.false_ne_true fun h => h.2 hij
      · exact (and_iff_left hij).symm
    refine ⟨⟨⟨index,?_,?_⟩,harr⟩,hdist⟩
    · rw [hpairs,hslots]
      exact hindex.erase hmem hget'
    · intro q hq
      rw [hpairs] at hq
      have hplace : index q ≠ j := by
        rw [← hj]
        exact fun h => hq.2 (hindex.bij.injOn hq.1 hmem h)
      dsimp only
      rw [hslot,if_neg hplace]
      exact hdesc q hq.1

end Steps

theorem good_of_safe (hi : s.Inv event) (hsafe : s.Safe o s') :
    s.Right event o ∧ (s.next event o).1.Inv event := by
  by_cases ho : o.known
  · rcases ho with hop | hop | hop
    · exact good_add hi hop (hsafe (.inl hop))
    · exact good_mod hi hop (hsafe (.inr (.inl hop)))
    · exact good_del hi hop (hsafe (.inr (.inr hop)))
  · exact good_unknown hi ho

theorem wrong_of_shared (hi : s.Inv event) {q : Pair} (hq : q ∈ s.pairs) (hk : key q = key o.pair)
    (hne : q ≠ o.pair) (ho : o.known) : ¬s.Right event o := by
  intro hright
  obtain ⟨index,hindex,-⟩ := hi.consistent.indexed
  have hget := hindex.get_self hq
  rw [hk] at hget
  have hnot : o.pair ∉ s.registered := fun hmem => hne (hindex.key_inj hq hmem hk)
  have hocc := hindex.bij.mapsTo hq
  rcases ho with hop | hop | hop
  · have hnext : s.next event o = (s,-eexist) := next_refused (by decide) (by
      rw [EPoll.ctl,if_pos hop,hget])
    have hret := hright.add hop
    rw [hnext] at hret
    exact hnot (hret.mp rfl)
  · obtain ⟨epoll,hctl,-⟩ := hi.consistent.arranged.mod o.description o.userEvent hget hocc
    rw [← hop] at hctl
    have hret := hright.modify (.inl hop)
    rw [next_done hctl] at hret
    exact absurd (hret.mpr hnot) (show (0 : Int) ≠ -enoent by decide)
  · obtain ⟨epoll,hctl,-⟩ := hi.consistent.arranged.del o.description o.userEvent hi.distinct hget hocc
    rw [← hop] at hctl
    have hret := hright.modify (.inr hop)
    rw [next_done hctl] at hret
    exact absurd (hret.mpr hnot) (show (0 : Int) ≠ -enoent by decide)

theorem good_iff_safe (hi : s.Inv event) (hstep : Steps event s o s') :
    Good event s o s' ↔ Safe s o s' := by
  obtain rfl := hstep
  constructor
  · intro hgood ho q hq hk
    by_contra hne
    exact wrong_of_shared hi hq hk hne ho hgood.1
  · intro hsafe
    obtain ⟨hright,hinv⟩ := good_of_safe hi hsafe
    exact ⟨hright,hinv.consistent⟩

theorem inv_of_good (hi : s.Inv event) (hstep : Steps event s o s') (hgood : Good event s o s') :
    s'.Inv event := by
  have hsafe := (good_iff_safe hi hstep).mp hgood
  obtain rfl := hstep
  exact (good_of_safe hi hsafe).2

end Interest

theorem interest_set_run {E : Type} (event : UInt64 → Option E) (ops : List Op) :
    Interest.start.Consistent event ∧
    (Along (Interest.Steps event) (Interest.Good event) .start ops ↔
      Along (Interest.Steps event) Interest.Safe .start ops) := by
  have hstart : Interest.Inv event .start := Interest.start_inv
  exact ⟨hstart.consistent,Along.iff_safe Interest.good_iff_safe Interest.inv_of_good hstart⟩

def collision : List Op :=
  [⟨epollCtlAdd,4,0xffff800137af64a0,⟨1,4⟩⟩,⟨epollCtlAdd,32,0xffff800155b5be50,⟨1,32⟩⟩]

theorem collision_refused : ¬Along (Interest.Steps fun _ => some ()) (Interest.Good fun _ => some ())
    .start collision := by
  intro h
  obtain ⟨-,hrest⟩ := h _ rfl
  obtain ⟨⟨hright,-⟩,-⟩ := hrest _ rfl
  have hreply := (hright.add rfl).mp (by decide)
  exact absurd hreply (by decide)

end SabaOS.Userland.Epoll
