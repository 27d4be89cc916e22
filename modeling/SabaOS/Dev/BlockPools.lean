import SabaOS.Dev.BlockDevice

namespace SabaOS.Virtio

open SabaOS.Dev SabaOS.Lib

section Descriptors

def Queue.link (q : Queue) (n : Nat) : Option Nat := if n = q.length then none else some n

def Queue.nextFree (q : Queue) (i : Nat) : Option Nat := q.link (q.descriptorArray i).next

structure DescPool (q : Queue) (free owned : List Nat) : Prop where
  length : q.length = queueLength
  pool : Pool q.nextFree (q.link q.freeDescIndex) free owned (List.range queueLength)
  count : q.numFreeDescs = free.length

variable {q q' : Queue} {free owned owned' rest : List Nat} {x : Nat}

theorem DescPool.of_owned (h : DescPool q free owned) (hp : owned'.Perm owned) :
    DescPool q free owned' :=
  ⟨h.length,h.pool.of_owned hp,h.count⟩

theorem DescPool.link_mem (h : DescPool q free owned) (hx : x ∈ owned) : q.link x = some x := by
  have hlt : x < queueLength := List.mem_range.mp (h.pool.mem_all hx)
  rw [Queue.link,if_neg]
  rw [h.length]
  exact Nat.ne_of_lt hlt

theorem DescPool.init : DescPool Queue.init (List.range queueLength) [] := by
  refine ⟨rfl,⟨?_,?_,List.nodup_range⟩,?_⟩
  · have hchain : ∀ n, n ≤ queueLength → Chain Queue.init.nextFree
        (Queue.init.link (queueLength - n)) (List.range' (queueLength - n) n) := by
      intro n hn
      induction n with
      | zero => exact if_pos rfl
      | succ n ih =>
        have hlt : queueLength - (n + 1) < queueLength := by
          have : 0 < queueLength := by decide
          omega
        refine ⟨if_neg (Nat.ne_of_lt hlt),?_⟩
        have hnext : Queue.init.nextFree (queueLength - (n + 1)) =
            Queue.init.link (queueLength - (n + 1) + 1) := by
          simp only [Queue.nextFree,Queue.init,if_pos hlt]
        rw [hnext,show queueLength - (n + 1) + 1 = queueLength - n by omega]
        exact ih (by omega)
    have hall := hchain queueLength (Nat.le_refl _)
    rw [Nat.sub_self,← List.range_eq_range'] at hall
    exact hall
  · rw [List.append_nil]
  · rw [List.length_range]
    rfl

theorem DescPool.alloc_none (h : DescPool q free owned) :
    q.allocDescriptor.1 = q.length ↔ free = [] := by
  have hidx : q.allocDescriptor.1 = q.freeDescIndex := by
    rw [Queue.allocDescriptor]
    split_ifs
    · rfl
    · rfl
  rw [hidx,← h.pool.head_none,Queue.link]
  split_ifs with heq
  · exact iff_of_true heq rfl
  · simp [heq]

theorem alloc_fails (hnone : q.allocDescriptor.1 = q.length) :
    q.allocDescriptor.2 = q := by
  rw [Queue.allocDescriptor] at hnone ⊢
  split_ifs at hnone ⊢
  · rfl
  · contradiction

theorem DescPool.alloc (h : DescPool q free owned) (hsome : q.allocDescriptor.1 ≠ q.length) :
    ∃ rest, free = q.allocDescriptor.1 :: rest ∧
      DescPool q.allocDescriptor.2 rest (q.allocDescriptor.1 :: owned) ∧
      q.allocDescriptor.2.descriptorArray = q.descriptorArray := by
  rw [Queue.allocDescriptor] at hsome ⊢
  split_ifs at hsome ⊢ with heq
  · exact absurd heq hsome
  · obtain ⟨rest,hfree,hpool⟩ := h.pool.take (if_neg heq)
    refine ⟨rest,hfree,⟨h.length,hpool,?_⟩,rfl⟩
    simp [h.count,hfree]

theorem setDescriptor_apply {f : Descriptor → Descriptor} {y : Nat} :
    (q.setDescriptor x f).descriptorArray y =
      if y = x then f (q.descriptorArray x) else q.descriptorArray y := by
  simp only [Queue.setDescriptor,Function.update_apply]

theorem DescPool.give (h : DescPool q free owned) (hp : owned.Perm (x :: owned')) :
    DescPool (q.freeDescriptor x) (x :: free) owned' := by
  have hx : x ∈ owned := hp.mem_iff.mpr List.mem_cons_self
  have hnext : ∀ y, (q.freeDescriptor x).nextFree y =
      if y = x then q.link q.freeDescIndex else q.nextFree y := by
    intro y
    have harray : (q.freeDescriptor x).descriptorArray y =
        if y = x then { q.descriptorArray x with next := q.freeDescIndex }
        else q.descriptorArray y :=
      setDescriptor_apply (f := fun d => { d with next := q.freeDescIndex })
    have hlink : (q.freeDescriptor x).nextFree y =
        q.link ((q.freeDescriptor x).descriptorArray y).next := rfl
    rw [hlink,harray]
    split_ifs
    · rfl
    · rfl
  refine ⟨h.length,?_,?_⟩
  · have hhead : (q.freeDescriptor x).link (q.freeDescriptor x).freeDescIndex = some x :=
      h.link_mem hx
    rw [hhead]
    refine h.pool.give hp ?_ ?_
    · rw [hnext,if_pos rfl]
    · intro y hy
      rw [hnext,if_neg]
      rintro rfl
      exact h.pool.not_free hx hy
  · exact congrArg (· + 1) h.count

theorem DescPool.set (h : DescPool q free owned) (hx : x ∈ owned) {f : Descriptor → Descriptor} :
    DescPool (q.setDescriptor x f) free owned := by
  refine ⟨h.length,h.pool.of_next ?_,h.count⟩
  intro y hy
  show q.link ((q.setDescriptor x f).descriptorArray y).next = _
  rw [setDescriptor_apply,if_neg]
  · rfl
  · rintro rfl
    exact h.pool.not_free hx hy

theorem DescPool.submit (h : DescPool q free owned) : DescPool (q.submitDescriptor x) free owned :=
  ⟨h.length,h.pool,h.count⟩

theorem DescPool.uses (h : DescPool q free owned) : DescPool (q.deviceUses x) free owned :=
  ⟨h.length,h.pool,h.count⟩

end Descriptors

section Requests

def allRequests (base : Nat) : List Nat := (List.range numRequests).map (BlockDevice.requestAt base)

def BlockDevice.nextRequest (d : BlockDevice) (p : Nat) : Option Nat := (d.requests p).next

abbrev RequestPool (base : Nat) (d : BlockDevice) (free owned : List Nat) : Prop :=
  Pool d.nextRequest d.firstFreeRequest free owned (allRequests base)

variable {base : Nat} {d : BlockDevice} {free owned owned' : List Nat} {r : Nat}

theorem requestAt_inj {i j : Nat} (h : BlockDevice.requestAt base i = BlockDevice.requestAt base j) :
    i = j := by
  simp only [BlockDevice.requestAt,requestSize] at h
  omega

theorem allRequests_nodup : (allRequests base).Nodup := by
  rw [allRequests,List.nodup_map_iff_inj_on List.nodup_range]
  exact fun _ _ _ _ h => requestAt_inj h

theorem RequestPool.init : RequestPool base (BlockDevice.init base) (allRequests base) [] := by
  refine ⟨?_,by rw [List.append_nil],allRequests_nodup⟩
  have hnext : ∀ i, (BlockDevice.init base).nextRequest (BlockDevice.requestAt base i) =
      if i + 1 < numRequests then some (BlockDevice.requestAt base (i + 1)) else none := by
    intro i
    have hsub : BlockDevice.requestAt base i - base = requestSize * i := Nat.add_sub_cancel_left _ _
    have hdiv : requestSize * i / requestSize = i := Nat.mul_div_cancel_left _ (by decide)
    have hle : base ≤ BlockDevice.requestAt base i := Nat.le_add_right _ _
    have hsucc : BlockDevice.requestAt base (i + 1) = BlockDevice.requestAt base i + requestSize := by
      simp only [BlockDevice.requestAt,Nat.mul_succ,Nat.add_assoc]
    simp only [BlockDevice.nextRequest,BlockDevice.init,hsub,hdiv,Nat.mul_mod_right,hle,true_and,hsucc]
  have hchain : ∀ n, n ≤ numRequests → Chain (BlockDevice.init base).nextRequest
      (if numRequests - n < numRequests then some (BlockDevice.requestAt base (numRequests - n)) else none)
      ((List.range' (numRequests - n) n).map (BlockDevice.requestAt base)) := by
    intro n hn
    induction n with
    | zero => exact if_neg (Nat.lt_irrefl _)
    | succ n ih =>
      have hpos : numRequests - (n + 1) + 1 = numRequests - n := by omega
      refine ⟨if_pos (by omega),?_⟩
      rw [hnext,hpos]
      exact ih (by omega)
  have hall := hchain numRequests (Nat.le_refl _)
  rw [Nat.sub_self,← List.range_eq_range',if_pos (by decide)] at hall
  exact hall

theorem RequestPool.alloc {d' : BlockDevice} (h : RequestPool base d free owned)
    (hs : d.allocRequest = some (r,d')) :
    ∃ rest, free = r :: rest ∧ RequestPool base d' rest (r :: owned) ∧ d'.queue = d.queue := by
  rw [BlockDevice.allocRequest,Option.map_eq_some_iff] at hs
  obtain ⟨ret,hhead,heq⟩ := hs
  cases heq
  obtain ⟨rest,hfree,hpool⟩ := h.take hhead
  exact ⟨rest,hfree,hpool,rfl⟩

theorem RequestPool.give (h : RequestPool base d free owned) (hp : owned.Perm (r :: owned')) :
    RequestPool base (d.freeRequest r) (r :: free) owned' := by
  have hr : r ∈ owned := hp.mem_iff.mpr List.mem_cons_self
  refine Pool.give h hp ?_ ?_
  · simp [BlockDevice.nextRequest,BlockDevice.freeRequest]
  · intro y hy
    have hne : y ≠ r := by
      rintro rfl
      exact h.not_free hr hy
    simp [BlockDevice.nextRequest,BlockDevice.freeRequest,hne]

theorem RequestPool.header (h : RequestPool base d free owned) {a : Args} :
    RequestPool base (d.setHeader r a) free owned := by
  refine h.of_next fun y _ => ?_
  simp only [BlockDevice.nextRequest,BlockDevice.setHeader,Function.update_apply]
  split_ifs with heq
  · rw [heq]
  · rfl

end Requests

end SabaOS.Virtio
