import Mathlib.Logic.Relation
import SabaOS.Dev.BlockPools

namespace SabaOS.Virtio

open SabaOS.Dev SabaOS.Lib

structure Transfer where
  request : Nat
  first : Nat
  second : Nat
  third : Nat
deriving DecidableEq, Repr

def Transfer.descs (t : Transfer) : List Nat := [t.first,t.second,t.third]

def Transfer.requests (t : Transfer) : List Nat := [t.request]

structure Transfer.Linked (t : Transfer) (q : Queue) : Prop where
  address : (q.descriptorArray t.first).address = t.request + headerOffset
  second : (q.descriptorArray t.first).next = t.second
  third : (q.descriptorArray t.second).next = t.third

namespace Call

def descs : Call → List Nat
  | .begun _ => []
  | .requested _ _ => []
  | .first _ _ d1 => [d1]
  | .second _ _ d1 d2 => [d1,d2]
  | .third _ _ d1 d2 d3 => [d1,d2,d3]
  | .failing _ ds => ds
  | .returned _ => []

def requests : Call → List Nat
  | .begun _ => []
  | .requested _ r => [r]
  | .first _ r _ => [r]
  | .second _ r _ _ => [r]
  | .third _ r _ _ _ => [r]
  | .failing r _ => [r]
  | .returned _ => []

def submitted : Call → List Transfer
  | .third _ r d1 d2 d3 => [⟨r,d1,d2,d3⟩]
  | _ => []

def Shaped (q : Queue) : Call → Prop
  | .first _ r d1 => (q.descriptorArray d1).address = r + headerOffset
  | .second _ r d1 _ => (q.descriptorArray d1).address = r + headerOffset
  | .third _ r d1 _ _ => (q.descriptorArray d1).address = r + headerOffset
  | _ => True

end Call

structure SameRing (q q' : Queue) : Prop where
  usedIndex : q'.usedIndex = q.usedIndex
  usedRing : q'.usedRing = q.usedRing
  lastSeenUsed : q'.lastSeenUsed = q.lastSeenUsed

variable {base : Nat} {d d' : BlockDevice} {q q' : Queue} {free freeR R R' : List Nat}
variable {c c' : Call} {t : Transfer}

theorem SameRing.refl : SameRing q q := ⟨rfl,rfl,rfl⟩

theorem SameRing.trans {q'' : Queue} (h : SameRing q q') (h' : SameRing q' q'') :
    SameRing q q'' :=
  ⟨h'.usedIndex.trans h.usedIndex,h'.usedRing.trans h.usedRing,
    h'.lastSeenUsed.trans h.lastSeenUsed⟩

theorem Call.Shaped.congr (h : c.Shaped q)
    (heq : ∀ x ∈ c.descs, q'.descriptorArray x = q.descriptorArray x) : c.Shaped q' := by
  cases c with
  | first a r d1 => simpa [Shaped,heq d1 (by simp [descs])] using h
  | second a r d1 d2 => simpa [Shaped,heq d1 (by simp [descs])] using h
  | third a r d1 d2 d3 => simpa [Shaped,heq d1 (by simp [descs])] using h
  | _ => trivial

theorem Transfer.Linked.congr (h : t.Linked q)
    (heq : ∀ x ∈ t.descs, q'.descriptorArray x = q.descriptorArray x) : t.Linked q' := by
  have h1 := heq t.first (by simp [descs])
  have h2 := heq t.second (by simp [descs])
  exact ⟨h1 ▸ h.address,h1 ▸ h.second,h2 ▸ h.third⟩

structure Outcome (base : Nat) (d d' : BlockDevice) (descs requests R R' : List Nat) : Prop where
  descPool : ∃ free, DescPool d'.queue free (descs ++ R)
  requestPool : ∃ free, RequestPool base d' free (requests ++ R')
  others : ∀ x ∈ R, d'.queue.descriptorArray x = d.queue.descriptorArray x
  ring : SameRing d.queue d'.queue

theorem withDescriptor_cases {fail : Call} {k : BlockDevice → Nat → Call × BlockDevice}
    (hd : DescPool d.queue free R) :
    free = [] ∧ d.withDescriptor fail k = (fail,d) ∨
      ∃ x rest q', free = x :: rest ∧ d.withDescriptor fail k = k { d with queue := q' } x ∧
        DescPool q' rest (x :: R) ∧ q'.descriptorArray = d.queue.descriptorArray ∧
        SameRing d.queue q' := by
  have hring : SameRing d.queue d.queue.allocDescriptor.2 := by
    rw [Queue.allocDescriptor]
    split_ifs
    · exact .refl
    · exact ⟨rfl,rfl,rfl⟩
  by_cases hnone : d.queue.allocDescriptor.1 = d.queue.length
  · refine .inl ⟨hd.alloc_none.mp hnone,?_⟩
    simp only [BlockDevice.withDescriptor]
    rw [if_pos hnone,alloc_fails hnone]
  · obtain ⟨rest,hfree,hpool,harray⟩ := hd.alloc hnone
    refine .inr ⟨_,rest,_,hfree,?_,hpool,harray,hring⟩
    simp only [BlockDevice.withDescriptor]
    rw [if_neg hnone]

theorem not_mem_of_pool {x : Nat} {ds : List Nat} (hd : DescPool q free (ds ++ R)) (hx : x ∈ ds) :
    x ∉ R :=
  fun hR => (List.nodup_append.mp hd.pool.owned_nodup).2.2 x hx x hR rfl

theorem set_others {x : Nat} {ds : List Nat} {f : Descriptor → Descriptor}
    (hd : DescPool q free (ds ++ R)) (hx : x ∈ ds) :
    ∀ y ∈ R, (q.setDescriptor x f).descriptorArray y = q.descriptorArray y := by
  intro y hy
  rw [setDescriptor_apply,if_neg]
  rintro rfl
  exact not_mem_of_pool hd hx hy

section CallStep

variable (hd : DescPool d.queue free (c.descs ++ R)) (hr : RequestPool base d freeR (c.requests ++ R'))

theorem alloc_outcome {ds : List Nat} {a l f : Nat} (fail : Call) (next : Nat → Call)
    (hd : DescPool d.queue free (ds ++ R)) (hr : RequestPool base d freeR (c.requests ++ R'))
    (hfail : fail.descs.Perm ds) (hnext : ∀ x, (next x).descs.Perm (x :: ds))
    (hfailR : fail.requests = c.requests) (hnextR : ∀ x, (next x).requests = c.requests)
    (hs : d.withDescriptor fail (fun d x => (next x,d.setDescriptor x a l f)) = (c',d')) :
    Outcome base d d' c'.descs c'.requests R R' ∧
      (c' = fail ∧ d' = d ∨ ∃ x, x ∉ ds ∧ c' = next x ∧
        (∀ y ∈ ds, d'.queue.descriptorArray y = d.queue.descriptorArray y) ∧
        (d'.queue.descriptorArray x).address = a) := by
  rcases withDescriptor_cases hd with ⟨-,heq⟩ | ⟨x,rest,q',-,heq,hpool,harray,hring⟩
  · cases heq.symm.trans hs
    refine ⟨⟨⟨free,hd.of_owned (hfail.append_right R)⟩,⟨freeR,?_⟩,fun _ _ => rfl,.refl⟩,.inl ⟨rfl,rfl⟩⟩
    rw [hfailR]
    exact hr
  · cases heq.symm.trans hs
    have hmem : x ∈ x :: (ds ++ R) := List.mem_cons_self
    have hset := hpool.set (f := fun y => { y with address := a, length := l, flags := f }) hmem
    have hnot : x ∉ ds ++ R := (List.nodup_cons.mp hpool.pool.owned_nodup).1
    have hsame : ∀ y ∈ ds ++ R,
        (q'.setDescriptor x fun y => { y with address := a, length := l, flags := f }).descriptorArray y =
          d.queue.descriptorArray y := by
      intro y hy
      rw [setDescriptor_apply,if_neg,harray]
      rintro rfl
      exact hnot hy
    refine ⟨⟨⟨rest,hset.of_owned ((hnext x).append_right R)⟩,⟨freeR,?_⟩,?_,?_⟩,.inr ⟨x,?_,rfl,?_,?_⟩⟩
    · rw [hnextR]
      exact hr
    · exact fun y hy => hsame y (List.mem_append_right _ hy)
    · exact hring.trans ⟨rfl,rfl,rfl⟩
    · exact fun hx => hnot (List.mem_append_left _ hx)
    · exact fun y hy => hsame y (List.mem_append_left _ hy)
    · show ((q'.setDescriptor x fun y =>
        { y with address := a, length := l, flags := f }).descriptorArray x).address = a
      rw [setDescriptor_apply,if_pos rfl]

include hd hr

theorem callStep_outcome (hshape : c.Shaped d.queue) (hs : d.callStep c = some (c',d')) :
    Outcome base d d' (c'.descs ++ c.submitted.flatMap Transfer.descs)
        (c'.requests ++ c.submitted.flatMap Transfer.requests) R R' ∧
      c'.Shaped d'.queue ∧ ∀ t ∈ c.submitted, t.Linked d'.queue := by
  cases c with
  | begun a =>
    simp only [BlockDevice.callStep,Option.map_eq_some_iff] at hs
    obtain ⟨⟨r,d₁⟩,halloc,heq⟩ := hs
    cases heq
    obtain ⟨rest,-,hpool,hq⟩ := hr.alloc halloc
    have hq' : (d₁.setHeader r a).queue = d.queue := hq
    refine ⟨⟨⟨free,?_⟩,⟨rest,?_⟩,?_,?_⟩,trivial,?_⟩
    · rw [hq']
      exact hd
    · exact RequestPool.header hpool
    · exact fun x _ => by rw [hq']
    · rw [hq']
      exact .refl
    · intro t ht
      cases ht
  | requested a r =>
    simp only [BlockDevice.callStep,Option.some.injEq] at hs
    obtain ⟨hout,hcase⟩ := alloc_outcome (c := .requested a r) (.failing r []) (.first a r) hd hr (.refl _) (fun _ => .refl _) rfl
      (fun _ => rfl) hs
    simp only [Call.submitted,List.flatMap_nil,List.append_nil,List.not_mem_nil,
      false_imp_iff,implies_true,and_true]
    refine ⟨hout,?_⟩
    rcases hcase with ⟨rfl,-⟩ | ⟨x,-,rfl,-,haddr⟩
    · trivial
    · exact haddr
  | first a r d1 =>
    simp only [BlockDevice.callStep,Option.some.injEq] at hs
    obtain ⟨hout,hcase⟩ := alloc_outcome (c := .first a r d1) (.failing r [d1]) (.second a r d1) hd hr (.refl _)
      (fun x => List.Perm.swap x d1 []) rfl (fun _ => rfl) hs
    simp only [Call.submitted,List.flatMap_nil,List.append_nil,List.not_mem_nil,
      false_imp_iff,implies_true,and_true]
    refine ⟨hout,?_⟩
    rcases hcase with ⟨rfl,-⟩ | ⟨x,-,rfl,hsame,-⟩
    · trivial
    · rw [Call.Shaped,hsame d1 (by simp [Call.descs])]
      exact hshape
  | second a r d1 d2 =>
    simp only [BlockDevice.callStep,Option.some.injEq] at hs
    obtain ⟨hout,hcase⟩ := alloc_outcome (c := .second a r d1 d2) (.failing r [d2,d1]) (.third a r d1 d2) hd hr
      (List.Perm.swap d1 d2 [])
      (fun x => (@List.perm_append_comm _ [d1,d2] [x])) rfl (fun _ => rfl) hs
    simp only [Call.submitted,List.flatMap_nil,List.append_nil,List.not_mem_nil,
      false_imp_iff,implies_true,and_true]
    refine ⟨hout,?_⟩
    rcases hcase with ⟨rfl,-⟩ | ⟨x,-,rfl,hsame,-⟩
    · trivial
    · rw [Call.Shaped,hsame d1 (by simp [Call.descs])]
      exact hshape
  | third a r d1 d2 d3 =>
    simp only [BlockDevice.callStep,Option.some.injEq] at hs
    cases hs
    let q₁ := d.queue.setDescriptor d1 fun x => { x with next := d2 }
    let q₂ := q₁.setDescriptor d2 fun x => { x with next := d3 }
    have h1 : d1 ∈ [d1,d2,d3] := by simp
    have h2 : d2 ∈ [d1,d2,d3] := by simp
    have hpool₁ : DescPool q₁ free ([d1,d2,d3] ++ R) := hd.set (List.mem_append_left R h1)
    have hpool₂ : DescPool q₂ free ([d1,d2,d3] ++ R) := hpool₁.set (List.mem_append_left R h2)
    have hne : d1 ≠ d2 := by
      have hnodup := (List.nodup_append.mp hd.pool.owned_nodup).1
      rintro rfl
      simp [Call.descs] at hnodup
    refine ⟨⟨⟨free,hpool₂.submit⟩,⟨freeR,hr⟩,?_,⟨rfl,rfl,rfl⟩⟩,trivial,?_⟩
    · intro x hx
      exact (set_others (f := fun x => { x with next := d3 }) hpool₁ h2 x hx).trans
        (set_others (f := fun x => { x with next := d2 }) hd h1 x hx)
    · intro t ht
      obtain rfl := List.mem_singleton.mp ht
      have hfirst : q₂.descriptorArray d1 = { d.queue.descriptorArray d1 with next := d2 } := by
        simp only [q₂,q₁]
        rw [setDescriptor_apply,if_neg hne,setDescriptor_apply,if_pos rfl]
      have hsecond : (q₂.descriptorArray d2).next = d3 := by
        simp only [q₂]
        rw [setDescriptor_apply,if_pos rfl]
      have haddr : (q₂.descriptorArray d1).address = r + headerOffset := by
        rw [hfirst]
        exact hshape
      exact ⟨haddr,congrArg Descriptor.next hfirst,hsecond⟩
  | failing r ds =>
    cases ds with
    | nil =>
      simp only [BlockDevice.callStep,Option.some.injEq] at hs
      cases hs
      refine ⟨⟨⟨free,hd⟩,⟨r :: freeR,RequestPool.give hr (.refl _)⟩,fun _ _ => rfl,.refl⟩,trivial,?_⟩
      intro t ht
      cases ht
    | cons x ds =>
      simp only [BlockDevice.callStep,Option.some.injEq] at hs
      cases hs
      have hpool : DescPool (d.queue.freeDescriptor x) (x :: free) (ds ++ R) := hd.give (.refl _)
      refine ⟨⟨⟨x :: free,?_⟩,⟨freeR,?_⟩,?_,⟨rfl,rfl,rfl⟩⟩,trivial,?_⟩
      · simp only [Call.submitted,List.flatMap_nil,List.append_nil]
        exact hpool
      · simp only [Call.submitted,List.flatMap_nil,List.append_nil]
        exact hr
      · exact set_others (f := fun y => { y with next := d.queue.freeDescIndex }) hd
          List.mem_cons_self
      · intro t ht
        cases ht
  | returned ret => cases hs

end CallStep

structure System where
  dev : BlockDevice
  calls : List Call
  irq : Irq
  pending : List Transfer
  used : List Transfer
  current : Option Transfer

namespace System

def boot (base : Nat) : System := ⟨BlockDevice.init base,[],.idle,[],[],none⟩

def irqNext (s : System) : System :=
  let r := s.dev.irqStep s.irq
  { s with
    irq := r.1
    dev := r.2
    used := match r.1 with
      | .invoked _ _ _ => s.used.tail
      | _ => s.used
    current := match r.1 with
      | .invoked _ _ _ => s.used.head?
      | .test _ => none
      | _ => s.current }

inductive Step : System → System → Prop
  | begin {s : System} (a : Args) : Step s { s with calls := .begun a :: s.calls }
  | call {s : System} {pre post : List Call} {c c' : Call} {d' : BlockDevice} :
      s.calls = pre ++ c :: post → s.dev.callStep c = some (c',d') →
      Step s { s with dev := d', calls := pre ++ c' :: post, pending := s.pending ++ c.submitted }
  | complete {s : System} {pre post : List Transfer} {t : Transfer} :
      s.pending = pre ++ t :: post →
      Step s { s with
        dev := { s.dev with queue := s.dev.queue.deviceUses t.first }
        pending := pre ++ post
        used := s.used ++ [t] }
  | irq {s : System} : Step s s.irqNext

def Reachable (base : Nat) : System → Prop := Relation.ReflTransGen Step (boot base)

def irqDescs (s : System) : List Nat :=
  match s.irq,s.current with
  | .invoked _ _ _,some t => t.descs
  | .freedRequest _ _,some t => t.descs
  | .freedThird _ _,some t => [t.first,t.second]
  | .freedSecond _ _,some t => [t.first]
  | _,_ => []

def irqRequests (s : System) : List Nat :=
  match s.irq,s.current with
  | .invoked _ _ _,some t => [t.request]
  | _,_ => []

def inFlight (s : System) : List Transfer := s.pending ++ s.used

def ownedDescs (s : System) : List Nat :=
  s.calls.flatMap Call.descs ++ (s.inFlight.flatMap Transfer.descs ++ s.irqDescs)

def ownedRequests (s : System) : List Nat :=
  s.calls.flatMap Call.requests ++ (s.inFlight.flatMap Transfer.requests ++ s.irqRequests)

def position (s : System) : Nat :=
  match s.irq with
  | .idle => s.dev.queue.lastSeenUsed
  | .test i => i
  | .invoked i _ _ => (i + 1) % queueLength
  | .freedRequest i _ => (i + 1) % queueLength
  | .freedThird i _ => (i + 1) % queueLength
  | .freedSecond i _ => (i + 1) % queueLength

def irqShaped (s : System) : Prop :=
  match s.irq with
  | .idle => s.current = none
  | .test _ => s.current = none
  | .invoked _ desc request => ∃ t, s.current = some t ∧ desc = t.first ∧ request = t.request ∧
      t.Linked s.dev.queue
  | .freedRequest _ desc => ∃ t, s.current = some t ∧ desc = t.first ∧ t.Linked s.dev.queue
  | .freedThird _ desc => ∃ t, s.current = some t ∧ desc = t.first ∧
      (s.dev.queue.descriptorArray t.first).next = t.second
  | .freedSecond _ desc => ∃ t, s.current = some t ∧ desc = t.first

structure Held (base : Nat) (s : System) : Prop where
  descPool : ∃ free, DescPool s.dev.queue free s.ownedDescs
  requestPool : ∃ free, RequestPool base s.dev free s.ownedRequests
  shaped : ∀ c ∈ s.calls, c.Shaped s.dev.queue
  linked : ∀ t ∈ s.inFlight, t.Linked s.dev.queue
  irq : s.irqShaped
  inside : s.position < queueLength
  index : s.dev.queue.usedIndex % queueLength = (s.position + s.used.length) % queueLength
  ring : ∀ k, (hk : k < s.used.length) →
    s.dev.queue.usedRing ((s.position + k) % queueLength) = s.used[k].first

variable {s s' : System}

theorem Held.boot : Held base (boot base) := by
  refine ⟨⟨_,DescPool.init⟩,⟨_,RequestPool.init⟩,?_,?_,rfl,
    show (0 : Nat) < queueLength from by decide,rfl,?_⟩
  · intro c hc
    cases hc
  · intro t ht
    cases ht
  · intro k hk
    exact absurd hk (Nat.not_lt_zero k)

theorem middle_perm {α β : Type} (f : α → List β) (pre post : List α) (x : α) (R : List β) :
    ((pre ++ x :: post).flatMap f ++ R).Perm (f x ++ ((pre ++ post).flatMap f ++ R)) := by
  rw [← List.append_assoc]
  refine List.Perm.append_right R ?_
  rw [List.flatMap_append,List.flatMap_append,List.flatMap_cons]
  exact List.perm_append_comm_assoc _ _ _

theorem Held.inFlight_length (h : Held base s) : 3 * s.inFlight.length ≤ queueLength := by
  obtain ⟨free,hd⟩ := h.descPool
  have hlen := hd.pool.perm.length_eq
  have hflat : (s.inFlight.flatMap Transfer.descs).length = 3 * s.inFlight.length := by
    induction s.inFlight with
    | nil => rfl
    | cons t l ih =>
      rw [List.flatMap_cons,List.length_append,ih,List.length_cons]
      simp only [Transfer.descs,List.length_cons,List.length_nil]
      omega
  simp only [ownedDescs,List.length_append,List.length_range,hflat] at hlen
  omega

theorem Held.used_lt (h : Held base s) : s.used.length < queueLength := by
  have hle := h.inFlight_length
  have hpos : 0 < queueLength := by decide
  simp only [inFlight,List.length_append] at hle
  omega

theorem irqShaped_congr (h : s.irqShaped) (hirq : s'.irq = s.irq) (hcur : s'.current = s.current)
    (heq : ∀ x ∈ s.irqDescs, s'.dev.queue.descriptorArray x = s.dev.queue.descriptorArray x) :
    s'.irqShaped := by
  simp only [irqShaped,irqDescs,hirq,hcur] at *
  cases hi : s.irq with
  | idle => simpa [hi] using h
  | test i => simpa [hi] using h
  | invoked i desc request =>
    simp only [hi] at h heq ⊢
    obtain ⟨t,ht,hdesc,hreq,hlinked⟩ := h
    simp only [ht] at heq
    exact ⟨t,ht,hdesc,hreq,hlinked.congr heq⟩
  | freedRequest i desc =>
    simp only [hi] at h heq ⊢
    obtain ⟨t,ht,hdesc,hlinked⟩ := h
    simp only [ht] at heq
    exact ⟨t,ht,hdesc,hlinked.congr heq⟩
  | freedThird i desc =>
    simp only [hi] at h heq ⊢
    obtain ⟨t,ht,hdesc,hnext⟩ := h
    simp only [ht] at heq
    exact ⟨t,ht,hdesc,by rw [heq t.first (by simp)]; exact hnext⟩
  | freedSecond i desc => simpa [hi] using h

theorem Held.begin (h : Held base s) (a : Args) : Held base { s with calls := .begun a :: s.calls } := by
  refine ⟨h.descPool,h.requestPool,?_,h.linked,h.irq,h.inside,h.index,h.ring⟩
  intro c hc
  rcases List.mem_cons.mp hc with rfl | hc
  · trivial
  · exact h.shaped c hc

theorem submit_perm {α : Type} (f : Call → List α) (g : Transfer → List α) (pre post : List Call)
    (c' : Call) (pending used sub : List Transfer) (irq : List α) :
    ((pre ++ c' :: post).flatMap f ++ ((pending ++ sub ++ used).flatMap g ++ irq)).Perm
      ((f c' ++ sub.flatMap g) ++ ((pre ++ post).flatMap f ++ ((pending ++ used).flatMap g ++ irq))) := by
  refine (middle_perm f pre post c' _).trans ?_
  rw [List.append_assoc (f c')]
  refine List.Perm.append_left _ ?_
  have hsub : ((pending ++ sub ++ used).flatMap g ++ irq).Perm
      (sub.flatMap g ++ ((pending ++ used).flatMap g ++ irq)) := by
    rw [← List.append_assoc]
    refine List.Perm.append_right irq ?_
    simp only [List.flatMap_append,List.append_assoc]
    exact List.perm_append_comm_assoc _ _ _
  exact (hsub.append_left _).trans (List.perm_append_comm_assoc _ _ _)

theorem Held.call (h : Held base s) {pre post : List Call} (hcalls : s.calls = pre ++ c :: post)
    (hstep : s.dev.callStep c = some (c',d')) :
    Held base { s with dev := d', calls := pre ++ c' :: post, pending := s.pending ++ c.submitted } := by
  obtain ⟨free,hd⟩ := h.descPool
  obtain ⟨freeR,hr⟩ := h.requestPool
  rw [ownedDescs,hcalls] at hd
  rw [ownedRequests,hcalls] at hr
  obtain ⟨hout,hshape,hlinked⟩ := callStep_outcome
    (hd.of_owned (middle_perm Call.descs pre post c _).symm)
    (hr.of_owned (middle_perm Call.requests pre post c _).symm)
    (h.shaped c (by simp [hcalls])) hstep
  obtain ⟨⟨free',hd'⟩,⟨freeR',hr'⟩,hothers,hring⟩ := hout
  have hrest : ∀ x ∈ s.inFlight.flatMap Transfer.descs ++ s.irqDescs,
      d'.queue.descriptorArray x = s.dev.queue.descriptorArray x :=
    fun x hx => hothers x (List.mem_append_right _ hx)
  have hpos : position { s with
      dev := d'
      calls := pre ++ c' :: post
      pending := s.pending ++ c.submitted } = s.position := by
    simp only [position,hring.lastSeenUsed]
  refine ⟨⟨free',hd'.of_owned (submit_perm _ _ _ _ _ _ _ _ _)⟩,
    ⟨freeR',hr'.of_owned (submit_perm _ _ _ _ _ _ _ _ _)⟩,?_,?_,?_,?_,?_,?_⟩
  · intro x hx
    rcases List.mem_append.mp hx with hpre | hpost
    · refine (h.shaped x (by simp [hcalls,hpre])).congr fun y hy => hothers y ?_
      exact List.mem_append_left _ (List.mem_flatMap.mpr ⟨x,List.mem_append_left _ hpre,hy⟩)
    · rcases List.mem_cons.mp hpost with rfl | hpost
      · exact hshape
      · refine (h.shaped x (by simp [hcalls,hpost])).congr fun y hy => hothers y ?_
        exact List.mem_append_left _ (List.mem_flatMap.mpr ⟨x,List.mem_append_right _ hpost,hy⟩)
  · intro t ht
    have hcase : t ∈ s.inFlight ∨ t ∈ c.submitted := by
      simp only [inFlight,List.mem_append] at ht ⊢
      rcases ht with (h1 | h1) | h1
      · exact .inl (.inl h1)
      · exact .inr h1
      · exact .inl (.inr h1)
    rcases hcase with hold | hnew
    · refine (h.linked t hold).congr fun y hy => hrest y ?_
      exact List.mem_append_left _ (List.mem_flatMap.mpr ⟨t,hold,hy⟩)
    · exact hlinked t hnew
  · exact irqShaped_congr h.irq rfl rfl fun x hx => hrest x (List.mem_append_right _ hx)
  · rw [hpos]
    exact h.inside
  · rw [hpos]
    show d'.queue.usedIndex % queueLength = _
    rw [hring.usedIndex]
    exact h.index
  · intro k hk
    rw [hpos]
    show d'.queue.usedRing _ = _
    rw [hring.usedRing]
    exact h.ring k hk

theorem Held.complete (h : Held base s) {pre post : List Transfer}
    (hpending : s.pending = pre ++ t :: post) :
    Held base { s with
      dev := { s.dev with queue := s.dev.queue.deviceUses t.first }
      pending := pre ++ post
      used := s.used ++ [t] } := by
  obtain ⟨free,hd⟩ := h.descPool
  obtain ⟨freeR,hr⟩ := h.requestPool
  have hperm : ((pre ++ post) ++ (s.used ++ [t])).Perm s.inFlight := by
    rw [inFlight,hpending,List.append_assoc,List.append_assoc]
    refine List.Perm.append_left _ ?_
    rw [← List.append_assoc]
    exact List.perm_append_comm
  have hmem : ∀ {x}, x ∈ (pre ++ post) ++ (s.used ++ [t]) ↔ x ∈ s.inFlight := hperm.mem_iff
  have hlen : s.dev.queue.length = queueLength := hd.length
  have hslot : s.dev.queue.usedIndex % s.dev.queue.length = (s.position + s.used.length) % queueLength := by
    rw [hlen]
    exact h.index
  have hlt := h.used_lt
  have hpos : position { s with
      dev := { s.dev with queue := s.dev.queue.deviceUses t.first }
      pending := pre ++ post
      used := s.used ++ [t] } = s.position := rfl
  refine ⟨⟨free,?_⟩,⟨freeR,?_⟩,h.shaped,
    fun x hx => (h.linked x (hmem.mp hx)).congr fun _ _ => rfl,
    irqShaped_congr h.irq rfl rfl fun _ _ => rfl,h.inside,?_,?_⟩
  · exact hd.uses.of_owned (((hperm.flatMap_right _).append_right _).append_left _)
  · exact hr.of_owned (((hperm.flatMap_right _).append_right _).append_left _)
  · rw [hpos]
    show (s.dev.queue.usedIndex + 1) % indexBound % queueLength = _
    rw [Nat.mod_mod_of_dvd _ (by decide : queueLength ∣ indexBound),List.length_append,Nat.add_mod,
      h.index,← Nat.add_mod]
    rfl
  · intro k hk
    rw [hpos]
    show Function.update s.dev.queue.usedRing (s.dev.queue.usedIndex % s.dev.queue.length) t.first _ = _
    rw [hslot]
    have hk' : k < s.used.length + 1 := by simpa using hk
    by_cases hlast : k = s.used.length
    · subst hlast
      simp
    · have hne : (s.position + k) % queueLength ≠ (s.position + s.used.length) % queueLength := by
        intro heq
        rcases (mod_eq_mod_iff (by omega) (by omega) (by decide)).mp heq with h1 | h1
        · omega
        · omega
      rw [Function.update_of_ne hne,h.ring k (by omega),List.getElem_append_left]

theorem rest_perm {α : Type} {A B C C' : List α} {x : α} (h : C.Perm (x :: C')) :
    (A ++ (B ++ C)).Perm (x :: (A ++ (B ++ C'))) := by
  rw [← List.append_assoc,← List.append_assoc]
  exact (h.append_left (A ++ B)).trans List.perm_middle

theorem Held.gives (h : Held base s) (x : Nat) (irq' : Irq) (current' : Option Transfer)
    (hs : s' = { s with dev := s.dev.freeDescriptor x, irq := irq', current := current' })
    (hdescs : s.irqDescs.Perm (x :: s'.irqDescs)) (hrequests : s'.irqRequests = s.irqRequests)
    (hpos : s'.position = s.position)
    (hshape : (∀ y ∈ s'.irqDescs, s'.dev.queue.descriptorArray y = s.dev.queue.descriptorArray y) →
      s'.irqShaped) : Held base s' := by
  obtain ⟨free,hd⟩ := h.descPool
  obtain ⟨freeR,hr⟩ := h.requestPool
  have hperm : s.ownedDescs.Perm (x :: s'.ownedDescs) := by
    have := rest_perm (A := s.calls.flatMap Call.descs) (B := s.inFlight.flatMap Transfer.descs) hdescs
    rwa [hs] at this ⊢
  have hpool := hd.give hperm
  have hx : ∀ y ∈ s'.ownedDescs, s'.dev.queue.descriptorArray y = s.dev.queue.descriptorArray y := by
    intro y hy
    have hnodup := hperm.nodup_iff.mp hd.pool.owned_nodup
    have hne : y ≠ x := by
      rintro rfl
      exact (List.nodup_cons.mp hnodup).1 hy
    rw [hs]
    exact (setDescriptor_apply (f := fun d => { d with next := s.dev.queue.freeDescIndex })).trans
      (if_neg hne)
  have hcalls : s'.calls = s.calls := by rw [hs]
  have hflight : s'.inFlight = s.inFlight := by rw [hs]; rfl
  refine ⟨⟨x :: free,?_⟩,⟨freeR,?_⟩,?_,?_,hshape fun y hy => hx y ?_,?_,?_,?_⟩
  · rw [hs] at hpool ⊢
    exact hpool
  · rw [ownedRequests,hrequests,hcalls,hflight,hs]
    exact hr
  · intro c hc
    rw [hcalls] at hc
    refine (h.shaped c hc).congr fun y hy => hx y ?_
    exact List.mem_append_left _ (List.mem_flatMap.mpr ⟨c,hcalls ▸ hc,hy⟩)
  · intro t ht
    rw [hflight] at ht
    refine (h.linked t ht).congr fun y hy => hx y ?_
    exact List.mem_append_right _ (List.mem_append_left _ (List.mem_flatMap.mpr ⟨t,hflight ▸ ht,hy⟩))
  · exact List.mem_append_right _ (List.mem_append_right _ hy)
  · rw [hpos]
    exact h.inside
  · rw [hpos,hs]
    exact h.index
  · rw [hpos,hs]
    exact h.ring

theorem taken_perm {α β : Type} (f : α → List β) (pre post : List α) (x : α) :
    ((pre ++ post).flatMap f ++ f x).Perm ((pre ++ x :: post).flatMap f ++ []) := by
  refine List.perm_append_comm.trans ?_
  have hmid := (middle_perm f pre post x []).symm
  rwa [List.append_nil ((pre ++ post).flatMap f)] at hmid

theorem Held.has_used_iff (h : Held base s) {i : Nat} (hirq : s.irq = .test i) :
    s.dev.queue.hasUsed i ↔ s.used ≠ [] := by
  obtain ⟨dev,calls,irq,pending,used,current⟩ := s
  cases hirq
  have hlength : dev.queue.length = queueLength := h.descPool.elim fun _ hd => hd.length
  have hlt : used.length < queueLength := h.used_lt
  have hinside : i < queueLength := h.inside
  have hindex : dev.queue.usedIndex % queueLength = (i + used.length) % queueLength := h.index
  have hsame : i = (i + used.length) % queueLength ↔ used = [] := by
    have hmod := mod_eq_mod_iff (n := queueLength) (Nat.le_add_right i used.length) (by omega)
      (show 0 < queueLength from by decide)
    rw [Nat.mod_eq_of_lt hinside] at hmod
    rw [hmod,← List.length_eq_zero_iff]
    omega
  exact not_congr (by rw [hlength,hindex]; exact hsame)

theorem Held.irq_next (h : Held base s) {i : Nat} {t : Transfer} {rest : List Transfer}
    (hirq : s.irq = .test i) (hused : s.used = t :: rest) :
    s.irqNext = { s with irq := .invoked i t.first t.request, used := rest, current := some t } := by
  have hhas : s.dev.queue.hasUsed i := (h.has_used_iff hirq).mpr (by simp [hused])
  have hlinked := h.linked t (by simp [inFlight,hused])
  have hslot := h.ring 0 (by simp [hused])
  have hinside := h.inside
  simp only [position,hirq,Nat.add_zero] at hslot hinside
  simp only [hused,List.getElem_cons_zero,Nat.mod_eq_of_lt hinside] at hslot
  simp only [irqNext,BlockDevice.irqStep,hirq,if_pos hhas,hslot,hlinked.address,
    Nat.add_sub_cancel,hused,List.tail_cons,List.head?_cons]

theorem Held.takes (h : Held base s) {i : Nat} {t : Transfer} {rest : List Transfer}
    (hirq : s.irq = .test i) (hused : s.used = t :: rest) : Held base s.irqNext := by
  have hlinked : t.Linked s.dev.queue := h.linked t (by simp [inFlight,hused])
  have hmove : ∀ k, ((i + 1) % queueLength + k) % queueLength = (i + (k + 1)) % queueLength := by
    intro k
    rw [Nat.mod_add_mod,Nat.add_right_comm,Nat.add_assoc]
  rw [h.irq_next hirq hused]
  obtain ⟨dev,calls,irq,pending,used,current⟩ := s
  cases hirq
  cases hused
  obtain ⟨free,hd⟩ := h.descPool
  obtain ⟨freeR,hr⟩ := h.requestPool
  refine ⟨⟨free,hd.of_owned ?_⟩,⟨freeR,hr.of_owned ?_⟩,h.shaped,?_,⟨t,rfl,rfl,rfl,hlinked⟩,
    Nat.mod_lt _ (show 0 < queueLength from by decide),?_,?_⟩
  · exact (taken_perm Transfer.descs pending rest t).append_left _
  · exact (taken_perm Transfer.requests pending rest t).append_left _
  · intro x hx
    refine h.linked x ?_
    rcases List.mem_append.mp hx with hp | hu
    · exact List.mem_append_left _ hp
    · exact List.mem_append_right _ (List.mem_cons_of_mem _ hu)
  · exact h.index.trans (hmove rest.length).symm
  · intro k hk
    exact (congrArg dev.queue.usedRing (hmove k)).trans (h.ring (k + 1) (Nat.succ_lt_succ hk))

theorem Held.irq_step (h : Held base s) : Held base s.irqNext := by
  cases hi : s.irq with
  | idle =>
    obtain ⟨dev,calls,irq,pending,used,current⟩ := s
    cases hi
    exact ⟨h.descPool,h.requestPool,h.shaped,h.linked,rfl,h.inside,h.index,h.ring⟩
  | test i =>
    cases hused : s.used with
    | cons t rest => exact h.takes hi hused
    | nil =>
      have hhas : ¬s.dev.queue.hasUsed i := fun hhas => (h.has_used_iff hi).mp hhas hused
      obtain ⟨dev,calls,irq,pending,used,current⟩ := s
      cases hi
      have hnext : irqNext ⟨dev,calls,.test i,pending,used,current⟩ =
          ⟨{ dev with queue := { dev.queue with lastSeenUsed := i } },calls,.idle,pending,used,
            current⟩ := by
        simp only [irqNext,BlockDevice.irqStep,if_neg hhas]
      rw [hnext]
      refine ⟨?_,h.requestPool,?_,?_,h.irq,h.inside,h.index,h.ring⟩
      · obtain ⟨free,hd⟩ := h.descPool
        exact ⟨free,hd.length,hd.pool,hd.count⟩
      · exact fun c hc => (h.shaped c hc).congr fun _ _ => rfl
      · exact fun t ht => (h.linked t ht).congr fun _ _ => rfl
  | invoked i desc request =>
    obtain ⟨dev,calls,irq,pending,used,current⟩ := s
    cases hi
    obtain ⟨t,rfl,rfl,rfl,hlinked⟩ := h.irq
    obtain ⟨freeR,hr⟩ := h.requestPool
    refine ⟨h.descPool,⟨t.request :: freeR,hr.give (rest_perm (.refl _))⟩,h.shaped,h.linked,
      ⟨t,rfl,rfl,hlinked⟩,h.inside,h.index,h.ring⟩
  | freedRequest i desc =>
    obtain ⟨dev,calls,irq,pending,used,current⟩ := s
    cases hi
    obtain ⟨t,rfl,rfl,hlinked⟩ := h.irq
    have hdesc : dev.descNext (dev.descNext t.first) = t.third :=
      (congrArg dev.descNext hlinked.second).trans hlinked.third
    refine h.gives t.third (.freedThird i t.first) (some t) ?_
      (@List.perm_append_comm _ [t.first,t.second] [t.third]) rfl rfl ?_
    · simp only [irqNext,BlockDevice.irqStep,hdesc]
    · intro hsame
      exact ⟨t,rfl,rfl,(congrArg Descriptor.next (hsame t.first List.mem_cons_self)).trans hlinked.second⟩
  | freedThird i desc =>
    obtain ⟨dev,calls,irq,pending,used,current⟩ := s
    cases hi
    obtain ⟨t,rfl,rfl,hsecond⟩ := h.irq
    have hdesc : dev.descNext t.first = t.second := hsecond
    refine h.gives t.second (.freedSecond i t.first) (some t) ?_
      (@List.perm_append_comm _ [t.first] [t.second]) rfl rfl ?_
    · simp only [irqNext,BlockDevice.irqStep,hdesc]
    · exact fun _ => ⟨t,rfl,rfl⟩
  | freedSecond i desc =>
    obtain ⟨dev,calls,irq,pending,used,current⟩ := s
    cases hi
    obtain ⟨t,rfl,rfl⟩ := h.irq
    have hlength : dev.queue.length = queueLength := h.descPool.elim fun _ hd => hd.length
    refine h.gives t.first _ _ rfl (.refl _) rfl ?_ fun _ => rfl
    exact congrArg ((i + 1) % ·) hlength

theorem Held.step (h : Held base s) (hs : Step s s') : Held base s' := by
  cases hs with
  | begin a => exact h.begin a
  | call hcalls hstep => exact h.call hcalls hstep
  | complete hpending => exact h.complete hpending
  | irq => exact h.irq_step

theorem Reachable.held (hr : Reachable base s) : Held base s := by
  induction hr with
  | refl => exact Held.boot
  | tail _ hs ih => exact ih.step hs

end System

end SabaOS.Virtio
