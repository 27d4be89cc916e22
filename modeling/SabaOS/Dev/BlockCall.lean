import SabaOS.Dev.BlockRun
import SabaOS.Lib.Iterate

namespace SabaOS.Virtio

open SabaOS.Dev SabaOS.Lib

structure FreeLists (d : BlockDevice) (descs requests : List Nat) : Prop where
  descs : Chain d.queue.nextFree (d.queue.link d.queue.freeDescIndex) descs
  requests : Chain d.nextRequest d.firstFreeRequest requests

theorem FreeLists.unique {d : BlockDevice} {ds ds' rs rs' : List Nat} (h : FreeLists d ds rs)
    (h' : FreeLists d ds' rs') : ds = ds' ∧ rs = rs' :=
  ⟨h.descs.unique h'.descs,h.requests.unique h'.requests⟩

def Call.result : Call → Option Int
  | .returned ret => some ret
  | _ => none

def callTurn (x : Call × BlockDevice) : Turn (Call × BlockDevice) (Int × BlockDevice) :=
  match x.1.result,x.2.callStep x.1 with
  | some ret,_ => .stop (ret,x.2)
  | none,some r => .again r
  | none,none => .stuck

def Restores (d : BlockDevice) (a : Args) : Prop :=
  (∃ r, Ends callTurn (.begun a,d) r) ∧ ∀ d' ds rs, Ends callTurn (.begun a,d) (enomem,d') →
    FreeLists d ds rs → ∃ ds' rs', FreeLists d' ds' rs' ∧ ds'.Perm ds ∧ rs'.Perm rs

namespace Call

def rank : Call → Nat
  | .begun _ => 8
  | .requested _ _ => 7
  | .first _ _ _ => 6
  | .second _ _ _ _ => 5
  | .third _ _ _ _ _ => 4
  | .failing _ ds => ds.length + 1
  | .returned _ => 0

def Owns (base : Nat) (R R' : List Nat) (x : Call × BlockDevice) : Prop :=
  (∀ ret, x.1 = .returned ret → ret = enomem) →
    (∃ free, DescPool x.2.queue free (x.1.descs ++ R)) ∧
    (∃ free, RequestPool base x.2 free (x.1.requests ++ R')) ∧ x.1.Shaped x.2.queue

end Call

variable {base : Nat} {d d' : BlockDevice} {c c' : Call} {R R' : List Nat}
variable {x x' : Call × BlockDevice} {a : Args}

theorem result_some {ret : Int} : c.result = some ret ↔ c = .returned ret := by
  cases c with
  | returned ret => simp [Call.result]
  | _ => simp [Call.result]

theorem callTurn_again (h : callTurn x = .again x') : x.2.callStep x.1 = some x' := by
  rw [callTurn] at h
  split at h
  · cases h
  · next hs =>
    cases h
    exact hs
  · cases h

theorem callTurn_stop {r : Int × BlockDevice} (h : callTurn x = .stop r) :
    x = (.returned r.1,r.2) := by
  rw [callTurn] at h
  split at h
  · next ret hs =>
    cases h
    exact Prod.ext (result_some.mp hs) rfl
  · cases h
  · cases h

theorem withDescriptor_fst (fail : Call) (next : Nat → Call) (f : BlockDevice → Nat → BlockDevice) :
    (d.withDescriptor fail fun d x => (next x,f d x)).1 = fail ∨
      ∃ x, (d.withDescriptor fail fun d x => (next x,f d x)).1 = next x := by
  simp only [BlockDevice.withDescriptor]
  split_ifs
  · exact .inl rfl
  · exact .inr ⟨_,rfl⟩

theorem alloc_rank {fail : Call} {next : Nat → Call} {f : BlockDevice → Nat → BlockDevice} {n : Nat}
    (hs : some (d.withDescriptor fail fun d x => (next x,f d x)) = some (c',d'))
    (hfail : fail.rank < n) (hnext : ∀ x, (next x).rank < n) : c'.rank < n := by
  have hc : _ = c' := congrArg Prod.fst (Option.some.inj hs)
  rcases withDescriptor_fst (d := d) fail next f with h | ⟨x,h⟩
  · rwa [← hc,h]
  · rw [← hc,h]
    exact hnext x

theorem step_rank (h : d.callStep c = some (c',d')) : c'.rank < c.rank := by
  cases c with
  | begun a =>
    simp only [BlockDevice.callStep,Option.map_eq_some_iff] at h
    obtain ⟨r,-,heq⟩ := h
    cases heq
    exact Nat.lt_succ_self _
  | requested a r => exact alloc_rank h (by simp [Call.rank]) (by simp [Call.rank])
  | first a r d1 => exact alloc_rank h (by simp [Call.rank]) (by simp [Call.rank])
  | second a r d1 d2 => exact alloc_rank h (by simp [Call.rank]) (by simp [Call.rank])
  | third a r d1 d2 d3 =>
    cases h
    exact Nat.succ_pos _
  | failing r ds =>
    cases ds with
    | nil =>
      cases h
      exact Nat.succ_pos _
    | cons y ds =>
      cases h
      exact Nat.lt_succ_self _
  | returned ret => cases h

theorem Call.Owns.step (h : Owns base R R' x) (hs : x.2.callStep x.1 = some x') :
    Owns base R R' x' := by
  obtain ⟨c,d⟩ := x
  obtain ⟨c',d'⟩ := x'
  intro hret
  obtain ⟨⟨free,hd⟩,⟨freeR,hr⟩,hshape⟩ := h (by
    rintro ret rfl
    cases hs)
  obtain ⟨hout,hshape',-⟩ := callStep_outcome hd hr hshape hs
  have hsub : c.submitted = [] := by
    cases c with
    | third a r d1 d2 d3 =>
      cases hs
      exact absurd (hret 0 rfl) (by decide)
    | _ => rfl
  have hdescs := hout.descPool
  have hrequests := hout.requestPool
  rw [hsub,List.flatMap_nil,List.append_nil] at hdescs hrequests
  exact ⟨hdescs,hrequests,hshape'⟩

theorem step_some (hbegun : ∀ a, c ≠ .begun a) (hret : ∀ ret, c ≠ .returned ret) :
    ∃ x', d.callStep c = some x' ∧ ∀ a, x'.1 ≠ .begun a := by
  have halloc : ∀ {fail : Call} {next : Nat → Call} {f : BlockDevice → Nat → BlockDevice},
      (∀ a, fail ≠ .begun a) → (∀ x a, next x ≠ .begun a) →
      ∀ a, (d.withDescriptor fail fun d x => (next x,f d x)).1 ≠ .begun a := by
    intro fail next f hfail hnext a
    rcases withDescriptor_fst (d := d) fail next f with h | ⟨x,h⟩
    · rw [h]
      exact hfail a
    · rw [h]
      exact hnext x a
  cases c with
  | begun a => exact absurd rfl (hbegun a)
  | requested a r => exact ⟨_,rfl,halloc (by simp) (by simp)⟩
  | first a r d1 => exact ⟨_,rfl,halloc (by simp) (by simp)⟩
  | second a r d1 d2 => exact ⟨_,rfl,halloc (by simp) (by simp)⟩
  | third a r d1 d2 d3 => exact ⟨_,rfl,by simp⟩
  | failing r ds =>
    cases ds with
    | nil => exact ⟨_,rfl,by simp⟩
    | cons y ds => exact ⟨_,rfl,by simp⟩
  | returned ret => exact absurd rfl (hret ret)

theorem call_ends (hbegun : ∀ a, c ≠ .begun a) : ∃ r, Ends callTurn (c,d) r := by
  induction hn : c.rank using Nat.strong_induction_on generalizing c d with
  | _ n ih =>
    subst hn
    cases hres : c.result with
    | some ret => exact ⟨_,.stop (by rw [callTurn,hres])⟩
    | none =>
      have hret : ∀ ret, c ≠ .returned ret := by
        rintro ret rfl
        cases hres
      obtain ⟨⟨c',d'⟩,hs,hbegun'⟩ := step_some (d := d) hbegun hret
      obtain ⟨r,hr⟩ := ih _ (step_rank hs) hbegun' rfl
      exact ⟨r,(ends_again (by rw [callTurn,hres,hs])).mpr hr⟩

theorem restores_iff (hd : ∃ free, DescPool d.queue free R) (hr : ∃ free, RequestPool base d free R') :
    Restores d a ↔ d.firstFreeRequest ≠ none := by
  constructor
  · rintro ⟨⟨r,hends⟩,-⟩ hnone
    refine not_ends_stuck ?_ hends
    simp only [callTurn,Call.result,BlockDevice.callStep,BlockDevice.allocRequest,hnone,
      Option.map_none]
  · intro hsome
    refine ⟨?_,?_⟩
    · obtain ⟨request,hrequest⟩ := Option.ne_none_iff_exists'.mp hsome
      have hturn : callTurn (.begun a,d) = .again (.requested a request,
          { d with firstFreeRequest := (d.requests request).next }.setHeader request a) := by
        simp only [callTurn,Call.result,BlockDevice.callStep,BlockDevice.allocRequest,hrequest,
          Option.map_some]
      obtain ⟨r,hends⟩ := call_ends (d := { d with
        firstFreeRequest := (d.requests request).next }.setHeader request a) (c := .requested a request)
        (by simp)
      exact ⟨r,(ends_again hturn).mpr hends⟩
    · intro d' ds rs hends hlists
      obtain ⟨x,hvisits,hstop⟩ := hends.last
      have howns : Call.Owns base R R' x := by
        clear hstop
        induction hvisits with
        | refl => exact fun _ => ⟨hd,hr,trivial⟩
        | tail _ hturn ih => exact ih.step (callTurn_again hturn)
      obtain rfl := callTurn_stop hstop
      obtain ⟨⟨ds',hd'⟩,⟨rs',hr'⟩,-⟩ := howns fun ret hret => by
        cases hret
        rfl
      obtain ⟨free,hd⟩ := hd
      obtain ⟨freeR,hr⟩ := hr
      obtain ⟨rfl,rfl⟩ := hlists.unique ⟨hd.pool.chain,hr.chain⟩
      refine ⟨ds',rs',⟨hd'.pool.chain,hr'.chain⟩,?_,?_⟩
      · exact (List.perm_append_right_iff R).mp (hd'.pool.perm.trans hd.pool.perm.symm)
      · exact (List.perm_append_right_iff R').mp (hr'.perm.trans hr.perm.symm)

namespace System

variable {s s' : System} {i : Nat} {t : Transfer} {rest : List Transfer}

theorem Held.irq_run (h : Held base s) (n : Nat) : Held base (irqNext^[n] s) := by
  induction n with
  | zero => exact h
  | succ n ih =>
    rw [Function.iterate_succ_apply']
    exact ih.irq_step

theorem irq_turn (h : Held base s) (hirq : s.irq = .test i) (hused : s.used = t :: rest) :
    ∃ dev i, irqNext^[5] s =
      { s with dev := dev, irq := .test i, used := rest, current := none } := by
  rw [Function.iterate_succ_apply,h.irq_next hirq hused]
  exact ⟨_,_,rfl⟩

theorem given_perm {α : Type} {A all ds ds' : List α} {f : Transfer → List α}
    {pending : List Transfer}
    (h : (ds ++ (A ++ ((pending ++ t :: rest).flatMap f ++ []))).Perm all)
    (h' : (ds' ++ (A ++ ((pending ++ rest).flatMap f ++ []))).Perm all) :
    ds'.Perm (f t ++ ds) := by
  have hmid : (A ++ ((pending ++ t :: rest).flatMap f ++ [])).Perm
      (f t ++ (A ++ ((pending ++ rest).flatMap f ++ []))) :=
    ((middle_perm f pending rest t []).append_left A).trans (List.perm_append_comm_assoc _ _ _)
  refine (List.perm_append_right_iff _).mp (h'.trans (h.symm.trans ?_))
  rw [List.append_assoc]
  exact (hmid.append_left ds).trans (List.perm_append_comm_assoc _ _ _)

theorem Held.gives_back (h : Held base s) (hirq : s.irq = .test i) (hused : s.used = t :: rest)
    {ds rs : List Nat} (hlists : FreeLists s.dev ds rs) :
    ∃ ds' rs', FreeLists (irqNext^[5] s).dev ds' rs' ∧ ds'.Perm (t.descs ++ ds) ∧
      rs'.Perm (t.requests ++ rs) := by
  have h' := h.irq_run 5
  obtain ⟨dev',i',heq⟩ := irq_turn h hirq hused
  rw [heq] at h' ⊢
  obtain ⟨dev,calls,irq,pending,used,current⟩ := s
  cases hirq
  cases hused
  obtain ⟨⟨free,hd⟩,⟨freeR,hr⟩⟩ := And.intro h.descPool h.requestPool
  obtain ⟨⟨ds',hd'⟩,⟨rs',hr'⟩⟩ := And.intro h'.descPool h'.requestPool
  obtain ⟨rfl,rfl⟩ := hlists.unique ⟨hd.pool.chain,hr.chain⟩
  exact ⟨ds',rs',⟨hd'.pool.chain,hr'.chain⟩,given_perm hd.pool.perm hd'.pool.perm,
    given_perm hr.perm hr'.perm⟩

def readCall : Nat → Call × BlockDevice
  | 0 => (.begun ⟨7,0x3000,.read⟩,BlockDevice.init 4096)
  | n + 1 => ((readCall n).2.callStep (readCall n).1).getD (readCall n)

def calling (n : Nat) (pending : List Transfer) : System :=
  ⟨(readCall n).2,[(readCall n).1],.idle,pending,[],none⟩

theorem calling_step {n : Nat} (h : ((readCall n).2.callStep (readCall n).1).isSome) :
    Step (calling n []) (calling (n + 1) (readCall n).1.submitted) := by
  obtain ⟨r,hr⟩ := Option.isSome_iff_exists.mp h
  have hstep := @Step.call (calling n []) [] [] _ _ _ rfl hr
  have hnext : readCall (n + 1) = r := by
    rw [readCall,hr]
    rfl
  have heq : calling (n + 1) (readCall n).1.submitted =
      ⟨r.2,[r.1],.idle,(readCall n).1.submitted,[],none⟩ := by
    simp only [calling,hnext]
  rw [heq]
  exact hstep

def readTransfer : Transfer := ⟨4096,0,1,2⟩

def served : System := irqNext { calling 5 [] with
  dev := { (readCall 5).2 with queue := (readCall 5).2.queue.deviceUses 0 }
  used := [readTransfer] }

theorem served_reachable : Reachable 4096 served := by
  have hone : ∀ n < 4, ((readCall n).2.callStep (readCall n).1).isSome ∧
      (readCall n).1.submitted = [] := by decide
  have h (n : Nat) (hn : n < 4) (hr : Reachable 4096 (calling n [])) :
      Reachable 4096 (calling (n + 1) []) :=
    hr.tail ((hone n hn).2 ▸ calling_step (hone n hn).1)
  have hfour : Reachable 4096 (calling 4 []) :=
    h 3 (by decide) (h 2 (by decide) (h 1 (by decide) (h 0 (by decide)
      (.tail .refl (.begin ⟨7,0x3000,.read⟩)))))
  have hlast : Step (calling 4 []) (calling 5 [readTransfer]) := calling_step (by decide)
  exact ((hfour.tail hlast).tail (@Step.complete _ [] [] readTransfer rfl)).tail .irq

theorem crowd_reachable (base : Nat) (a : Args) {n : Nat} (hn : n ≤ numRequests) :
    ∃ s, Reachable base s ∧ s.ownedRequests.length = n := by
  induction n with
  | zero => exact ⟨boot base,.refl,rfl⟩
  | succ n ih =>
    obtain ⟨s,hr,hlen⟩ := ih (by omega)
    obtain ⟨free,hpool⟩ := hr.held.requestPool
    have hcount : free.length + n = numRequests := by
      have := hpool.perm.length_eq
      rwa [List.length_append,hlen,allRequests,List.length_map,List.length_range] at this
    obtain ⟨r,hr'⟩ : ∃ r, s.dev.firstFreeRequest = some r := by
      rw [← Option.ne_none_iff_exists']
      intro hnone
      have := hpool.head_none.mp hnone
      simp only [this,List.length_nil] at hcount
      omega
    have hstep : s.dev.callStep (.begun a) = some (.requested a r,
        { s.dev with firstFreeRequest := (s.dev.requests r).next }.setHeader r a) := by
      simp only [BlockDevice.callStep,BlockDevice.allocRequest,hr',Option.map_some]
    refine ⟨_,(hr.tail (.begin a)).tail (@Step.call _ [] s.calls _ _ _ rfl hstep),?_⟩
    rw [← hlen]
    simp only [ownedRequests,List.nil_append,List.flatMap_cons,Call.requests,Call.submitted,
      inFlight,List.append_nil,irqRequests,List.length_append,List.length_cons,List.length_nil]
    omega

end System

end SabaOS.Virtio
