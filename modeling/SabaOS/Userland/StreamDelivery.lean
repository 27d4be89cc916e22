import SabaOS.Userland.StreamSocket

namespace SabaOS.Userland.StreamSocket

open SabaOS.Klib SabaOS.Fs Relation

structure Flow (w : Side → Nat) (s : Pair) : Prop where
  peer : ∀ e, (s.sock e).peer = true
  ring : ∀ e, ∃ ring, (s.sock e.other).ringBuffer = some ring ∧ ring.Valid ∧
    s.accepted e = s.received e.other ++ ring.contents ∧
    ring.writeIndex = w e + (s.accepted e).length

def Pair.written (s : Pair) (e : Side) : Nat :=
  ((s.sock e.other).ringBuffer.map (·.writeIndex)).getD 0

def Pair.drained (s : Pair) (e : Side) : Bool :=
  ((s.sock e.other).ringBuffer.map (·.isEmpty)).getD false

def Delivers (s : Pair) (e : Side) : Prop :=
  s.received e.other <+: s.accepted e ∧
    (∀ s', ReflTransGen Step (s.close e) s' → s'.received e.other <+: s'.accepted e) ∧
    ∃ s', ReflTransGen Step (s.close e) s' ∧ s'.received e.other = s.accepted e

section Ringed

variable (sock : Side → Sock) (e : Side) (ring : Ring)

def ringed : Side → Sock := Function.update sock e { sock e with ringBuffer := some ring }

theorem ringed_peer (i : Side) : (ringed sock e ring i).peer = (sock i).peer := by
  by_cases h : i = e
  · simp [ringed,h]
  · simp [ringed,Function.update_of_ne h]

theorem ringed_self : (ringed sock e ring e).ringBuffer = some ring := by
  simp [ringed]

theorem ringed_of_ne {i : Side} (h : i ≠ e) : (ringed sock e ring i).ringBuffer = (sock i).ringBuffer := by
  simp [ringed,Function.update_of_ne h]

end Ringed

section Accessors

variable (s : Pair) (e : Side) (ring : Ring) (bytes : List UInt8)

@[simp] theorem setRing_peer (i : Side) : ((s.setRing e ring).sock i).peer = (s.sock i).peer :=
  ringed_peer s.sock e ring i

@[simp] theorem setRing_ring_self : ((s.setRing e ring).sock e).ringBuffer = some ring :=
  ringed_self s.sock e ring

theorem setRing_ring_of_ne {i : Side} (h : i ≠ e) :
    ((s.setRing e ring).sock i).ringBuffer = (s.sock i).ringBuffer :=
  ringed_of_ne s.sock e ring h

@[simp] theorem setRing_accepted : (s.setRing e ring).accepted = s.accepted := rfl

@[simp] theorem setRing_received : (s.setRing e ring).received = s.received := rfl

@[simp] theorem addAccepted_sock : (s.addAccepted e bytes).sock = s.sock := rfl

@[simp] theorem addAccepted_received : (s.addAccepted e bytes).received = s.received := rfl

@[simp] theorem addAccepted_self : (s.addAccepted e bytes).accepted e = s.accepted e ++ bytes := by
  simp [Pair.addAccepted]

theorem addAccepted_of_ne {i : Side} (h : i ≠ e) :
    (s.addAccepted e bytes).accepted i = s.accepted i := by
  simp [Pair.addAccepted,Function.update_of_ne h]

@[simp] theorem addReceived_sock : (s.addReceived e bytes).sock = s.sock := rfl

@[simp] theorem addReceived_accepted : (s.addReceived e bytes).accepted = s.accepted := rfl

@[simp] theorem addReceived_self : (s.addReceived e bytes).received e = s.received e ++ bytes := by
  simp [Pair.addReceived]

theorem addReceived_of_ne {i : Side} (h : i ≠ e) :
    (s.addReceived e bytes).received i = s.received i := by
  simp [Pair.addReceived,Function.update_of_ne h]

end Accessors

variable {w : Side → Nat} {s s' : Pair} {e : Side}

theorem Side.eq_or_other (e i : Side) : i = e ∨ i = e.other := by
  cases e <;> cases i <;> simp [Side.other]

theorem Transfer.accepted_prefix (h : Transfer s s') (i : Side) : s.accepted i <+: s'.accepted i := by
  cases h with
  | none => exact List.prefix_rfl
  | @sent e iovs ring hp hr =>
    by_cases hi : i = e
    · subst hi
      simp
    · rw [addAccepted_of_ne _ _ _ hi]
      exact List.prefix_rfl
  | got hp hr => exact List.prefix_rfl

theorem Transfer.peer (h : Transfer s s') (i : Side) : (s'.sock i).peer = (s.sock i).peer := by
  cases h with
  | none => rfl
  | sent hp hr => simp
  | got hp hr => simp

theorem Transfer.received_kept (h : Transfer s s') (hp : (s.sock e).peer = false) :
    s'.received e = s.received e := by
  cases h with
  | none => rfl
  | sent hp hr => rfl
  | @got i lens ring hp' hr =>
    have hne : e ≠ i := by
      rintro rfl
      rw [hp] at hp'
      cases hp'
    exact addReceived_of_ne _ _ _ hne

theorem sendLoop_le (ring : Ring) (iovs : List (List UInt8)) :
    (sendLoop ring iovs).2 ≤ iovs.flatten.length := by
  induction iovs generalizing ring with
  | nil => exact Nat.zero_le _
  | cons iov iovs ih =>
    have hle : (ring.write iov).2 ≤ iov.length := Nat.min_le_left _ _
    rw [sendLoop,List.flatten_cons,List.length_append]
    split_ifs
    · exact (ih ring).trans (Nat.le_add_left _ _)
    · exact hle.trans (Nat.le_add_right _ _)
    · exact Nat.add_le_add hle (ih _)

theorem Flow.transfer (hf : Flow w s) (h : Transfer s s')
    (hb : ∀ e, w e + (s'.accepted e).length < 2 ^ 64) : Flow w s' := by
  refine ⟨fun i => (h.peer i).trans (hf.peer i),?_⟩
  cases h with
  | none => exact hf.ring
  | @sent e iovs ring hp hr =>
    intro i
    obtain ⟨ring',hr',hv,ha,hw⟩ := hf.ring i
    rcases e.eq_or_other i with rfl | rfl
    · cases hr'.symm.trans hr
      have hlen : (iovs.flatten.take (sendLoop ring iovs).2).length = (sendLoop ring iovs).2 :=
        List.length_take_of_le (sendLoop_le ring iovs)
      have hbi := hb i
      rw [addAccepted_self,List.length_append,setRing_accepted,hlen] at hbi
      obtain ⟨hc,-,hv',hi⟩ := sendLoop_spec hv iovs (by omega)
      refine ⟨_,by simp,hv',?_,?_⟩
      · simp [ha,hc]
      · rw [addAccepted_self,List.length_append,setRing_accepted,hlen]
        omega
    · refine ⟨ring',?_,hv,?_,?_⟩
      · rw [addAccepted_sock,setRing_ring_of_ne]
        · exact hr'
        · rw [Side.other_other]
          exact e.other_ne.symm
      · rw [addAccepted_of_ne _ _ _ e.other_ne]
        exact ha
      · rw [addAccepted_of_ne _ _ _ e.other_ne]
        exact hw
  | @got e lens ring hp hr =>
    intro i
    obtain ⟨ring',hr',hv,ha,hw⟩ := hf.ring i
    rcases e.eq_or_other i with rfl | rfl
    · refine ⟨ring',?_,hv,?_,hw⟩
      · rw [addReceived_sock,setRing_ring_of_ne _ _ _ i.other_ne]
        exact hr'
      · rw [addReceived_of_ne _ _ _ i.other_ne]
        exact ha
    · rw [Side.other_other] at hr' ha ⊢
      cases hr'.symm.trans hr
      obtain ⟨hret,hc,hv',hi⟩ := recvLoop_spec hv lens
      refine ⟨_,by simp,hv',?_,?_⟩
      · rw [addReceived_self,hret,hc,List.append_assoc,List.take_append_drop]
        exact ha
      · rw [hi]
        exact hw

theorem Step.accepted_prefix (h : Step s s') (i : Side) : s.accepted i <+: s'.accepted i := by
  obtain ⟨waiting,ht⟩ := h.transfer
  exact ht.accepted_prefix i

theorem Flow.step (hf : Flow w s) (h : Step s s')
    (hb : ∀ e, w e + (s'.accepted e).length < 2 ^ 64) : Flow w s' := by
  obtain ⟨waiting,ht⟩ := h.transfer
  have := hf.transfer ht hb
  exact ⟨this.peer,this.ring⟩

theorem Flow.run (hf : Flow w s) (h : ReflTransGen Step s s')
    (hb : ∀ e, w e + (s'.accepted e).length < 2 ^ 64) : Flow w s' := by
  induction h with
  | refl => exact hf
  | tail _ hstep ih =>
    refine (ih fun e => ?_).step hstep hb
    exact (Nat.add_le_add_left (hstep.accepted_prefix e).length_le _).trans_lt (hb e)

theorem run_closed (h : ReflTransGen Step s s') (hp : (s.sock e).peer = false) :
    (s'.sock e).peer = false ∧ s'.received e = s.received e := by
  induction h with
  | refl => exact ⟨hp,rfl⟩
  | tail _ hstep ih =>
    obtain ⟨waiting,ht⟩ := hstep.transfer
    exact ⟨(ht.peer e).trans ih.1,(ht.received_kept ih.1).trans ih.2⟩

theorem run_accepted (h : ReflTransGen Step s s') (i : Side) : s.accepted i <+: s'.accepted i := by
  induction h with
  | refl => exact List.prefix_rfl
  | tail _ hstep ih => exact ih.trans (hstep.accepted_prefix i)

theorem close_peer (hp : (s.sock e).peer = true) : ((s.close e).sock e.other).peer = false := by
  simp [Pair.close,hp,Function.update_of_ne e.other_ne]

theorem accept_flow {client : Sock} (data data' : Nat → UInt8)
    (hc : ∀ ring, client.ringBuffer = some ring → ring.Valid ∧ ring.isEmpty = true) :
    Flow (Pair.accept client data data').written (Pair.accept client data data') := by
  have hnew : ∀ data, (newRing data).Valid ∧ (newRing data).contents = [] := fun data =>
    ⟨⟨by decide,by decide,le_rfl,Nat.two_pow_pos 64,Nat.zero_le _⟩,rfl⟩
  refine ⟨fun e => by cases e <;> rfl,?_⟩
  intro e
  cases e with
  | server =>
    have hring : (client.ringBuffer.getD (newRing data')).Valid ∧
        (client.ringBuffer.getD (newRing data')).contents = [] := by
      cases hr : client.ringBuffer with
      | none => exact hnew data'
      | some ring => exact ⟨(hc ring hr).1,(hc ring hr).1.isEmpty_iff.mp (hc ring hr).2⟩
    exact ⟨_,rfl,hring.1,hring.2.symm,rfl⟩
  | client => exact ⟨_,rfl,(hnew data).1,(hnew data).2.symm,rfl⟩

theorem stream_delivered (client : Sock) (data data' : Nat → UInt8)
    (hc : ∀ ring, client.ringBuffer = some ring → ring.Valid ∧ ring.isEmpty = true) (s : Pair)
    (hrun : ReflTransGen Step (Pair.accept client data data') s)
    (hb : ∀ e, (Pair.accept client data data').written e + (s.accepted e).length < 2 ^ 64)
    (e : Side) :
    s.received e.other <+: s.accepted e ∧ (Delivers s e ↔ s.drained e = true) := by
  have hflow := (accept_flow _ _ hc).run hrun hb
  obtain ⟨ring,hr,hv,ha,-⟩ := hflow.ring e
  have hstart : s.received e.other <+: s.accepted e := ⟨_,ha.symm⟩
  have hdrained : s.drained e = true ↔ s.received e.other = s.accepted e := by
    rw [Pair.drained,hr,ha,Option.map_some,Option.getD_some,hv.isEmpty_iff]
    simp
  have hclosed := close_peer (hflow.peer e)
  refine ⟨hstart,?_⟩
  rw [hdrained]
  constructor
  · rintro ⟨-,-,s',hrun',heq⟩
    exact (run_closed hrun' hclosed).2.symm.trans heq
  · intro heq
    refine ⟨hstart,?_,s.close e,.refl,heq⟩
    intro s' hrun'
    rw [(run_closed hrun' hclosed).2]
    exact hstart.trans (run_accepted hrun' e)

def Outcome.pair? : Outcome → Option Pair
  | .returned s _ => some s
  | .blocked => none
  | .crashed => none

theorem Step.of_pair? {c : Call} (h : (s.start c false).pair? = some s') : Step s s' := by
  cases ho : s.start c false with
  | returned s₁ ret =>
    rw [ho] at h
    cases h
    exact .returns ho
  | blocked =>
    rw [ho] at h
    cases h
  | crashed =>
    rw [ho] at h
    cases h

def connected : Pair := Pair.accept ⟨none,false⟩ (fun _ => 0) (fun _ => 0)

def sentOne : Pair := ((connected.start ⟨.server,.send false [[42]]⟩ false).pair?).get (by decide +kernel)

def gotOne : Pair := ((sentOne.start ⟨.client,.recv [8]⟩ false).pair?).get (by decide +kernel)

theorem connected_sentOne : Step connected sentOne :=
  .of_pair? (Option.some_get (by decide +kernel)).symm

theorem sentOne_gotOne : Step sentOne gotOne :=
  .of_pair? (Option.some_get (by decide +kernel)).symm

theorem stream_delivered_one :
    ReflTransGen Step connected gotOne ∧ gotOne.received .client = [42] ∧ Delivers gotOne .server := by
  have hrun := (ReflTransGen.single connected_sentOne).tail sentOne_gotOne
  have hbound : ∀ e, connected.written e + (gotOne.accepted e).length < 2 ^ 64 := by
    intro e
    cases e <;> decide +kernel
  refine ⟨hrun,by decide +kernel,?_⟩
  exact (stream_delivered ⟨none,false⟩ _ _ (by simp) gotOne hrun hbound .server).2.mpr
    (by decide +kernel)

theorem stream_byte_lost :
    ¬∀ (client : Sock) (data data' : Nat → UInt8) (s : Pair),
      ReflTransGen Step (Pair.accept client data data') s → ∀ e, Delivers s e := by
  intro h
  obtain ⟨-,-,s',hrun,heq⟩ := h ⟨none,false⟩ _ _ sentOne (.single connected_sentOne) .server
  have hclosed : ((sentOne.close .server).sock .client).peer = false := by decide +kernel
  have hreceived : (sentOne.close .server).received .client = [] := by decide +kernel
  have haccepted : sentOne.accepted .server = [42] := by decide +kernel
  have hkept := (run_closed hrun hclosed).2
  rw [hreceived] at hkept
  rw [haccepted] at heq
  simp [Side.other,hkept] at heq

end SabaOS.Userland.StreamSocket
