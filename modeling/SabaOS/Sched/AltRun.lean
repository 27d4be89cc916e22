import SabaOS.Sched.RoundTrip
import SabaOS.Sched.Unblockable

namespace SabaOS.Sched

structure Pushed where
  addr : UInt64
  frame : SignalFrame
  extended : ExtendedState
  onAlt : Bool
deriving DecidableEq, Repr

def Pushed.Occupies (h : Pushed) (size a : UInt64) : Prop :=
  inArea h.addr signalFrameSize a ∨ inArea h.frame.ucMcontext.fpstate size a

structure Nesting where
  thread : Thread
  handlers : List Pushed
deriving DecidableEq, Repr

inductive NestOp where
  | user (state : InterruptState)
  | dispatch (signal : Nat) (action : KernelSigaction) (cr2 : UInt64)
  | sigreturn

namespace Nesting

def AtFrame (rsp : UInt64) : List Pushed → Bool
  | [] => true
  | h :: _ => rsp = h.addr || rsp = h.addr + 8

def user (n : Nesting) (state : InterruptState) : Option Nesting :=
  if AtFrame state.rsp n.handlers then
    some { n with thread := { n.thread with
      context := { n.thread.context with gprState := state } } }
  else none

def dispatch (n : Nesting) (size : UInt64) (signal : Nat) (action : KernelSigaction)
    (cr2 : UInt64) : Option Nesting := do
  let handler := if action.flags &&& saResetHand ≠ 0 then sigDfl else action.handler
  let addr := frameAddr size n.thread action
  let extended ← n.thread.context.extendedState
  let frame := signalFrameFor n.thread n.thread.process signal action
    (fpstateAddr size n.thread action) cr2
  return ⟨n.thread.enterHandler signal action handler addr,
    ⟨addr,frame,extended,onAltStack n.thread action⟩ :: n.handlers⟩

def sigreturn (n : Nesting) : Option Nesting :=
  match n.handlers with
  | [] => none
  | h :: rest =>
    if n.thread.context.gprState.rsp = h.addr + 8 then
      some ⟨n.thread.leaveHandler h.frame h.extended,rest⟩
    else none

def step (n : Nesting) (size : UInt64) : NestOp → Option Nesting
  | .user state => n.user state
  | .dispatch signal action cr2 => n.dispatch size signal action cr2
  | .sigreturn => n.sigreturn

def anyOnAlt (hs : List Pushed) : Bool := hs.any (·.onAlt)

end Nesting

theorem deliver_dispatch {s s' : State} {t : Tid} {thread : Thread} {process : Process}
    {signal : Nat} {action : KernelSigaction} (hs : List Pushed)
    (h : s.deliver t thread process signal action = some s') :
    ∃ thread' top, Nesting.dispatch ⟨thread,hs⟩ s.extendedStateSize signal action s.cpu.cr2 =
        some ⟨thread',top :: hs⟩ ∧ s'.threads t = some thread' ∧
      s'.memory.frame thread.process top.addr = top.frame ∧
      s'.memory.fpstate thread.process top.frame.ucMcontext.fpstate = top.extended := by
  simp only [State.deliver,Option.bind_eq_bind,Option.bind_eq_some_iff,Option.pure_def] at h
  obtain ⟨extended,hx,h⟩ := h
  cases h
  refine ⟨_,_,by simp only [Nesting.dispatch,hx,fpstateAddr]; rfl,Function.update_self _ _ _,?_,?_⟩
  · simp [State.setThread,State.writeFrame,State.setProcess]
  · simp [State.setThread,State.writeFrame,State.setProcess,signalFrameFor,toUcontext]

theorem returnFromSignal_sigreturn {s s' : State} {t : Tid} {thread : Thread} {h : Pushed}
    (rest : List Pushed) (ht : s.threads t = some thread)
    (ha : thread.signals.signalFrame = some h.addr)
    (hrsp : thread.context.gprState.rsp = h.addr + 8)
    (hframe : s.memory.frame thread.process h.addr = h.frame)
    (hfp : s.memory.fpstate thread.process h.frame.ucMcontext.fpstate = h.extended)
    (hr : s.returnFromSignal t = some s') :
    ∃ n, Nesting.sigreturn ⟨thread,h :: rest⟩ = some n ∧ n.handlers = rest ∧
      ∃ thread', s'.threads t = some thread' ∧ thread'.kept = n.thread.kept := by
  refine ⟨_,if_pos hrsp,rfl,?_⟩
  have hback := returnFromSignal_thread ht ha hr
  rwa [hframe,hfp] at hback

structure Pushed.Within (h : Pushed) (size : UInt64) (alt : AltStack) : Prop where
  low : alt.ssSp.toNat ≤ h.addr.toNat
  high : h.addr.toNat + 456 + size.toNat ≤ alt.ssSp.toNat + alt.ssSize.toNat

def Pushed.Outside (h : Pushed) (size : UInt64) (alt : AltStack) : Prop :=
  h.addr.toNat + 456 + size.toNat ≤ alt.ssSp.toNat ∨
    alt.ssSp.toNat + alt.ssSize.toNat ≤ h.addr.toNat

def Pushed.SameSide (h g : Pushed) (size : UInt64) (alt : AltStack) : Prop :=
  h.Within size alt ∧ g.Within size alt ∨ h.Outside size alt ∧ g.Outside size alt

structure Pushed.Placed (h : Pushed) (size : UInt64) (alt : AltStack) (rest : List Pushed) :
    Prop where
  fpstate : h.frame.ucMcontext.fpstate.toNat = h.addr.toNat + 456
  bound : h.addr.toNat + 456 + size.toNat < 2 ^ 64
  side : if Nesting.anyOnAlt (h :: rest) then h.Within size alt else h.Outside size alt
  single : h.onAlt → Nesting.anyOnAlt rest = false
  below : ∀ g ∈ rest, h.SameSide g size alt → h.addr.toNat + 456 + size.toNat ≤ g.addr.toNat

def Stacked (size : UInt64) (alt : AltStack) : UInt64 → List Pushed → Prop
  | _, [] => True
  | rsp, h :: rest =>
    Nesting.AtFrame rsp (h :: rest) ∧ h.Placed size alt rest ∧
      Stacked size alt h.frame.ucMcontext.rsp rest

section Areas

variable {size : UInt64} {alt : AltStack} {h g : Pushed} {rest : List Pushed}

theorem Pushed.Placed.occupies (hp : h.Placed size alt rest) {a : UInt64}
    (ha : h.Occupies size a) :
    h.addr.toNat ≤ a.toNat ∧ a.toNat < h.addr.toNat + 456 + size.toNat := by
  have hfp := hp.fpstate
  have hb := hp.bound
  have hlt := a.toNat_lt
  simp only [Pushed.Occupies,inArea,UInt64.lt_iff_toNat_lt,UInt64.toNat_sub,
    show (signalFrameSize).toNat = 440 from rfl] at ha
  omega

theorem Pushed.Within.not_outside (hw : h.Within size alt) : ¬h.Outside size alt := by
  intro ho
  have hl := hw.low
  have hh := hw.high
  simp only [Pushed.Outside] at ho
  omega

theorem Pushed.Placed.disjoint {restg : List Pushed} (hp : h.Placed size alt rest)
    (hg : g.Placed size alt restg) (hm : g ∈ rest) {a : UInt64} (ha : h.Occupies size a) :
    ¬g.Occupies size a := by
  intro hc
  have hbh := hp.occupies ha
  have hbg := hg.occupies hc
  have hsh := hp.side
  have hsg := hg.side
  have hbelow := hp.below g hm
  simp only [Pushed.SameSide,Pushed.Outside] at hbelow hsh hsg
  split_ifs at hsh hsg
  · have := hbelow (.inl ⟨hsh,hsg⟩)
    omega
  · have hl := hsh.low
    have hh := hsh.high
    omega
  · have hl := hsg.low
    have hh := hsg.high
    omega
  · have := hbelow (.inr ⟨hsh,hsg⟩)
    omega

end Areas

def Thread.altArea (thread : Thread) : AltStack := { thread.signals.signalAltStack with ssFlags := 0 }

namespace Nesting

def rsp (n : Nesting) : UInt64 := n.thread.context.gprState.rsp

def marked (n : Nesting) : Bool := n.thread.signals.signalAltStack.ssFlags &&& ssOnStack ≠ 0

def Fits (size : UInt64) (n : Nesting) (action : KernelSigaction) : Prop :=
  let alt := n.thread.signals.signalAltStack
  let rsp := n.thread.context.gprState.rsp.toNat
  Roomy size n.thread action ∧
    if onAltStack n.thread action then anyOnAlt n.handlers = false
    else if anyOnAlt n.handlers then alt.ssSp.toNat + size.toNat + 647 ≤ rsp
    else rsp ≤ alt.ssSp.toNat + 128 ∨ alt.ssSp.toNat + alt.ssSize.toNat + size.toNat + 647 ≤ rsp

def Safe (size : UInt64) (n : Nesting) : NestOp → Prop
  | .user _ => True
  | .dispatch _ action _ => n.Fits size action
  | .sigreturn => anyOnAlt n.handlers.tail = false

end Nesting

def NestStep (size : UInt64) (n n' : Nesting) : Prop := ∃ op, n.step size op = some n'

def SafeNestStep (size : UInt64) (n n' : Nesting) : Prop :=
  ∃ op, n.Safe size op ∧ n.step size op = some n'

structure Nested (size : UInt64) (n : Nesting) : Prop where
  stacked : Stacked size n.thread.altArea n.rsp n.handlers
  flag : n.marked = Nesting.anyOnAlt n.handlers

section Stacked

variable {size rsp : UInt64} {alt : AltStack} {hs : List Pushed}

theorem Stacked.outside (h : Stacked size alt rsp hs) (ha : Nesting.anyOnAlt hs = false) :
    ∀ g ∈ hs, g.Outside size alt := by
  induction hs generalizing rsp with
  | nil => simp
  | cons k rest ih =>
    obtain ⟨-,hp,hrest⟩ := h
    have hside := hp.side
    rw [if_neg (by simp [ha])] at hside
    simp only [Nesting.anyOnAlt,List.any_cons,Bool.or_eq_false_iff] at ha
    intro g hg
    rcases List.mem_cons.mp hg with rfl | hg
    · exact hside
    · exact ih hrest ha.2 g hg

theorem Stacked.placed (h : Stacked size alt rsp hs) :
    hs.Pairwise fun h g => ∀ a, h.Occupies size a → ¬g.Occupies size a := by
  have hall : ∀ {rsp : UInt64} {hs : List Pushed}, Stacked size alt rsp hs →
      ∀ g ∈ hs, ∃ rest, g.Placed size alt rest := by
    intro rsp hs h
    induction hs generalizing rsp with
    | nil => simp
    | cons k rest ih =>
      obtain ⟨-,hp,hrest⟩ := h
      intro g hg
      rcases List.mem_cons.mp hg with rfl | hg
      · exact ⟨rest,hp⟩
      · exact ih hrest g hg
  induction hs generalizing rsp with
  | nil => exact .nil
  | cons k rest ih =>
    obtain ⟨-,hp,hrest⟩ := h
    refine .cons ?_ (ih hrest)
    intro g hg a ha
    obtain ⟨restg,hpg⟩ := hall hrest g hg
    exact hp.disjoint hpg hg ha

theorem Stacked.rsp_le {k : Pushed} {rest : List Pushed} (h : Stacked size alt rsp (k :: rest)) :
    rsp.toNat ≤ k.addr.toNat + 8 := by
  obtain ⟨hat,hp,-⟩ := h
  have hb := hp.bound
  simp only [Nesting.AtFrame,Bool.or_eq_true,decide_eq_true_eq] at hat
  rcases hat with rfl | rfl
  · omega
  · rw [UInt64.toNat_add,show (8 : UInt64).toNat = 8 from rfl]
    omega

theorem Stacked.below {n : Pushed} (h : Stacked size alt rsp hs)
    (hrsp : n.addr.toNat + 456 + size.toNat + 128 ≤ rsp.toNat)
    (hside : if Nesting.anyOnAlt hs then n.Within size alt else n.Outside size alt) :
    ∀ g ∈ hs, n.SameSide g size alt → n.addr.toNat + 456 + size.toNat ≤ g.addr.toNat := by
  cases hs with
  | nil => simp
  | cons k rest =>
    have hle := h.rsp_le
    obtain ⟨-,hp,-⟩ := h
    have hk := hp.side
    have hnk : n.addr.toNat + 456 + size.toNat ≤ k.addr.toNat := by omega
    intro g hg hng
    rcases List.mem_cons.mp hg with rfl | hg
    · exact hnk
    · have hkg : k.SameSide g size alt := by
        split_ifs at hside hk
        · rcases hng with ⟨-,hw⟩ | ⟨ho,-⟩
          · exact .inl ⟨hk,hw⟩
          · exact absurd ho hside.not_outside
        · rcases hng with ⟨hw,-⟩ | ⟨-,ho⟩
          · exact absurd hside hw.not_outside
          · exact .inr ⟨hk,ho⟩
      have := hp.below g hg hkg
      omega

end Stacked

theorem dispatch_eq {n n' : Nesting} {size : UInt64} {signal : Nat} {action : KernelSigaction}
    {cr2 : UInt64} (h : n.dispatch size signal action cr2 = some n') :
    ∃ handler p, n' = ⟨n.thread.enterHandler signal action handler p.addr,p :: n.handlers⟩ ∧
      p.addr = frameAddr size n.thread action ∧
      p.frame.ucMcontext.fpstate = fpstateAddr size n.thread action ∧
      p.frame.ucMcontext.rsp = n.rsp ∧ p.onAlt = onAltStack n.thread action := by
  simp only [Nesting.dispatch,Option.bind_eq_bind,Option.bind_eq_some_iff,Option.pure_def] at h
  obtain ⟨extended,-,h⟩ := h
  refine ⟨_,⟨frameAddr size n.thread action,signalFrameFor n.thread n.thread.process signal action
    (fpstateAddr size n.thread action) cr2,extended,onAltStack n.thread action⟩,
    (Option.some.inj h).symm,?_,?_,?_,?_⟩
  · rfl
  · simp only [signalFrameFor,toUcontext]
  · rfl
  · rfl

namespace Nested

variable {size : UInt64} {n n' : Nesting}

theorem user (hn : Nested size n) {state : InterruptState} (h : n.user state = some n') :
    Nested size n' := by
  unfold Nesting.user at h
  split_ifs at h with hat
  cases h
  refine ⟨?_,hn.flag⟩
  have hs := hn.stacked
  cases hc : n.handlers with
  | nil => trivial
  | cons k rest =>
    rw [hc] at hs hat
    exact ⟨hat,hs.2⟩

theorem pushed (hn : Nested size n) {action : KernelSigaction} (hfits : n.Fits size action)
    {p : Pushed} (haddr : p.addr = frameAddr size n.thread action)
    (hfp : p.frame.ucMcontext.fpstate = fpstateAddr size n.thread action)
    (halt : p.onAlt = onAltStack n.thread action) :
    p.Placed size n.thread.altArea n.handlers := by
  obtain ⟨hroom,hfits⟩ := hfits
  obtain ⟨hb₁,hb₂,hb₃⟩ := hroom.bounds
  have htop := hroom.stackTop_eq
  have hlt := (stackTop n.thread action).toNat_lt
  have hcons : Nesting.anyOnAlt (p :: n.handlers) =
      (onAltStack n.thread action || Nesting.anyOnAlt n.handlers) := by
    rw [← halt]
    rfl
  rw [← haddr,← hfp] at hb₁
  rw [← hfp] at hb₂
  rw [← haddr] at hb₃
  by_cases hon : onAltStack n.thread action
  · rw [if_pos hon] at hfits htop
    have hsize := hroom
    rw [Roomy,if_pos hon] at hsize
    have hwithin : p.Within size n.thread.altArea := by
      refine ⟨?_,?_⟩
      · simp only [Thread.altArea]
        omega
      · simp only [Thread.altArea]
        omega
    refine ⟨hb₁,by omega,?_,fun _ => hfits,?_⟩
    · rw [hcons,hon]
      exact hwithin
    · intro g hg hside
      have ho := hn.stacked.outside hfits g hg
      rcases hside with ⟨-,hw⟩ | ⟨hp,-⟩
      · exact absurd ho hw.not_outside
      · exact absurd hp hwithin.not_outside
  · rw [if_neg hon] at hfits htop
    have hside : if Nesting.anyOnAlt n.handlers then p.Within size n.thread.altArea
        else p.Outside size n.thread.altArea := by
      split_ifs at hfits ⊢ with hany
      · refine ⟨?_,?_⟩
        · simp only [Thread.altArea]
          omega
        · have hs := hn.stacked
          cases hc : n.handlers with
          | nil =>
            rw [hc] at hany
            cases hany
          | cons k rest =>
            rw [hc] at hs hany
            have hle := hs.rsp_le
            have hk := hs.2.1.side
            rw [if_pos hany] at hk
            have hhigh := hk.high
            simp only [Nesting.rsp] at hle
            omega
      · simp only [Pushed.Outside,Thread.altArea]
        omega
    refine ⟨hb₁,by omega,?_,?_,hn.stacked.below ?_ hside⟩
    · rw [Bool.not_eq_true] at hon
      rw [hcons,hon,Bool.false_or]
      exact hside
    · intro hc
      rw [halt] at hc
      exact absurd hc hon
    · simp only [Nesting.rsp]
      omega

theorem dispatch (hn : Nested size n) {signal : Nat} {action : KernelSigaction} {cr2 : UInt64}
    (hfits : n.Fits size action) (h : n.dispatch size signal action cr2 = some n') :
    Nested size n' := by
  obtain ⟨handler,p,rfl,haddr,hfp,hrsp,halt⟩ := dispatch_eq h
  have harea : (n.thread.enterHandler signal action handler p.addr).altArea = n.thread.altArea := by
    simp only [Thread.altArea,Thread.enterHandler]
    split_ifs <;> rfl
  have hplaced := hn.pushed hfits haddr hfp halt
  have hstacked := hn.stacked
  rw [← hrsp] at hstacked
  refine ⟨?_,?_⟩
  · rw [harea]
    exact ⟨by simp [Nesting.AtFrame,Nesting.rsp,Thread.enterHandler],hplaced,hstacked⟩
  · have hflag := hn.flag
    simp only [Nesting.marked,Nesting.anyOnAlt,List.any_cons,halt,Thread.enterHandler] at hflag ⊢
    by_cases hon : onAltStack n.thread action
    · simp only [hon,if_true,Bool.true_or,or_and_self]
      decide
    · simpa [hon] using hflag

theorem sigreturn (hn : Nested size n) (hsafe : Nesting.anyOnAlt n.handlers.tail = false)
    (h : n.sigreturn = some n') : Nested size n' := by
  unfold Nesting.sigreturn at h
  have hs := hn.stacked
  cases hc : n.handlers with
  | nil => simp [hc] at h
  | cons k rest =>
    simp only [hc] at h
    split_ifs at h
    cases h
    rw [hc] at hs hsafe
    refine ⟨hs.2.2,?_⟩
    have hclear : n.thread.signals.signalAltStack.ssFlags &&& ~~~ssOnStack &&& ssOnStack = 0 := by
      rw [UInt64.and_assoc,show ~~~ssOnStack &&& ssOnStack = 0 by decide,UInt64.and_zero]
    simp only [Nesting.marked,Thread.leaveHandler,hclear]
    exact hsafe.symm

theorem step (hn : Nested size n) {op : NestOp} (hsafe : n.Safe size op)
    (h : n.step size op = some n') : Nested size n' := by
  cases op with
  | user state => exact hn.user h
  | dispatch signal action cr2 => exact hn.dispatch hsafe h
  | sigreturn => exact hn.sigreturn hsafe h

theorem run {n₀ : Nesting} (hn : Nested size n₀)
    (hrun : Relation.ReflTransGen (SafeNestStep size) n₀ n) : Nested size n := by
  induction hrun with
  | refl => exact hn
  | tail _ hstep ih =>
    obtain ⟨op,hsafe,hop⟩ := hstep
    exact ih.step hsafe hop

end Nested

theorem alt_stack_nests {size : UInt64} {n₀ n : Nesting} (h₀ : n₀.handlers = [])
    (hflag : n₀.marked = false) (hrun : Relation.ReflTransGen (SafeNestStep size) n₀ n) :
    (n.handlers.Pairwise fun h g => ∀ a, h.Occupies size a → ¬g.Occupies size a) ∧
      (n.marked ↔ ∃ h ∈ n.handlers, h.onAlt) := by
  have hstart : Nested size n₀ := by
    refine ⟨?_,?_⟩
    · rw [h₀]
      trivial
    · rw [h₀,hflag]
      rfl
  have hn := hstart.run hrun
  refine ⟨hn.stacked.placed,?_⟩
  rw [hn.flag,Nesting.anyOnAlt,List.any_eq_true]

def onStackHandler : KernelSigaction := { userHandler with flags := saOnStack }

def unsignalled : Nesting where
  handlers := []
  thread :=
    { signalledThread with
      signals := { signalAltStack := { ssSp := 0x100000, ssSize := 0x10000 } } }

def oneDeep (action : KernelSigaction) : Nesting :=
  (unsignalled.dispatch 832 10 action 0).get rfl

def twoDeep (first : KernelSigaction) : Nesting :=
  ((oneDeep first).dispatch 832 12 onStackHandler 0).get rfl

theorem alt_stack_nests_mixed :
    ((twoDeep userHandler).handlers.Pairwise fun h g =>
      ∀ a, h.Occupies 832 a → ¬g.Occupies 832 a) ∧ (twoDeep userHandler).marked := by
  have h₁ : SafeNestStep 832 unsignalled (oneDeep userHandler) := by
    refine ⟨.dispatch 10 userHandler 0,⟨?_,?_⟩,(Option.some_get _).symm⟩
    · unfold Roomy
      decide
    · exact .inl (by decide)
  have h₂ : SafeNestStep 832 (oneDeep userHandler) (twoDeep userHandler) := by
    refine ⟨.dispatch 12 onStackHandler 0,⟨?_,by decide⟩,(Option.some_get _).symm⟩
    unfold Roomy
    decide
  obtain ⟨hpair,hflag⟩ := alt_stack_nests rfl rfl ((Relation.ReflTransGen.single h₁).tail h₂)
  exact ⟨hpair,hflag.mpr (by decide +kernel)⟩

theorem alt_frames_overlap :
    ¬∀ (size : UInt64) (n₀ n : Nesting), n₀.handlers = [] → n₀.marked = false →
      Relation.ReflTransGen (NestStep size) n₀ n →
      n.handlers.Pairwise fun h g => ∀ a, h.Occupies size a → ¬g.Occupies size a := by
  intro hall
  have h₁ : NestStep 832 unsignalled (oneDeep onStackHandler) :=
    ⟨.dispatch 10 onStackHandler 0,(Option.some_get _).symm⟩
  have h₂ : NestStep 832 (oneDeep onStackHandler) (twoDeep onStackHandler) :=
    ⟨.dispatch 12 onStackHandler 0,(Option.some_get _).symm⟩
  have h := hall 832 _ _ rfl rfl ((Relation.ReflTransGen.single h₁).tail h₂)
  have haddr : (twoDeep onStackHandler).handlers.map (·.addr) = [0x10faf8,0x10faf8] := by
    decide +kernel
  cases hc : (twoDeep onStackHandler).handlers with
  | nil => simp [hc] at haddr
  | cons k rest =>
    cases hr : rest with
    | nil => simp [hc,hr] at haddr
    | cons g tail =>
      simp only [hc,hr,List.map_cons,List.cons.injEq] at haddr
      rw [hc,hr,List.pairwise_cons] at h
      refine h.1 g List.mem_cons_self 0x10faf8 (.inl ?_) (.inl ?_)
      · rw [haddr.1]
        unfold inArea
        decide
      · rw [haddr.2.1]
        unfold inArea
        decide

end SabaOS.Sched
