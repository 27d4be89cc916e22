import SabaOS.Drm.Counted

namespace SabaOS.Drm

open SabaOS.Lib

structure Registered (d : Device) : Prop where
  nodup : d.fbs.Nodup
  live : ∀ p, p ∈ d.fbs ↔ (d.framebuffers p).isSome
  shown : ∀ c ∈ d.crtcs, ∀ p, (d.crtc c).fb = some p → p ∈ d.fbs
  pending : ∀ c ∈ d.crtcs, ∀ p, (d.crtc c).pendingFb = some p → p ∈ d.fbs

def Device.Unused (d : Device) (p : Nat) : Prop :=
  ∀ c ∈ d.crtcs, (d.crtc c).fb ≠ some p ∧ (d.crtc c).pendingFb ≠ some p

def FbCmd2.Attaches (cmd : FbCmd2) (d : Device) (file : Nat) (alloc : Option Nat) : Prop :=
  cmd.width = 0 ∨ cmd.height = 0 ∨ cmd.handles 0 = 0 ∨ alloc = none ∨
    ∀ i, cmd.handles i ≠ 0 → d.resolve file (cmd.handles i) ≠ none

def Op.Registers (d : Device) : Op → Prop
  | .ioctl file (.addFb2 alloc (some cmd)) => cmd.Attaches d file alloc
  | .ioctl _ (.rmFb (some id)) => ∀ p, d.findFb id = some p → d.Unused p
  | _ => True

variable {d d' : Device} {s s' : State} {file p id : Nat} {alloc : Option Nat} {cmd : FbCmd2}

theorem Registered.of_same (h : d.SameRegistry d') (hd : Registered d) : Registered d' := by
  refine ⟨?_,?_,?_,?_⟩
  · rw [h.fbs]
    exact hd.nodup
  · rw [h.fbs,h.framebuffers]
    exact hd.live
  · rw [h.fbs,h.crtc,h.crtcs]
    exact hd.shown
  · rw [h.fbs,h.crtc,h.crtcs]
    exact hd.pending

theorem Registered.of_registry : OfRegistry Registered := fun _ _ h => Registered.of_same h.toSameRegistry

theorem Registered.boot (connector : Connector) (mode : Mode) (hw : Hardware) :
    Registered (bootDevice connector mode hw) := by
  refine ⟨List.nodup_nil,fun p => ?_,?_,?_⟩
  · simp [bootDevice]
  · intro c _ p hp
    cases hp
  · intro c _ p hp
    cases hp

theorem findFb_mem (h : d.findFb id = some p) : p ∈ d.fbs := by
  rw [Device.findFb] at h
  split_ifs at h
  exact (firstLive_some h).1

section Crtcs

theorem Registered.setCrtc (h : Registered d) {c : Nat} {x : Crtc}
    (hfb : ∀ p, x.fb = some p → p ∈ d.fbs) (hpending : ∀ p, x.pendingFb = some p → p ∈ d.fbs) :
    Registered (d.setCrtc c x) := by
  refine ⟨h.nodup,h.live,?_,?_⟩
  · intro c' hc' p hp
    simp only [Device.setCrtc,Function.update_apply] at hp
    split_ifs at hp
    · exact hfb p hp
    · exact h.shown c' hc' p hp
  · intro c' hc' p hp
    simp only [Device.setCrtc,Function.update_apply] at hp
    split_ifs at hp
    · exact hpending p hp
    · exact h.pending c' hc' p hp

def Ends {α : Type} (I : Device → Prop) (l : List Lock) (I' : α → Device → Prop) (l' : List Lock)
    (x : Command α) : Prop :=
  Triple (fun s => s.held = l ∧ I s.dev) x (fun a s => s.held = l' ∧ I' a s.dev) fun _ => True

variable {α β : Type} {I : Device → Prop} {l l' : List Lock} {x : Command α}

theorem Moves.ends (h : Moves I l l' x) : Ends I l (fun _ => I) l' x := h.stops fun _ _ => trivial

namespace Ends

variable {y : Command α} {f : α → Command β} {J : Device → Prop} {I' J' : α → Device → Prop}
variable {K : β → Device → Prop} {l'' : List Lock}

theorem pure {a : α} (h : ∀ d, I d → I' a d) : Ends I l I' l (pure a) :=
  Triple.pure fun s hs => ⟨hs.1,h s.dev hs.2⟩

theorem bind (hx : Ends I l I' l' x) (hf : ∀ a, Ends (I' a) l' K l'' (f a)) :
    Ends I l K l'' (x >>= f) :=
  Triple.bind hx hf

theorem weaken (h : Ends I l I' l' x) (hI : ∀ d, J d → I d) (hI' : ∀ a d, I' a d → J' a d) :
    Ends J l J' l' x :=
  Triple.weaken h (fun s hs => ⟨hs.1,hI s.dev hs.2⟩) fun a s hs => ⟨hs.1,hI' a s.dev hs.2⟩

theorem ite {c : Prop} [Decidable c] (ht : c → Ends I l I' l' x) (hf : ¬c → Ends I l I' l' y) :
    Ends I l I' l' (if c then x else y) :=
  Triple.ite ht hf

end Ends

section Rules

variable {I' : β → Device → Prop} {f : Option Nat → Command β}

theorem framebufferLookup_ends (hnone : Ends I l I' l' (f none))
    (hsome : ∀ p, Ends (fun d => I d ∧ d.findFb id = some p) l I' l' (f (some p))) :
    Ends I l I' l' (framebufferLookup id >>= f) := by
  intro s hs
  rcases framebufferLookup_cases (s := s) id with h | ⟨h,-⟩
  · rw [Exec.bind_ok h]
    cases hp : s.dev.findFb id with
    | none => exact hnone s hs
    | some p => exact hsome p s ⟨hs.1,hs.2,hp⟩
  · rw [Exec.bind_error h]
    trivial

theorem crtcFind_ends (hnone : Ends I l I' l' (f none))
    (hsome : ∀ c, Ends (fun d => I d ∧ c ∈ d.crtcs) l I' l' (f (some c))) :
    Ends I l I' l' (crtcFind id >>= f) := by
  intro s hs
  rw [Exec.bind_ok crtcFind_ok]
  cases hc : s.dev.findCrtc id with
  | none => exact hnone s hs
  | some c =>
    refine hsome c s ⟨hs.1,hs.2,?_⟩
    rw [Device.findCrtc] at hc
    split_ifs at hc
    exact List.mem_of_find?_eq_some hc

theorem setDevice_ends {J : Device → Prop} {g : Device → Device} (hg : ∀ d, I d → J (g d)) :
    Ends I l (fun _ => J) l (setDevice g) :=
  Triple.modify fun _ hs => ⟨hs.1,hg _ hs.2⟩

theorem leave_ends {J : Device → Prop} {r : Reply} (hI : ∀ d, I d → J d) :
    Ends I [.device] (fun _ => J) [] (do unlock .device; pure r : Command Reply) :=
  (unlock_moves.bind fun _ => Moves.pure).ends.weaken hI fun _ _ h => h

end Rules

theorem modeSetCrtc_ends {m : ModeCrtc} :
    Ends Registered [] (fun _ => Registered) [] (modeSetCrtc m) := by
  have hset : ∀ (c : Nat) (fb : Option Nat),
      Ends (fun d => (Registered d ∧ c ∈ d.crtcs) ∧ ∀ p, fb = some p → p ∈ d.fbs) [.device]
        (fun _ => Registered) [] (if m.fbId ≠ 0 ∧ fb = none then do
          unlock .device
          pure (.error enoent)
        else do
          setDevice fun d => d.setCrtc c ((d.crtc c).configure m fb)
          unlock .device
          pure (if fishixCrtcSetConfig < 0 then .error fishixCrtcSetConfig else .done) : Command Reply) := by
    intro c fb
    refine .ite (fun _ => leave_ends fun d hd => hd.1.1) fun _ => ?_
    refine .bind (setDevice_ends (J := Registered) fun d hd => ?_) fun _ => leave_ends fun _ => id
    exact hd.1.1.setCrtc hd.2 fun p hp => hd.1.1.pending c hd.1.2 p hp
  refine (lock_moves not_mem_nil).ends.bind fun _ => crtcFind_ends (leave_ends fun _ => id) fun c => ?_
  refine .ite (fun _ => ?_) fun _ => framebufferLookup_ends ?_ fun p => ?_
  · exact (hset c none).weaken (fun d hd => ⟨hd,fun p hp => by cases hp⟩) fun _ _ h => h
  · exact (hset c none).weaken (fun d hd => ⟨hd,fun p hp => by cases hp⟩) fun _ _ h => h
  · refine (hset c (some p)).weaken (fun d hd => ⟨hd.1,fun p' hp => ?_⟩) fun _ _ h => h
    cases hp
    exact findFb_mem hd.2

section Flip

variable [Console]

theorem fishixPageFlip_ends {c : Nat} {K : Int → Device → Prop} (hI : ∀ d, I d → K einval d) :
    Ends I [.device] K [.device] (fishixPageFlip c p) := by
  refine readFramebuffer_moves.ends.bind fun fb => ?_
  cases fb.obj 0 with
  | none => exact .pure hI
  | some o =>
    refine printf_moves.ends.bind fun _ => readGem_moves.ends.bind fun _ =>
      .bind (setDevice_ends (J := fun _ => True) fun _ _ => trivial) fun _ => ?_
    intro s hs
    rw [Exec.bind_error (flipComplete_deadlocks (by simp [hs.1]))]
    trivial

theorem modePageFlip_ends {flip : PageFlip} :
    Ends Registered [] (fun _ => Registered) [] (modePageFlip flip) := by
  refine (lock_moves not_mem_nil).ends.bind fun _ => crtcFind_ends (leave_ends fun _ => id) fun c => ?_
  refine device_moves.ends.bind fun dev => .ite (fun _ => leave_ends fun d hd => hd.1) fun _ => ?_
  refine framebufferLookup_ends (leave_ends fun d hd => hd.1) fun p => ?_
  refine .bind (setDevice_ends (J := fun d => Registered d ∧ c ∈ d.crtcs) ?_) fun _ =>
    .bind (fishixPageFlip_ends (K := fun _ d => Registered d ∧ c ∈ d.crtcs) fun _ => id) fun ret =>
      .ite (fun _ => ?_) fun _ => leave_ends fun d hd => hd.1
  · intro d hd
    refine ⟨hd.1.1.setCrtc (fun q hq => hd.1.1.shown c hd.1.2 q hq) ?_,hd.1.2⟩
    intro q hq
    cases hq
    exact findFb_mem hd.2
  · refine .bind (setDevice_ends (J := Registered) ?_) fun _ => leave_ends fun _ => id
    intro d hd
    refine hd.1.setCrtc (fun q hq => hd.1.shown c hd.2 q hq) ?_
    intro q hq
    cases hq

end Flip

end Crtcs

section Framebuffers

theorem Registered.remove (h : Registered d) (hunused : d.Unused p) :
    Registered ({ d with fbs := d.fbs.erase p }.setFramebuffer p none) := by
  have hmem : ∀ q, q ∈ d.fbs.erase p ↔ q ≠ p ∧ q ∈ d.fbs := fun q => h.nodup.mem_erase_iff
  refine ⟨h.nodup.erase p,fun q => ?_,?_,?_⟩
  · simp only [Device.setFramebuffer,hmem,Function.update_apply]
    split_ifs with heq
    · simp [heq]
    · simp [heq,h.live q]
  · intro c hc q hq
    refine (hmem q).mpr ⟨?_,h.shown c hc q hq⟩
    rintro rfl
    exact (hunused c hc).1 hq
  · intro c hc q hq
    refine (hmem q).mpr ⟨?_,h.pending c hc q hq⟩
    rintro rfl
    exact (hunused c hc).2 hq

theorem Registered.forgotten_of_registry :
    OfRegistry fun d => Registered (d.setFramebuffer p none) := by
  intro d d' h hd
  refine Registered.of_same (d := d.setFramebuffer p none) ⟨?_,h.fbs,h.crtc,h.crtcs⟩ hd
  simp only [Device.setFramebuffer,h.framebuffers]

theorem framebufferDestroy_ends [Console] : Ends (fun d => Registered (d.setFramebuffer p none)) []
    (fun _ => Registered) [] (framebufferDestroy p) :=
  readFramebuffer_moves.ends.bind fun fb =>
    (destroyAll_moves Registered.forgotten_of_registry fb.planes).ends.bind fun _ =>
      setDevice_ends fun _ h => h

theorem modeRmfb_ends [Console] :
    Ends (fun d => Registered d ∧ ∀ p, d.findFb id = some p → d.Unused p) [] (fun _ => Registered) []
      (modeRmfb id) := by
  refine .ite (fun _ => .pure fun d hd => hd.1) fun _ => ?_
  refine (lock_moves not_mem_nil).ends.bind fun _ =>
    framebufferLookup_ends (leave_ends fun d hd => hd.1) fun p => ?_
  refine .bind (setDevice_ends (J := fun d => Registered (d.setFramebuffer p none)) ?_) fun _ =>
    unlock_moves.ends.bind fun _ => framebufferDestroy_ends.bind fun _ => .pure fun _ h => h
  exact fun d hd => hd.1.1.remove (hd.1.2 p hd.2)

structure Creating (d : Device) (file p : Nat) (d' : Device) : Prop where
  fbs : d'.fbs = d.fbs ++ [p]
  live : (d'.framebuffers p).isSome
  others : ∀ q, q ≠ p → d'.framebuffers q = d.framebuffers q
  crtc : d'.crtc = d.crtc
  crtcs : d'.crtcs = d.crtcs
  resolve : ∀ handle, d'.resolve file handle = d.resolve file handle

theorem Creating.registered (h : Creating d file p d') (hd : Registered d)
    (hfresh : d.framebuffers p = none) : Registered d' := by
  have hnew : p ∉ d.fbs := by
    rw [hd.live,hfresh]
    exact Bool.false_ne_true
  refine ⟨?_,fun q => ?_,?_,?_⟩
  · rw [h.fbs]
    exact List.nodup_append.mpr ⟨hd.nodup,List.nodup_singleton p,fun a ha b hb => by
      rintro rfl
      exact hnew (List.mem_singleton.mp hb ▸ ha)⟩
  · rw [h.fbs,List.mem_append,List.mem_singleton]
    by_cases heq : q = p
    · rw [heq]
      exact iff_of_true (.inr rfl) h.live
    · rw [h.others q heq,← hd.live]
      exact or_iff_left heq
  · intro c hc q hq
    rw [h.crtcs] at hc
    rw [h.crtc] at hq
    rw [h.fbs]
    exact List.mem_append_left _ (hd.shown c hc q hq)
  · intro c hc q hq
    rw [h.crtcs] at hc
    rw [h.crtc] at hq
    rw [h.fbs]
    exact List.mem_append_left _ (hd.pending c hc q hq)

theorem Creating.set (h : Creating d file p d') (fb : Framebuffer) :
    Creating d file p (d'.setFramebuffer p (some fb)) := by
  refine ⟨h.fbs,by simp [Device.setFramebuffer],?_,h.crtc,h.crtcs,h.resolve⟩
  intro q hq
  exact (Function.update_of_ne hq _ _).trans (h.others q hq)

theorem Creating.taken {o : Nat} {g : GemObject} (h : Creating d file p d') (hg : d'.gems o = some g) :
    Creating d file p (d'.setGem o (some g.taken)) :=
  ⟨h.fbs,h.live,h.others,h.crtc,h.crtcs,fun handle => (resolve_setGem g.taken hg rfl).trans (h.resolve handle)⟩

theorem gemObjectLookup_ends {handle : Nat} {f : Option Nat → Command β} {I' : β → Device → Prop}
    (hfound : d.resolve file handle ≠ none)
    (hf : ∀ o, Ends (Creating d file p) [] I' [] (f (some o))) :
    Ends (Creating d file p) [] I' [] (gemObjectLookup file handle >>= f) := by
  intro s hs
  have hresolve := hs.2.resolve handle
  rcases gemObjectLookup_cases file handle hs.1 with ⟨⟨s',h⟩,-⟩ | ⟨-,hnone⟩ |
    ⟨o,g,-,hg,h⟩
  · rw [Exec.bind_error h]
    trivial
  · exact absurd (hresolve.symm.trans hnone) hfound
  · rw [Exec.bind_ok h]
    exact hf o _ ⟨rfl,hs.2.taken hg⟩

theorem attachObjects_ends (hfound : ∀ i, cmd.handles i ≠ 0 → d.resolve file (cmd.handles i) ≠ none)
    (is : List (Fin 4)) : Ends (Creating d file p) [] (fun attached d' => attached = true ∧
      Creating d file p d') [] (attachObjects file p cmd is) := by
  induction is with
  | nil => exact .pure fun d' hd' => ⟨rfl,hd'⟩
  | cons i is ih =>
    refine .ite (fun _ => ih) fun hne => gemObjectLookup_ends (hfound i hne) fun o => ?_
    exact readFramebuffer_moves.ends.bind fun fb => .bind (setDevice_ends fun d' hd' => hd'.set _)
      fun _ => ih

theorem framebufferCreate_ends (file : Nat) : Ends (fun d' => d' = d) [] (fun created d' => created = some p ∧
    Creating d file p d') [] (framebufferCreate (some p)) := by
  refine .bind (setDevice_ends (J := Creating d file p) ?_) fun _ => .pure fun d' hd' => ⟨rfl,hd'⟩
  rintro d' rfl
  refine ⟨rfl,by simp [Device.setFramebuffer],?_,rfl,rfl,fun _ => rfl⟩
  exact fun q hq => Function.update_of_ne hq _ _

theorem modeAddfb2_ends [Console] (hd : Registered d) (hattaches : cmd.Attaches d file alloc)
    (hfresh : ∀ p, alloc = some p → d.framebuffers p = none) :
    Ends (fun d' => d' = d) [] (fun r d' => Registered d' ∧ ∀ e, r = .error e → d' = d) []
      (modeAddfb2 file alloc cmd) := by
  have hsame : ∀ e : Int, Ends (fun d' => d' = d) [] (fun r d' => Registered d' ∧ ∀ e, r = .error e → d' = d)
      [] (pure (.error e) : Command Reply) := by
    refine fun e => .pure ?_
    rintro d' rfl
    exact ⟨hd,fun _ _ => rfl⟩
  refine .ite (fun _ => hsame _) fun hsize => .ite (fun _ => hsame _) fun hfirst => ?_
  cases alloc with
  | none => exact fun s hs => hsame enomem s hs
  | some p =>
    rw [not_or] at hsize
    have hfound : ∀ i, cmd.handles i ≠ 0 → d.resolve file (cmd.handles i) ≠ none := by
      rcases hattaches with h | h | h | h | h
      · exact absurd h hsize.1
      · exact absurd h hsize.2
      · exact absurd h hfirst
      · cases h
      · exact h
    refine (framebufferCreate_ends file).bind fun created => ?_
    cases created with
    | none =>
      intro s hs
      cases hs.2.1
    | some q =>
      rcases eq_or_ne q p with rfl | hne
      · refine readFramebuffer_moves.ends.bind fun fb => .bind (setDevice_ends (J := Creating d file q) ?_)
          fun _ => (attachObjects_ends hfound (List.finRange 4)).bind fun attached =>
            .ite (fun _ => .ite (fun h => ?_) fun _ => ?_) fun h => ?_
        · exact fun d' hd' => hd'.2.set _
        · exact absurd h (by decide)
        · refine readFramebuffer_moves.ends.bind fun fb => .pure fun d' hd' => ?_
          exact ⟨hd'.2.registered hd (hfresh q rfl),fun e he => by cases he⟩
        · intro s hs
          exact absurd hs.2.1 h
      · intro s hs
        exact absurd (Option.some.inj hs.2.1) hne

end Framebuffers

section Runs

theorem nonNull_ends {γ : Type} {arg : Option γ} {k : γ → Command Reply} {I' : Reply → Device → Prop}
    (hnone : Ends I [] I' [] (pure (.error einval))) (hk : ∀ a, arg = some a → Ends I [] I' [] (k a)) :
    Ends I [] I' [] (nonNull arg k) := by
  cases arg with
  | none => exact hnone
  | some a => exact hk a rfl

theorem serve_ends [Console] {request : Request} (hd : Registered d)
    (hop : (Op.ioctl file request).Registers d) (hfresh : (Op.ioctl file request).fresh d) :
    Ends (fun d' => d' = d) [] (fun r d' => Registered d' ∧
      ∀ alloc arg e, request = .addFb2 alloc arg → r = .error e → d' = d) [] (request.serve file) := by
  have hkeep : ∀ {x : Command Reply}, (∀ alloc arg, request ≠ .addFb2 alloc arg) →
      Ends Registered [] (fun _ => Registered) [] x →
      Ends (fun d' => d' = d) [] (fun r d' => Registered d' ∧
        ∀ alloc arg e, request = .addFb2 alloc arg → r = .error e → d' = d) [] x := by
    intro x hne h
    refine h.weaken ?_ fun r d' hd' => ⟨hd',fun alloc arg _ heq => absurd heq (hne alloc arg)⟩
    rintro d' rfl
    exact hd
  cases request with
  | setCrtc arg =>
    exact hkeep (by simp) (nonNull_ends (.pure fun _ h => h) fun _ _ => modeSetCrtc_ends)
  | pageFlip arg =>
    exact hkeep (by simp) (nonNull_ends (.pure fun _ h => h) fun _ _ => modePageFlip_ends)
  | rmFb arg =>
    cases arg with
    | none =>
      intro s hs
      exact True.intro
    | some id =>
      refine modeRmfb_ends.weaken ?_ fun r d' hd' => ⟨hd',fun alloc arg _ heq => by cases heq⟩
      rintro d' rfl
      exact ⟨hd,hop⟩
  | addFb2 alloc arg =>
    cases arg with
    | none =>
      refine .pure ?_
      rintro d' rfl
      exact ⟨hd,fun _ _ _ _ _ => rfl⟩
    | some cmd =>
      refine (modeAddfb2_ends hd hop ?_).weaken (fun _ h => h) fun r d' hd' =>
        ⟨hd'.1,fun _ _ e _ he => hd'.2 e he⟩
      rintro p rfl
      exact Option.isNone_iff_eq_none.mp hfresh
  | _ =>
    refine hkeep (by simp) (Moves.ends ?_)
    exact serve_moves Registered.of_registry trivial

theorem op_ends [Console] {op : Op} (hd : Registered d) (hop : op.Registers d) (hfresh : op.fresh d) :
    Ends (fun d' => d' = d) [] (fun r d' => Registered d' ∧
      ∀ file alloc arg e, op = .ioctl file (.addFb2 alloc arg) → r = .error e → d' = d) [] op.run := by
  cases op with
  | «open» alloc =>
    refine (drmOpen_moves Registered.of_registry).ends.weaken ?_ fun r d' hd' =>
      ⟨hd',fun _ _ _ _ heq => by cases heq⟩
    rintro d' rfl
    exact hd
  | close file =>
    refine (drmClose_moves Registered.of_registry).ends.weaken ?_ fun r d' hd' =>
      ⟨hd',fun _ _ _ _ heq => by cases heq⟩
    rintro d' rfl
    exact hd
  | ioctl file request =>
    refine device_moves.ends.bind fun dev => ?_
    cases dev.file file with
    | none =>
      refine .pure ?_
      rintro d' rfl
      exact ⟨hd,fun _ _ _ _ _ _ => rfl⟩
    | some f =>
      refine (serve_ends hd hop hfresh).weaken (fun _ h => h) fun r d' hd' =>
        ⟨hd'.1,fun _ alloc arg e heq he => ?_⟩
      cases heq
      exact hd'.2 alloc arg e rfl he

inductive Registering [Console] : State → State → Prop
  | op {s s' : State} {r : Reply} (o : Op) : o.fresh s.dev → o.Registers s.dev →
      o.run s = .ok (r,s') → Registering s s'

theorem registry_run [Console] {connector : Connector} {mode : Mode} {hw : Hardware}
    (hr : Relation.ReflTransGen Registering (boot connector mode hw) s) :
    Registered s.dev ∧ ∀ file alloc arg e s',
      (Op.ioctl file (.addFb2 alloc arg)).fresh s.dev →
      (Op.ioctl file (.addFb2 alloc arg)).Registers s.dev →
      (Op.ioctl file (.addFb2 alloc arg)).run s = .ok (.error e,s') → s'.dev = s.dev := by
  have hinv : s.held = [] ∧ Registered s.dev := by
    induction hr with
    | refl => exact ⟨rfl,.boot connector mode hw⟩
    | tail _ hstep ih =>
      cases hstep with
      | op o hfresh hop hrun =>
        have hout := op_ends ih.2 hop hfresh _ ⟨ih.1,rfl⟩
        rw [hrun] at hout
        exact ⟨hout.1,hout.2.1⟩
  refine ⟨hinv.2,fun file alloc arg e s' hfresh hop hrun => ?_⟩
  have hout := op_ends hinv.2 hop hfresh s ⟨hinv.1,rfl⟩
  rw [hrun] at hout
  exact hout.2.2 file alloc arg e rfl rfl

def missingCmd : FbCmd2 := ⟨1,1,0,fun i => if i = 0 then 5 else 0,fun _ => 0,fun _ => 0,fun _ => 0⟩

def failedOps : List Op := [.open (some 0),.ioctl 0 (.addFb2 (some 0) (some missingCmd))]

def danglingEntry (s : State) : Bool := 0 ∈ s.dev.fbs ∧ (s.dev.framebuffers 0).isNone

section Full

attribute [local instance] fullConsole

def bufferOps : List Op := [.open (some 0),.ioctl 0 (.createDumb (some 0) (some ⟨1,1,32⟩))]

def shownOp : Op := .ioctl 0 (.addFb2 (some 0) (some shownCmd))

def flatOp : Op := .ioctl 0 (.addFb2 (some 1) (some { shownCmd with width := 0 }))

def refuses (s : State) : Bool := match flatOp.run s with
  | .ok r => r.1 = .error einval
  | .error _ => false

def shows (s : State) : Bool := match shownOp.run s with
  | .ok r => 0 ∈ r.2.dev.fbs ∧ flatOp.fresh r.2.dev ∧ refuses r.2
  | .error _ => false

theorem runAll_registering {ops : List Op} (hops : ∀ op ∈ ops, ∀ d, op.Registers d)
    (hrun : runAll ops s = some s') : Relation.ReflTransGen Registering s s' := by
  induction ops generalizing s with
  | nil =>
    cases hrun
    exact .refl
  | cons op ops ih =>
    rw [runAll] at hrun
    split_ifs at hrun with hfresh
    cases hs : op.run s with
    | error e => simp [hs] at hrun
    | ok r =>
      rw [hs] at hrun
      exact .head (.op op hfresh (hops op List.mem_cons_self s.dev) hs)
        (ih (fun op' hop' => hops op' (List.mem_cons_of_mem op hop')) hrun)

theorem registry_run_booted : ∃ s s', Relation.ReflTransGen Registering booted s ∧ 0 ∈ s.dev.fbs ∧
    Registered s.dev ∧ flatOp.run s = .ok (.error einval,s') ∧ s'.dev = s.dev := by
  obtain ⟨s,hs,hcheck⟩ := (Option.any_eq_true _ _).mp (show (runAll bufferOps booted).any (fun s =>
    shownOp.fresh s.dev ∧ s.dev.resolve 0 1 ≠ none ∧ shows s) = true by decide +kernel)
  obtain ⟨hfresh,hresolve,hshows⟩ := of_decide_eq_true hcheck
  have hbuffer : Relation.ReflTransGen Registering booted s := by
    refine runAll_registering (fun op hop d => ?_) hs
    rcases List.mem_cons.mp hop with rfl | hop
    · trivial
    · cases List.mem_singleton.mp hop
      trivial
  have hattaches : shownOp.Registers s.dev := by
    refine .inr (.inr (.inr (.inr fun i hi => ?_)))
    have hzero : i = 0 := by
      by_contra hne
      exact hi (if_neg hne)
    cases hzero
    exact hresolve
  cases hshown : shownOp.run s with
  | error e => simp [shows,hshown] at hshows
  | ok r =>
    simp only [shows,hshown,decide_eq_true_eq] at hshows
    obtain ⟨hmem,hflat,hrefuses⟩ := hshows
    have hruns := hbuffer.tail (.op shownOp hfresh hattaches hshown)
    obtain ⟨hregistered,hsame⟩ := registry_run hruns
    cases hrun : flatOp.run r.2 with
    | error e => simp [refuses,hrun] at hrefuses
    | ok r' =>
      have hreply : r'.1 = .error einval := by simpa [refuses,hrun] using hrefuses
      have hok : flatOp.run r.2 = .ok (.error einval,r'.2) := by
        rw [hrun,← hreply]
      exact ⟨r.2,r'.2,hruns,hmem,hregistered,hok,hsame 0 _ _ _ _ hflat (.inl rfl) hok⟩

end Full

section Kernel

attribute [local instance] kernelConsole

theorem failed_dangles : (runAll failedOps booted).any danglingEntry := by decide +kernel

end Kernel

section Removed

attribute [local instance] fullConsole

def removedOps : List Op :=
  shownOps ++ [.ioctl 0 (.setCrtc (some ⟨1,1,true,[],0,0⟩)),.ioctl 0 (.rmFb (some 1))]

def danglingCrtc (s : State) : Bool := 0 ∈ s.dev.crtcs ∧ (s.dev.crtc 0).fb = some 0 ∧ 0 ∉ s.dev.fbs

theorem removed_dangles : (runAll removedOps booted).any danglingCrtc := by decide +kernel

end Removed

theorem registry_dangles :
    (∃ s, @Reachable kernelConsole s ∧ ∃ p ∈ s.dev.fbs, s.dev.framebuffers p = none) ∧
    ∃ s, @Reachable fullConsole s ∧ ∃ c ∈ s.dev.crtcs, ∃ p, (s.dev.crtc c).fb = some p ∧
      p ∉ s.dev.fbs := by
  constructor
  · obtain ⟨s,hs,hdead⟩ := (Option.any_eq_true _ _).mp failed_dangles
    simp only [danglingEntry,decide_eq_true_eq,Option.isNone_iff_eq_none] at hdead
    exact ⟨s,@Reachable.runAll kernelConsole _ _ _ (@booted_reachable kernelConsole) hs,0,hdead⟩
  · obtain ⟨s,hs,hdead⟩ := (Option.any_eq_true _ _).mp removed_dangles
    simp only [danglingCrtc,decide_eq_true_eq] at hdead
    exact ⟨s,@Reachable.runAll fullConsole _ _ _ (@booted_reachable fullConsole) hs,0,hdead.1,0,hdead.2⟩

end Runs

end SabaOS.Drm
