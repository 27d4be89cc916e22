import SabaOS.Drm.Fops

namespace SabaOS.Drm

open SabaOS.Lib SabaOS.Klib

section Memory

def GemObject.Apart (g g' : GemObject) : Prop := g.paddr + g.size ≤ g'.paddr ∨ g'.paddr + g'.size ≤ g.paddr

structure Device.Laid (d : Device) : Prop where
  inside : ∀ o g, d.gems o = some g → ∃ pool, d.hw.pool = some pool ∧ pool.base ≤ g.paddr ∧
    g.paddr + g.size ≤ pool.base + pool.used
  apart : ∀ o o' g g', o ≠ o' → d.gems o = some g → d.gems o' = some g' → g.Apart g'

variable {d d' : Device} {s : State} {o size phys : Nat} {g g' : GemObject} {pool pool' : Pool}

theorem Device.Laid.kept (h : d.Laid) (hpool : d'.hw.pool = d.hw.pool)
    (hg : ∀ o g', d'.gems o = some g' →
      ∃ g, d.gems o = some g ∧ g'.paddr = g.paddr ∧ g'.size = g.size) : d'.Laid := by
  refine ⟨fun o g' hg' => ?_,fun o o' g₁ g₂ hne h₁ h₂ => ?_⟩
  · obtain ⟨g,hold,hp,hs⟩ := hg o g' hg'
    rw [hpool,hp,hs]
    exact h.inside o g hold
  · obtain ⟨k₁,hold₁,hp₁,hs₁⟩ := hg o g₁ h₁
    obtain ⟨k₂,hold₂,hp₂,hs₂⟩ := hg o' g₂ h₂
    rw [GemObject.Apart,hp₁,hs₁,hp₂,hs₂]
    exact h.apart o o' k₁ k₂ hne hold₁ hold₂

theorem Device.Laid.congr (hpool : d'.hw.pool = d.hw.pool) (hg : d'.gems = d.gems) (h : d.Laid) :
    d'.Laid :=
  h.kept hpool fun _ g' hg' => ⟨g',hg ▸ hg',rfl,rfl⟩

theorem Device.Laid.setGem (hpool : d'.hw.pool = d.hw.pool)
    (hg' : d'.gems = Function.update d.gems o (some g')) (hg : d.gems o = some g)
    (hp : g'.paddr = g.paddr) (hs : g'.size = g.size) (h : d.Laid) : d'.Laid := by
  refine h.kept hpool fun o' k hk => ?_
  simp only [hg',Function.update_apply] at hk
  split_ifs at hk with heq
  · cases hk
    exact ⟨g,heq ▸ hg,hp,hs⟩
  · exact ⟨k,hk,rfl,rfl⟩

theorem Device.Laid.drop (h : d.Laid) : (d.setGem o none).Laid := by
  refine h.kept rfl fun o' k hk => ?_
  simp only [Device.setGem,Function.update_apply] at hk
  split_ifs at hk
  exact ⟨k,hk,rfl,rfl⟩

theorem alignPage_lt (size : Nat) : alignPage size < u32Bound := Nat.mod_lt _ (by decide)

theorem alignedSize_eq (hsize : size < u32Bound) : alignedSize size = (size + 4095) / 4096 * 4096 := by
  rw [u32Bound] at hsize
  rw [alignedSize,uadd_of_lt (by omega)]

theorem le_alignedSize (hsize : size < u32Bound) : size ≤ alignedSize size := by
  rw [alignedSize_eq hsize]
  omega

theorem Pool.allocCoherent_spec (h : pool.allocCoherent size = some (pool',phys)) (hsize : size < u32Bound) :
    phys = pool.base + pool.used ∧ pool'.base = pool.base ∧
      pool'.used = pool.used + alignedSize size := by
  rw [Pool.allocCoherent] at h
  split_ifs at h with hfull
  cases h
  have hwithin := pool.within
  have haligned := alignedSize_eq hsize
  refine ⟨rfl,rfl,uadd_of_lt ?_⟩
  rw [coherentSize] at hwithin
  rw [u32Bound] at hsize
  omega

def Device.made (d : Device) (o : Nat) (pool : Pool) (phys size : Nat) : Device :=
  { d with hw := d.hw.take pool phys size }.setGem o (some ⟨0,0,size,phys,1⟩)

theorem Device.Laid.made (hpool : d.hw.pool = some pool)
    (halloc : pool.allocCoherent size = some (pool',phys)) (hsize : size < u32Bound) (h : d.Laid) :
    (d.made o pool' phys size).Laid := by
  obtain ⟨rfl,hbase,hused⟩ := Pool.allocCoherent_spec halloc hsize
  have hlarge := le_alignedSize hsize
  have hcases : ∀ o' g', (d.made o pool' (pool.base + pool.used) size).gems o' = some g' →
      o' = o ∧ g'.paddr = pool.base + pool.used ∧ g'.size = size ∨ o' ≠ o ∧ d.gems o' = some g' := by
    intro o' g' hg'
    simp only [Device.made,Device.setGem,Function.update_apply] at hg'
    split_ifs at hg' with heq
    · cases hg'
      exact .inl ⟨heq,rfl,rfl⟩
    · exact .inr ⟨heq,hg'⟩
  have hold : ∀ o' g', d.gems o' = some g' → pool.base ≤ g'.paddr ∧
      g'.paddr + g'.size ≤ pool.base + pool.used := by
    intro o' g' hg'
    obtain ⟨p,hp,hinside⟩ := h.inside o' g' hg'
    cases hpool.symm.trans hp
    exact hinside
  refine ⟨fun o' g' hg' => ⟨pool',rfl,?_⟩,fun o₁ o₂ g₁ g₂ hne h₁ h₂ => ?_⟩
  · rw [hbase,hused]
    rcases hcases o' g' hg' with ⟨-,hp,hs⟩ | ⟨-,hg'⟩
    · omega
    · have := hold o' g' hg'
      omega
  · rcases hcases o₁ g₁ h₁ with ⟨rfl,hp₁,hs₁⟩ | ⟨hne₁,h₁⟩
    · rcases hcases o₂ g₂ h₂ with ⟨rfl,-⟩ | ⟨-,h₂⟩
      · exact absurd rfl hne
      · refine .inr ?_
        rw [hp₁]
        exact (hold o₂ g₂ h₂).2
    · rcases hcases o₂ g₂ h₂ with ⟨-,hp₂,-⟩ | ⟨-,h₂⟩
      · refine .inl ?_
        rw [hp₂]
        exact (hold o₁ g₁ h₁).2
      · exact h.apart o₁ o₂ g₁ g₂ hne h₁ h₂

variable [Console]

theorem printf_cases (format : String) (s : State) : Console.returns format = true ∧
    printf format s = .ok ((),s) ∨
    Console.returns format = false ∧ printf format s = .error (.spins,s) := by
  rw [printf]
  cases Console.returns format with
  | true => exact .inl ⟨rfl,rfl⟩
  | false => exact .inr ⟨rfl,rfl⟩

theorem printf_ok {format : String} (h : Console.returns format = true) : printf format s = .ok ((),s) :=
  if_pos h

theorem gemObjectCreate_cases (alloc : Option Nat) (size : Nat) (s : State) :
    gemObjectCreate alloc size s = .ok (none,s) ∧
      (size = 0 ∨ alloc = none ∨ s.dev.hw.pool = none) ∨
    size ≠ 0 ∧ ∃ o pool, alloc = some o ∧ s.dev.hw.pool = some pool ∧
      (pool.allocCoherent (alignPage size) = none ∧
        gemObjectCreate alloc size s = (do printf outOfMemoryFormat; pure none : Command (Option Nat)) s ∨
      ∃ pool' phys, pool.allocCoherent (alignPage size) = some (pool',phys) ∧
        gemObjectCreate alloc size s = (do printf createdFormat; pure (some o) : Command (Option Nat))
          ⟨s.dev.made o pool' phys (alignPage size),s.held⟩) := by
  rw [gemObjectCreate.eq_def]
  split_ifs with hsize
  · exact .inl ⟨rfl,.inl hsize⟩
  · cases alloc with
    | none => exact .inl ⟨rfl,.inr (.inl rfl)⟩
    | some o =>
      cases hpool : s.dev.hw.pool with
      | none =>
        refine .inl ⟨?_,.inr (.inr rfl)⟩
        have hnone : allocCoherent (alignPage size) s = .ok (none,s) := by
          rw [allocCoherent,Exec.bind_ok (show device s = .ok (s.dev,s) from rfl),hpool]
          rfl
        exact Exec.bind_ok hnone
      | some pool =>
        refine .inr ⟨hsize,o,pool,rfl,rfl,?_⟩
        cases halloc : pool.allocCoherent (alignPage size) with
        | none =>
          refine .inl ⟨rfl,?_⟩
          have hfull : allocCoherent (alignPage size) s =
              (do printf outOfMemoryFormat; pure none : Command (Option Nat)) s := by
            rw [allocCoherent,Exec.bind_ok (show device s = .ok (s.dev,s) from rfl),hpool]
            simp only [halloc]
          rcases printf_cases outOfMemoryFormat s with ⟨-,hok⟩ | ⟨-,hspins⟩
          · rw [Exec.bind_ok hok] at hfull ⊢
            exact Exec.bind_ok hfull
          · rw [Exec.bind_error hspins] at hfull ⊢
            exact Exec.bind_error hfull
        | some r =>
          refine .inr ⟨r.1,r.2,rfl,?_⟩
          have htaken : allocCoherent (alignPage size) s = .ok (some r.2,
              ⟨{ s.dev with hw := s.dev.hw.take r.1 r.2 (alignPage size) },s.held⟩) := by
            rw [allocCoherent,Exec.bind_ok (show device s = .ok (s.dev,s) from rfl),hpool]
            simp only [halloc]
            rfl
          exact (Exec.bind_ok htaken).trans rfl

end Memory

section Moves

structure Device.SameRegistry (d d' : Device) : Prop where
  framebuffers : d'.framebuffers = d.framebuffers
  fbs : d'.fbs = d.fbs
  crtc : d'.crtc = d.crtc
  crtcs : d'.crtcs = d.crtcs

structure Device.Quietly (d d' : Device) : Prop extends d.SameRegistry d' where
  laid : d.Laid → d'.Laid

def OfRegistry (I : Device → Prop) : Prop := ∀ d d', d.Quietly d' → I d → I d'

def OfMemory (I : Device → Prop) : Prop := ∀ d d' : Device, (d.Laid → d'.Laid) → I d → I d'

theorem OfMemory.of_registry {I : Device → Prop} (hI : OfMemory I) : OfRegistry I :=
  fun d d' h => hI d d' h.laid

theorem of_memory_true : OfMemory fun _ => True := fun _ _ _ _ => trivial

theorem of_memory_laid : OfMemory Device.Laid := fun _ _ h => h

theorem Device.Quietly.of_eq {d d' : Device} (h : d.SameRegistry d') (hpool : d'.hw.pool = d.hw.pool)
    (hg : d'.gems = d.gems) : d.Quietly d' :=
  ⟨h,Device.Laid.congr hpool hg⟩

def Moves {α : Type} (I : Device → Prop) (l l' : List Lock) (x : Command α) : Prop :=
  Triple (fun s => s.held = l ∧ I s.dev) x (fun _ s => s.held = l' ∧ I s.dev) (·.1 ≠ .deadlock)

variable {α β : Type} {I : Device → Prop} {l l' l'' : List Lock} {k : Lock} {x y : Command α}
variable {f : α → Command β} {g : Device → Device}

theorem Moves.pure {a : α} : Moves I l l (pure a) := Triple.pure fun _ h => h

theorem Moves.bind (hx : Moves I l l' x) (hf : ∀ a, Moves I l' l'' (f a)) :
    Moves I l l'' (x >>= f) :=
  Triple.bind hx hf

theorem Moves.ite {c : Prop} [Decidable c] (ht : Moves I l l' x) (hf : Moves I l l' y) :
    Moves I l l' (if c then x else y) :=
  Triple.ite (fun _ => ht) fun _ => hf

theorem lock_moves (hk : k ∉ l) : Moves I l (k :: l) (lock k) := by
  rintro s ⟨rfl,hI⟩
  rw [lock,if_neg hk]
  exact ⟨rfl,hI⟩

theorem unlock_moves : Moves I (k :: l) l (unlock k) :=
  Triple.modify fun s hs => ⟨by rw [hs.1,List.erase_cons_head],hs.2⟩

theorem setDevice_moves (hg : ∀ d, I d → I (g d)) : Moves I l l (setDevice g) :=
  Triple.modify fun s hs => ⟨hs.1,hg s.dev hs.2⟩

theorem device_moves : Moves I l l device := fun _ hs => hs

theorem orFault_moves {o : Option α} : Moves I l l (orFault o) := by
  cases o with
  | none => exact fun _ _ => Stop.noConfusion
  | some a => exact Moves.pure

theorem printf_moves [Console] {format : String} : Moves I l l (printf format) := by
  intro s hs
  rcases printf_cases format s with ⟨-,h⟩ | ⟨-,h⟩
  · rw [h]
    exact hs
  · rw [h]
    exact Stop.noConfusion

theorem readGem_moves {o : Nat} : Moves I l l (readGem o) := device_moves.bind fun _ => orFault_moves

theorem readFramebuffer_moves {p : Nat} : Moves I l l (readFramebuffer p) :=
  device_moves.bind fun _ => orFault_moves

theorem readFile_moves {f : Nat} : Moves I l l (readFile f) := device_moves.bind fun _ => orFault_moves

theorem findBy_moves {read : Nat → Command α} {p : α → Bool} (hread : ∀ x, Moves I l l (read x))
    (xs : List Nat) : Moves I l l (findBy read p xs) := by
  induction xs with
  | nil => exact .pure
  | cons x xs ih => exact (hread x).bind fun a => .ite .pure ih

theorem readGem_then {o : Nat} {h : GemObject → Device → Device} {f : GemObject → Command β}
    (hh : ∀ g d, d.gems o = some g → I d → I (h g d)) (hf : ∀ g, Moves I l l' (f g)) :
    Moves I l l' (readGem o >>= fun g => setDevice (h g) >>= fun _ => f g) := by
  intro s hs
  cases hg : s.dev.gems o with
  | none =>
    have hfault : readGem o s = .error (.fault,s) := by
      rw [readGem,Exec.bind_ok (show device s = .ok (s.dev,s) from rfl),hg]
      rfl
    rw [Exec.bind_error hfault]
    exact Stop.noConfusion
  | some g =>
    have hread : readGem o s = .ok (g,s) := by
      rw [readGem,Exec.bind_ok (show device s = .ok (s.dev,s) from rfl),hg]
      rfl
    rw [Exec.bind_ok hread]
    exact (hf g) ⟨h g s.dev,s.held⟩ ⟨hs.1,hh g s.dev hg hs.2⟩

end Moves

section Gem

variable {I : Device → Prop} (hI : OfRegistry I) {file handle name o : Nat} {alloc : Option Nat}

theorem not_mem_nil {k : Lock} : k ∉ ([] : List Lock) := List.not_mem_nil

include hI

theorem quiet {l : List Lock} {g : Device → Device}
    (hg : ∀ d : Device, d.Quietly (g d)) : Moves I l l (setDevice g) :=
  setDevice_moves fun d hd => hI d (g d) (hg d) hd

theorem quiet_gem {β : Type} {l l' : List Lock} {h : GemObject → GemObject} {f : GemObject → Command β}
    (hp : ∀ g, (h g).paddr = g.paddr) (hs : ∀ g, (h g).size = g.size) (hf : ∀ g, Moves I l l' (f g)) :
    Moves I l l' (readGem o >>= fun g => setDevice (fun d => d.setGem o (some (h g))) >>= fun _ => f g) :=
  readGem_then (fun g d hg hd => hI d _ ⟨⟨rfl,rfl,rfl,rfl⟩,.setGem rfl rfl hg (hp g) (hs g)⟩ hd) hf

theorem gemObjectLookup_moves : Moves I [] [] (gemObjectLookup file handle) := by
  refine .ite .pure ((lock_moves not_mem_nil).bind fun _ => readFile_moves.bind fun f =>
    (findBy_moves (fun _ => readGem_moves) f.objects).bind fun found => ?_)
  cases found with
  | none => exact unlock_moves.bind fun _ => .pure
  | some o =>
    exact quiet_gem hI (fun _ => rfl) (fun _ => rfl) fun _ => unlock_moves.bind fun _ => .pure

theorem newHandle_moves {l : List Lock} : Moves I l l newHandle := by
  refine device_moves.bind fun _ => (quiet hI ?_).bind fun _ => .pure
  exact fun _ => .of_eq ⟨rfl,rfl,rfl,rfl⟩ rfl rfl

theorem pushObject_moves {l : List Lock} : Moves I l l (pushObject file o) := by
  refine readFile_moves.bind fun _ => quiet hI ?_
  exact fun _ => .of_eq ⟨rfl,rfl,rfl,rfl⟩ rfl rfl

theorem gemOpen_moves : Moves I [] [] (gemOpen file name) := by
  refine .ite .pure ((lock_moves not_mem_nil).bind fun _ => device_moves.bind fun dev =>
    (findBy_moves (fun _ => readGem_moves) dev.gemObjects).bind fun found => ?_)
  cases found with
  | none => exact unlock_moves.bind fun _ => .pure
  | some o =>
    exact (newHandle_moves hI).bind fun _ => quiet_gem hI (fun _ => rfl) (fun _ => rfl) fun _ =>
        (pushObject_moves hI).bind fun _ => unlock_moves.bind fun _ => .pure

variable [Console]

theorem gemObjectCreate_moves {size : Nat} : Moves I [] [] (gemObjectCreate alloc size) := by
  intro s hs
  rcases gemObjectCreate_cases alloc size s with ⟨h,-⟩ | ⟨-,o,pool,-,hpool,⟨-,h⟩ | ⟨pool',phys,halloc,h⟩⟩
  · rw [h]
    exact hs
  · rw [h]
    exact (printf_moves.bind fun _ => Moves.pure) s hs
  · rw [h]
    refine (printf_moves.bind fun _ => Moves.pure) _ ⟨hs.1,hI s.dev _ ⟨⟨rfl,rfl,rfl,rfl⟩,?_⟩ hs.2⟩
    exact Device.Laid.made hpool halloc (alignPage_lt size)

theorem gemObjectDestroy_moves : Moves I [] [] (gemObjectDestroy o) := by
  refine quiet_gem hI (fun _ => rfl) (fun _ => rfl) fun obj => .ite .pure (printf_moves.bind fun _ =>
    (lock_moves not_mem_nil).bind fun _ => (quiet hI ?_).bind fun _ => unlock_moves.bind fun _ =>
      quiet hI ?_)
  · exact fun _ => .of_eq ⟨rfl,rfl,rfl,rfl⟩ rfl rfl
  · exact fun _ => ⟨⟨rfl,rfl,rfl,rfl⟩,Device.Laid.drop⟩

theorem gemHandleCreate_moves : Moves I [] [] (gemHandleCreate file o) := by
  refine (lock_moves not_mem_nil).bind fun _ => (newHandle_moves hI).bind fun _ =>
    quiet_gem hI (fun _ => rfl) (fun _ => rfl) fun _ =>
      (pushObject_moves hI).bind fun _ => (quiet hI ?_).bind fun _ => unlock_moves.bind fun _ =>
        printf_moves.bind fun _ => .pure
  exact fun _ => .of_eq ⟨rfl,rfl,rfl,rfl⟩ rfl rfl

theorem gemHandleDelete_moves : Moves I [] [] (gemHandleDelete file handle) := by
  refine .ite .pure ((lock_moves not_mem_nil).bind fun _ => readFile_moves.bind fun f =>
    (findBy_moves (fun _ => readGem_moves) f.objects).bind fun found => ?_)
  cases found with
  | none => exact unlock_moves.bind fun _ => .pure
  | some o =>
    refine (quiet hI ?_).bind fun _ => unlock_moves.bind fun _ =>
      (gemObjectDestroy_moves hI).bind fun _ => .pure
    exact fun _ => .of_eq ⟨rfl,rfl,rfl,rfl⟩ rfl rfl

theorem gemFlink_moves : Moves I [] [] (gemFlink file handle) := by
  refine .ite .pure ((gemObjectLookup_moves hI).bind fun found => ?_)
  cases found with
  | none => exact .pure
  | some o =>
    exact (lock_moves not_mem_nil).bind fun _ => device_moves.bind fun _ => readGem_then
      (fun g d hg hd => hI d _ ⟨⟨rfl,rfl,rfl,rfl⟩,.setGem rfl rfl hg rfl rfl⟩ hd) fun _ =>
        unlock_moves.bind fun _ => (gemObjectDestroy_moves hI).bind fun _ => .pure

end Gem

section Framebuffers

variable {I : Device → Prop} {l : List Lock} {file p id : Nat} {alloc : Option Nat}

theorem framebufferLookup_moves : Moves I l l (framebufferLookup id) :=
  .ite .pure (device_moves.bind fun dev => findBy_moves (fun _ => readFramebuffer_moves) dev.fbs)

theorem crtcFind_moves : Moves I l l (crtcFind id) := device_moves.bind fun _ => .pure

theorem modeGetfb_moves : Moves I [] [] (modeGetfb id) := by
  refine (lock_moves not_mem_nil).bind fun _ => framebufferLookup_moves.bind fun found => ?_
  cases found with
  | none => exact unlock_moves.bind fun _ => .pure
  | some p =>
    refine readFramebuffer_moves.bind fun fb => ?_
    cases fb.obj 0 with
    | none => exact Moves.pure.bind fun _ => unlock_moves.bind fun _ => .pure
    | some o => exact readGem_moves.bind fun _ => Moves.pure.bind fun _ => unlock_moves.bind fun _ => .pure

theorem loose (hI : OfMemory I) {g : Device → Device}
    (hg : ∀ d, (g d).hw.pool = d.hw.pool ∧ (g d).gems = d.gems) : Moves I l l (setDevice g) :=
  setDevice_moves fun d hd => hI d (g d) (Device.Laid.congr (hg d).1 (hg d).2) hd

theorem framebufferCreate_moves (hI : OfMemory I) : Moves I [] [] (framebufferCreate alloc) := by
  cases alloc with
  | none => exact .pure
  | some p =>
    refine (loose hI ?_).bind fun _ => Moves.pure
    exact fun _ => ⟨rfl,rfl⟩

theorem attachObjects_moves (hI : OfMemory I) {cmd : FbCmd2} (is : List (Fin 4)) :
    Moves I [] [] (attachObjects file p cmd is) := by
  induction is with
  | nil => exact .pure
  | cons i is ih =>
    refine .ite ih ((gemObjectLookup_moves hI.of_registry).bind fun found => ?_)
    cases found with
    | none => exact .pure
    | some o =>
      refine readFramebuffer_moves.bind fun _ => (loose hI ?_).bind fun _ => ih
      exact fun _ => ⟨rfl,rfl⟩

section Destroy

variable [Console]

theorem destroyAll_moves (hI : OfRegistry I) (os : List Nat) : Moves I [] [] (destroyAll os) := by
  induction os with
  | nil => exact .pure
  | cons o os ih => exact (gemObjectDestroy_moves hI).bind fun _ => ih

theorem framebufferDestroy_moves (hI : OfMemory I) : Moves I [] [] (framebufferDestroy p) := by
  refine readFramebuffer_moves.bind fun fb => (destroyAll_moves hI.of_registry fb.planes).bind fun _ =>
    loose hI ?_
  exact fun _ => ⟨rfl,rfl⟩

theorem modeAddfb2_moves (hI : OfMemory I) {cmd : FbCmd2} :
    Moves I [] [] (modeAddfb2 file alloc cmd) := by
  refine .ite .pure (.ite .pure ((framebufferCreate_moves hI).bind fun created => ?_))
  cases created with
  | none => exact .pure
  | some p =>
    refine readFramebuffer_moves.bind fun fb => (loose hI ?_).bind fun _ =>
      (attachObjects_moves hI (List.finRange 4)).bind fun attached => .ite (.ite ?_ ?_) ?_
    · exact fun _ => ⟨rfl,rfl⟩
    · exact (framebufferDestroy_moves hI).bind fun _ => .pure
    · exact readFramebuffer_moves.bind fun _ => .pure
    · exact (framebufferDestroy_moves hI).bind fun _ => .pure

theorem modeRmfb_moves (hI : OfMemory I) : Moves I [] [] (modeRmfb id) := by
  refine .ite .pure ((lock_moves not_mem_nil).bind fun _ =>
    framebufferLookup_moves.bind fun found => ?_)
  cases found with
  | none => exact unlock_moves.bind fun _ => .pure
  | some p =>
    refine (loose hI ?_).bind fun _ => unlock_moves.bind fun _ =>
      (framebufferDestroy_moves hI).bind fun _ => .pure
    exact fun _ => ⟨rfl,rfl⟩

end Destroy

end Framebuffers

section Handlers

variable {I : Device → Prop} {l : List Lock} {file id : Nat} {alloc : Option Nat}

theorem modeSetCrtc_moves (hI : OfMemory I) {m : ModeCrtc} : Moves I [] [] (modeSetCrtc m) := by
  have hset : ∀ (c : Nat) (fb : Option Nat), Moves I [.device] [] (if m.fbId ≠ 0 ∧ fb = none then do
      unlock .device
      pure (.error enoent)
    else do
      setDevice fun d => d.setCrtc c ((d.crtc c).configure m fb)
      unlock .device
      pure (if fishixCrtcSetConfig < 0 then .error fishixCrtcSetConfig else .done) : Command Reply) := by
    intro c fb
    refine .ite (unlock_moves.bind fun _ => .pure) ?_
    refine (loose hI ?_).bind fun _ => unlock_moves.bind fun _ => .pure
    exact fun _ => ⟨rfl,rfl⟩
  refine (lock_moves not_mem_nil).bind fun _ => crtcFind_moves.bind fun found => ?_
  cases found with
  | none => exact unlock_moves.bind fun _ => .pure
  | some c => exact .ite (Moves.pure.bind fun fb => hset c fb) (framebufferLookup_moves.bind fun fb => hset c fb)

theorem modeGetCrtc_moves : Moves I [] [] (modeGetCrtc id) := by
  refine (lock_moves not_mem_nil).bind fun _ => crtcFind_moves.bind fun found => ?_
  cases found with
  | none => exact unlock_moves.bind fun _ => .pure
  | some c =>
    refine device_moves.bind fun dev => ?_
    dsimp only
    cases (dev.crtc c).fb with
    | none => exact Moves.pure.bind fun _ => unlock_moves.bind fun _ => .pure
    | some p => exact readFramebuffer_moves.bind fun _ => Moves.pure.bind fun _ =>
        unlock_moves.bind fun _ => .pure

theorem readIds_moves (ps : List Nat) : Moves I l l (readIds ps) := by
  induction ps with
  | nil => exact .pure
  | cons p ps ih => exact readFramebuffer_moves.bind fun _ => ih.bind fun _ => .pure

theorem modeGetResources_moves {res : CardRes} : Moves I [] [] (modeGetResources res) := by
  refine (lock_moves not_mem_nil).bind fun _ => device_moves.bind fun dev => ?_
  cases copyIds res.fbs dev.fbs with
  | none => exact Moves.pure.bind fun _ => unlock_moves.bind fun _ => .pure
  | some ps => exact (readIds_moves ps).bind fun _ => Moves.pure.bind fun _ =>
      unlock_moves.bind fun _ => .pure

theorem modeGetConnector_moves {conn : GetConnector} : Moves I [] [] (modeGetConnector conn) := by
  refine (lock_moves not_mem_nil).bind fun _ => device_moves.bind fun dev => ?_
  split
  · exact unlock_moves.bind fun _ => .pure
  · exact unlock_moves.bind fun _ => .pure

theorem modeGetEncoder_moves : Moves I [] [] (modeGetEncoder id) := by
  refine (lock_moves not_mem_nil).bind fun _ => device_moves.bind fun dev => ?_
  split
  · exact unlock_moves.bind fun _ => .pure
  · exact unlock_moves.bind fun _ => .pure

theorem drmOpen_moves (hI : OfRegistry I) : Moves I [] [] (drmOpen alloc) := by
  cases alloc with
  | none => exact .pure
  | some f =>
    refine (quiet hI ?_).bind fun _ => (lock_moves not_mem_nil).bind fun _ =>
      (quiet hI ?_).bind fun _ => unlock_moves.bind fun _ => .pure
    all_goals exact fun _ => .of_eq ⟨rfl,rfl,rfl,rfl⟩ rfl rfl

theorem nonNull_moves {α : Type} {arg : Option α} {k : α → Command Reply}
    (hk : ∀ a, Moves I [] [] (k a)) : Moves I [] [] (nonNull arg k) := by
  cases arg with
  | none => exact .pure
  | some a => exact hk a

section Serve

variable [Console]

theorem modeCreateDumb_moves (hI : OfRegistry I) {dumb : CreateDumb} : Moves I [] [] (modeCreateDumb file alloc dumb) := by
  refine (gemObjectCreate_moves hI).bind fun created => ?_
  cases created with
  | none => exact .pure
  | some o => exact (gemHandleCreate_moves hI).bind fun _ => .pure

theorem modeMapDumb_moves (hI : OfRegistry I) {handle : Nat} : Moves I [] [] (modeMapDumb file handle) := by
  refine (gemObjectLookup_moves hI).bind fun found => ?_
  cases found with
  | none => exact .pure
  | some o => exact (gemObjectDestroy_moves hI).bind fun _ => .pure

theorem drmClose_moves (hI : OfRegistry I) : Moves I [] [] (drmClose file) := by
  refine device_moves.bind fun dev => ?_
  cases dev.file file with
  | none => exact .pure
  | some f =>
    refine (lock_moves not_mem_nil).bind fun _ => (quiet hI ?_).bind fun _ =>
      unlock_moves.bind fun _ => (destroyAll_moves hI f.objects).bind fun _ =>
        (quiet hI ?_).bind fun _ => .pure
    all_goals exact fun _ => .of_eq ⟨rfl,rfl,rfl,rfl⟩ rfl rfl

def Request.Quiet : Request → Prop
  | .setCrtc _ => False
  | .rmFb _ => False
  | .pageFlip _ => False
  | .addFb2 _ _ => False
  | _ => True

theorem serve_moves (hI : OfRegistry I) {request : Request} (hquiet : request.Quiet) :
    Moves I [] [] (request.serve file) := by
  cases request with
  | version arg => exact nonNull_moves fun _ => .pure
  | getCap arg => exact nonNull_moves fun _ => device_moves.bind fun _ => .pure
  | setClientCap => exact .pure
  | gemClose arg => exact nonNull_moves fun _ => (gemHandleDelete_moves hI).bind fun _ => .pure
  | gemFlink arg => exact nonNull_moves fun _ => (gemFlink_moves hI).bind fun _ => .pure
  | gemOpen arg => exact nonNull_moves fun _ => (gemOpen_moves hI).bind fun _ => .pure
  | getResources arg => exact nonNull_moves fun _ => modeGetResources_moves
  | getCrtc arg => exact nonNull_moves fun _ => modeGetCrtc_moves
  | setCrtc arg => exact hquiet.elim
  | getEncoder arg => exact nonNull_moves fun _ => modeGetEncoder_moves
  | getConnector arg => exact nonNull_moves fun _ => modeGetConnector_moves
  | getFb arg => exact nonNull_moves fun _ => modeGetfb_moves
  | rmFb arg => exact hquiet.elim
  | pageFlip arg => exact hquiet.elim
  | createDumb alloc arg => exact nonNull_moves fun _ => modeCreateDumb_moves hI
  | mapDumb arg => exact nonNull_moves fun _ => modeMapDumb_moves hI
  | destroyDumb arg => exact nonNull_moves fun _ => (gemHandleDelete_moves hI).bind fun _ => .pure
  | addFb2 alloc arg => exact hquiet.elim
  | unknown => exact .pure

theorem serve_moves_all (hI : OfMemory I) {request : Request}
    (hflip : ∀ arg, request ≠ .pageFlip arg) : Moves I [] [] (request.serve file) := by
  cases request with
  | setCrtc arg => exact nonNull_moves fun _ => modeSetCrtc_moves hI
  | rmFb arg => exact orFault_moves.bind fun _ => modeRmfb_moves hI
  | pageFlip arg => exact absurd rfl (hflip arg)
  | addFb2 alloc arg => exact nonNull_moves fun _ => modeAddfb2_moves hI
  | _ => exact serve_moves hI.of_registry trivial

end Serve

end Handlers

section PageFlip

variable {s : State} {flip : PageFlip} {c c' p p' o o' : Nat} {d : Device}

theorem framebufferLookup_cases (id : Nat) : framebufferLookup id s = .ok (s.dev.findFb id,s) ∨
    framebufferLookup id s = .error (.fault,s) ∧ s.dev.findFb id = none ∧
      ∃ p ∈ s.dev.fbs, s.dev.framebuffers p = none := by
  rw [framebufferLookup,Device.findFb]
  split_ifs
  · exact .inl rfl
  · exact findBy_cases (fun x => show readFramebuffer x s = orFault (s.dev.framebuffers x) s from rfl)
      s.dev.fbs

def Released {α : Type} : Except (Stop × State) (α × State) → Prop :=
  Outcome (fun _ s => s.held = []) (·.1 ≠ .deadlock)

theorem Moves.released {α : Type} {x : Command α} {l : List Lock} (h : Moves (fun _ => True) l [] x)
    (hs : s.held = l) : Released (x s) := by
  have hout := h s ⟨hs,trivial⟩
  cases hx : x s with
  | ok r =>
    rw [hx] at hout
    exact hout.1
  | error e =>
    rw [hx] at hout
    exact hout

theorem crtcFind_ok {id : Nat} : crtcFind id s = .ok (s.dev.findCrtc id,s) := rfl

theorem device_ok : device s = .ok (s.dev,s) := rfl

theorem setDevice_ok {g : Device → Device} : setDevice g s = .ok ((),{ s with dev := g s.dev }) := rfl

theorem readFramebuffer_ok {fb : Framebuffer} (h : s.dev.framebuffers p = some fb) :
    readFramebuffer p s = .ok (fb,s) := by
  rw [readFramebuffer,Exec.bind_ok device_ok,h]
  rfl

theorem readGem_ok {g : GemObject} (h : s.dev.gems o = some g) : readGem o s = .ok (g,s) := by
  rw [readGem,Exec.bind_ok device_ok,h]
  rfl

theorem readGem_fault (h : s.dev.gems o = none) : readGem o s = .error (.fault,s) := by
  rw [readGem,Exec.bind_ok device_ok,h]
  rfl

theorem flipComplete_deadlocks (hs : .device ∈ s.held) :
    modePageFlipComplete c s = .error (.deadlock,s) := by
  refine Exec.bind_error ?_
  rw [lock,if_pos hs]

structure Device.Flips (d : Device) (flip : PageFlip) (c p o : Nat) : Prop where
  crtc : d.findCrtc flip.crtcId = some c
  idle : (d.crtc c).pageFlipPending = false
  fb : d.findFb flip.fbId = some p
  plane : ∃ fb, d.framebuffers p = some fb ∧ fb.obj 0 = some o

theorem Device.Flips.unique (h : d.Flips flip c p o) (h' : d.Flips flip c' p' o') :
    c' = c ∧ p' = p ∧ o' = o := by
  obtain ⟨fb,hfb,ho⟩ := h.plane
  obtain ⟨fb',hfb',ho'⟩ := h'.plane
  cases h.crtc.symm.trans h'.crtc
  cases h.fb.symm.trans h'.fb
  cases hfb.symm.trans hfb'
  cases ho.symm.trans ho'
  exact ⟨rfl,rfl,rfl⟩

def Device.pend (d : Device) (flip : PageFlip) (c p : Nat) : Device := d.setCrtc c { d.crtc c with
  pageFlipPending := true
  pageFlipUserData := flip.userData
  pendingFb := some p }

def Device.present (d : Device) (g : GemObject) : Device := { d with hw := d.hw.show g.paddr }

theorem findFb_live {id : Nat} (h : d.findFb id = some p) : ∃ fb, d.framebuffers p = some fb := by
  rw [Device.findFb] at h
  split_ifs at h
  obtain ⟨-,fb,hlive,-⟩ := firstLive_some h
  exact ⟨fb,hlive⟩

def Untouched {α : Type} (d : Device) : Except (Stop × State) (α × State) → Prop :=
  Outcome (fun _ s => s.held = [] ∧ s.dev.hw = d.hw ∧ s.dev.gems = d.gems)
    fun e => e.1 ≠ .deadlock ∧ e.2.dev.hw = d.hw

theorem Untouched.released {α : Type} {r : Except (Stop × State) (α × State)} (h : Untouched d r) :
    Released r := by
  cases r with
  | ok r => exact h.1
  | error e => exact h.1

variable [Console]

theorem fishixPageFlip_plane {fb : Framebuffer} (hs : .device ∈ s.held)
    (hfb : s.dev.framebuffers p = some fb) (ho : fb.obj 0 = some o) :
    Console.returns flipFormat = false ∧ fishixPageFlip c p s = .error (.spins,s) ∨
    Console.returns flipFormat = true ∧
      (s.dev.gems o = none ∧ fishixPageFlip c p s = .error (.fault,s) ∨
      ∃ g, s.dev.gems o = some g ∧
        fishixPageFlip c p s = .error (.deadlock,{ s with dev := s.dev.present g })) := by
  rw [fishixPageFlip,Exec.bind_ok (readFramebuffer_ok hfb),ho]
  dsimp only
  rcases printf_cases flipFormat s with ⟨hret,hok⟩ | ⟨hret,hspins⟩
  · rw [Exec.bind_ok hok]
    refine .inr ⟨hret,?_⟩
    cases hg : s.dev.gems o with
    | none => exact .inl ⟨rfl,Exec.bind_error (readGem_fault hg)⟩
    | some g =>
      rw [Exec.bind_ok (readGem_ok hg),Exec.bind_ok setDevice_ok]
      exact .inr ⟨g,rfl,Exec.bind_error (flipComplete_deadlocks hs)⟩
  · exact .inl ⟨hret,Exec.bind_error hspins⟩

structure Shows (s : State) (flip : PageFlip) (c p o : Nat) (r : Except (Stop × State) (Reply × State)) :
    Prop where
  flips : s.dev.Flips flip c p o
  ends : Console.returns flipFormat = false ∧ r = .error (.spins,⟨s.dev.pend flip c p,[.device]⟩) ∨
    Console.returns flipFormat = true ∧
      (s.dev.gems o = none ∧ r = .error (.fault,⟨s.dev.pend flip c p,[.device]⟩) ∨
      ∃ g, s.dev.gems o = some g ∧ r = .error (.deadlock,⟨(s.dev.pend flip c p).present g,[.device]⟩))

theorem modePageFlip_cases (flip : PageFlip) (hs : s.held = []) :
    (∀ c p o, ¬s.dev.Flips flip c p o) ∧ Untouched s.dev (modePageFlip flip s) ∨
      ∃ c p o, Shows s flip c p o (modePageFlip flip s) := by
  have hlock : lock .device s = .ok ((),⟨s.dev,[.device]⟩) := by
    rw [lock,hs,if_neg not_mem_nil]
  have hunlock : ∀ e : Int, Untouched s.dev
      ((unlock .device >>= fun _ => pure (.error e) : Command Reply) ⟨s.dev,[.device]⟩) :=
    fun _ => ⟨rfl,rfl,rfl⟩
  rw [modePageFlip,Exec.bind_ok hlock,Exec.bind_ok crtcFind_ok]
  dsimp only
  cases hc : s.dev.findCrtc flip.crtcId with
  | none =>
    refine .inl ⟨fun c p o h => ?_,hunlock _⟩
    cases hc.symm.trans h.crtc
  | some c =>
    dsimp only
    rw [Exec.bind_ok device_ok]
    dsimp only
    cases hpending : (s.dev.crtc c).pageFlipPending with
    | true =>
      refine .inl ⟨fun c' p o h => ?_,hunlock _⟩
      cases hc.symm.trans h.crtc
      cases hpending.symm.trans h.idle
    | false =>
      rw [if_neg (by decide)]
      rcases framebufferLookup_cases (s := ⟨s.dev,[.device]⟩) flip.fbId with hfb | ⟨hfb,hnone,-⟩
      · rw [Exec.bind_ok hfb]
        dsimp only
        cases hp : s.dev.findFb flip.fbId with
        | none =>
          refine .inl ⟨fun c' p o h => ?_,hunlock _⟩
          cases hp.symm.trans h.fb
        | some p =>
          obtain ⟨fb,hlive⟩ := findFb_live hp
          dsimp only
          rw [Exec.bind_ok setDevice_ok]
          cases ho : fb.obj 0 with
          | none =>
            have hrun : fishixPageFlip c p ⟨s.dev.pend flip c p,[.device]⟩ =
                .ok (einval,⟨s.dev.pend flip c p,[.device]⟩) := by
              have hread : readFramebuffer p ⟨s.dev.pend flip c p,[.device]⟩ = .ok (fb,_) :=
                readFramebuffer_ok hlive
              rw [fishixPageFlip,Exec.bind_ok hread,ho]
              rfl
            refine .inl ⟨fun c' p' o h => ?_,?_⟩
            · obtain ⟨fb',hlive',ho'⟩ := h.plane
              cases hp.symm.trans h.fb
              cases hlive.symm.trans hlive'
              cases ho.symm.trans ho'
            · exact (Exec.bind_ok hrun).symm ▸ ⟨rfl,rfl,rfl⟩
          | some o =>
            refine .inr ⟨c,p,o,⟨hc,hpending,hp,fb,hlive,ho⟩,?_⟩
            rcases fishixPageFlip_plane (s := ⟨s.dev.pend flip c p,[.device]⟩) (c := c)
              List.mem_cons_self hlive ho with ⟨hret,h⟩ | ⟨hret,⟨hg,h⟩ | ⟨g,hg,h⟩⟩
            · exact .inl ⟨hret,Exec.bind_error h⟩
            · exact .inr ⟨hret,.inl ⟨hg,Exec.bind_error h⟩⟩
            · exact .inr ⟨hret,.inr ⟨g,hg,Exec.bind_error h⟩⟩
      · rw [Exec.bind_error hfb]
        refine .inl ⟨fun c' p o h => ?_,Stop.noConfusion,rfl⟩
        cases hnone.symm.trans h.fb

def Device.CompletesFlip (d : Device) (flip : PageFlip) : Prop :=
  Console.returns flipFormat = true ∧ ∃ c p o, d.Flips flip c p o ∧ (d.gems o).isSome

theorem modePageFlip_released (hs : s.held = []) :
    Released (modePageFlip flip s) ↔ ¬s.dev.CompletesFlip flip := by
  rcases modePageFlip_cases flip hs with ⟨hnot,h⟩ | ⟨c,p,o,hflips,h⟩
  · refine iff_of_true h.released ?_
    rintro ⟨-,c,p,o,hflips,-⟩
    exact hnot c p o hflips
  · have hgem : ∀ c' p' o', s.dev.Flips flip c' p' o' → (s.dev.gems o').isSome →
        (s.dev.gems o).isSome := by
      rintro c' p' o' h' hlive
      obtain ⟨-,-,rfl⟩ := hflips.unique h'
      exact hlive
    rcases h with ⟨hret,h⟩ | ⟨hret,⟨hg,h⟩ | ⟨g,hg,h⟩⟩
    · rw [h]
      refine iff_of_true Stop.noConfusion ?_
      rintro ⟨hret',-⟩
      cases hret.symm.trans hret'
    · rw [h]
      refine iff_of_true Stop.noConfusion ?_
      rintro ⟨-,c',p',o',h',hlive⟩
      have := hgem c' p' o' h' hlive
      simp [hg] at this
    · rw [h]
      exact iff_of_false (fun hr => hr rfl) fun hno => hno ⟨hret,c,p,o,hflips,by simp [hg]⟩

def Op.CompletesFlip (d : Device) : Op → Prop
  | .ioctl file (.pageFlip (some flip)) => (d.file file).isSome ∧ d.CompletesFlip flip
  | _ => False

theorem ioctl_released {file : Nat} {request : Request} {f : File} (hs : s.held = [])
    (hf : s.dev.file file = some f) :
    Released (request.serve file s) ↔ ¬Op.CompletesFlip s.dev (.ioctl file request) := by
  cases request with
  | pageFlip arg =>
    cases arg with
    | none => exact iff_of_true (Moves.pure.released hs) id
    | some flip =>
      have hcompletes : Op.CompletesFlip s.dev (.ioctl file (.pageFlip (some flip))) ↔
          s.dev.CompletesFlip flip := and_iff_right (by simp [hf])
      rw [hcompletes]
      exact modePageFlip_released hs
  | _ => exact iff_of_true ((serve_moves_all of_memory_true (by simp)).released hs) id

theorem op_released {op : Op} (hs : s.held = []) : Released (op.run s) ↔ ¬op.CompletesFlip s.dev := by
  cases op with
  | «open» alloc => exact iff_of_true ((drmOpen_moves of_memory_true.of_registry).released hs) id
  | close file => exact iff_of_true ((drmClose_moves of_memory_true.of_registry).released hs) id
  | ioctl file request =>
    rw [Op.run,drmIoctl,Exec.bind_ok device_ok]
    cases hf : s.dev.file file with
    | none =>
      refine iff_of_true (Moves.pure.released hs) ?_
      cases request with
      | pageFlip arg =>
        cases arg with
        | none => exact id
        | some flip => exact fun h => by simp [Op.CompletesFlip,hf] at h
      | _ => exact id
    | some f => exact ioctl_released hs hf

theorem modePageFlip_keeps {I : Device → Prop} (hI : OfMemory I) (flip : PageFlip) (hs : s.held = [])
    (h : I s.dev) :
    Outcome (fun _ s' => s'.held = [] ∧ I s'.dev) (fun _ => True) (modePageFlip flip s) := by
  rcases modePageFlip_cases flip hs with ⟨-,hout⟩ | ⟨c,p,o,hshows⟩
  · cases hrun : modePageFlip flip s with
    | ok r =>
      rw [hrun] at hout
      exact ⟨hout.1,hI s.dev r.2.dev (.congr (congrArg Hardware.pool hout.2.1) hout.2.2) h⟩
    | error e => trivial
  · rcases hshows.ends with ⟨-,hr⟩ | ⟨-,⟨-,hr⟩ | ⟨g,-,hr⟩⟩
    · rw [hr]
      trivial
    · rw [hr]
      trivial
    · rw [hr]
      trivial

theorem op_keeps {I : Device → Prop} (hI : OfMemory I) (op : Op) (hs : s.held = []) (h : I s.dev) :
    Outcome (fun _ s' => s'.held = [] ∧ I s'.dev) (fun _ => True) (op.run s) := by
  have hmoves : ∀ x : Command Reply, Moves I [] [] x →
      Outcome (fun _ s' => s'.held = [] ∧ I s'.dev) (fun _ => True) (x s) :=
    fun x hx => (hx.stops fun _ _ => trivial) s ⟨hs,h⟩
  cases op with
  | «open» alloc => exact hmoves _ (drmOpen_moves hI.of_registry)
  | close file => exact hmoves _ (drmClose_moves hI.of_registry)
  | ioctl file request =>
    rw [Op.run,drmIoctl,Exec.bind_ok device_ok]
    cases s.dev.file file with
    | none => exact ⟨hs,h⟩
    | some f =>
      cases request with
      | pageFlip arg =>
        cases arg with
        | none => exact ⟨hs,h⟩
        | some flip =>
          exact modePageFlip_keeps hI flip hs h
      | _ => exact hmoves _ (serve_moves_all hI (by simp))

theorem Reachable.keeps (hr : Reachable s) : s.held = [] ∧ s.dev.Laid := by
  obtain ⟨connector,mode,hw,hrun⟩ := hr
  induction hrun with
  | refl => exact ⟨rfl,nofun,nofun⟩
  | tail _ hstep ih =>
    cases hstep with
    | op o hfresh hok =>
      have hout := op_keeps of_memory_laid o ih.1 ih.2
      rw [hok] at hout
      exact hout

theorem released_iff (hr : Reachable s) (op : Op) :
    s.held = [] ∧ (Released (op.run s) ↔ ¬op.CompletesFlip s.dev) :=
  ⟨hr.keeps.1,op_released hr.keeps.1⟩

def shownCmd : FbCmd2 := ⟨1,1,0,fun i => if i = 0 then 1 else 0,fun _ => 0,fun _ => 0,fun _ => 0⟩

def shownOps : List Op :=
  [.open (some 0),.ioctl 0 (.createDumb (some 0) (some ⟨1,1,32⟩)),.ioctl 0 (.addFb2 (some 0) (some shownCmd))]

def flipOp : Op := .ioctl 0 (.pageFlip (some ⟨1,1,0⟩))

end PageFlip

section Kernel

attribute [local instance] kernelConsole

def settingOps : List Op := [.open (some 0),.ioctl 0 (.setCrtc (some ⟨1,0,true,[],0,0⟩)),
  .ioctl 0 (.addFb2 (some 0) (some { shownCmd with width := 0 }))]

end Kernel

section Full

attribute [local instance] fullConsole

def stops : Option State → Bool
  | none => false
  | some s => match flipOp.run s with
    | .ok _ => false
    | .error e => e.1 = .deadlock

theorem first_flip_stops : stops (runAll shownOps booted) := by decide +kernel

theorem first_flip_deadlocks : ∃ s, ∃ op : Op, Reachable s ∧ ¬Released (op.run s) := by
  have hstops := first_flip_stops
  cases hs : runAll shownOps booted with
  | none => simp [hs,stops] at hstops
  | some s =>
    refine ⟨s,flipOp,booted_reachable.runAll hs,fun hreleased => ?_⟩
    rw [hs,stops] at hstops
    cases hrun : flipOp.run s with
    | ok r => simp [hrun] at hstops
    | error e =>
      simp only [hrun,decide_eq_true_eq] at hstops
      rw [hrun] at hreleased
      exact hreleased hstops

end Full

end SabaOS.Drm
