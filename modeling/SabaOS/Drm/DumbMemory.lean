import SabaOS.Drm.HandleOps

namespace SabaOS.Drm

open SabaOS.Lib SabaOS.Klib

section Model

def createOpFor (file o : Nat) (dumb : CreateDumb) : Op := .ioctl file (.createDumb (some o) (some dumb))

structure Creates [Console] (s : State) (file o : Nat) (dumb : CreateDumb) (pitch size : Nat)
    (s' : State) : Prop where
  fresh : (createOpFor file o dumb).fresh s.dev
  words : dumb.width < u32Bound ∧ dumb.height < u32Bound ∧ dumb.bpp < u32Bound
  ran : ∃ handle, (createOpFor file o dumb).run s = .ok (.dumb handle pitch size,s')

structure Serves (d : Device) (o : Nat) (dumb : CreateDumb) (pitch : Nat) : Prop where
  row : dumb.width * ((dumb.bpp + 7) / 8) ≤ pitch
  memory : ∃ g pool, d.gems o = some g ∧ d.hw.pool = some pool ∧ pitch * dumb.height ≤ g.size ∧
    pool.base ≤ g.paddr ∧ g.paddr + g.size ≤ pool.base + coherentSize ∧
      ∀ o' ≠ o, ∀ g', d.gems o' = some g' → g.Apart g'

def flipOpFor (file : Nat) (flip : PageFlip) : Op := .ioctl file (.pageFlip (some flip))

def State.withRam (s : State) (m : Bytes) : State :=
  { s with dev := { s.dev with hw := { s.dev.hw with ram := m } } }

def screenOf {α : Type} : Except (Stop × State) (α × State) → List UInt8
  | .ok r => r.2.dev.hw.screen
  | .error e => e.2.dev.hw.screen

def ReadsWithin [Console] (s : State) (file : Nat) (flip : PageFlip) (g : GemObject) : Prop :=
  ∀ m, (∀ a, g.paddr ≤ a → a < g.paddr + g.size → m a = s.dev.hw.ram a) →
    screenOf ((flipOpFor file flip).run (s.withRam m)) = screenOf ((flipOpFor file flip).run s)

end Model

section Sizes

variable {dumb : CreateDumb} {size : Nat}

theorem le_alignPage (hsize : size < u32Bound) (h0 : alignPage size ≠ 0) : size ≤ alignPage size := by
  simp only [alignPage,u32Bound] at *
  omega

theorem alignPage_alignPage (size : Nat) : alignPage (alignPage size) = alignPage size := by
  simp only [alignPage,u32Bound]
  omega

theorem pitch_eq (hbpp : dumb.bpp < u32Bound) (hpos : 0 < dumb.pitch)
    (hfits : dumb.width * ((dumb.bpp + 7) / 8) < u32Bound) :
    dumb.pitch = dumb.width * ((dumb.bpp + 7) / 8) := by
  rw [CreateDumb.pitch] at hpos ⊢
  rcases Nat.lt_or_ge (dumb.bpp + 7) u32Bound with hlt | hge
  · rw [Nat.mod_eq_of_lt hlt,Nat.mod_eq_of_lt hfits]
  · have hzero : (dumb.bpp + 7) % u32Bound / 8 = 0 := by
      rw [u32Bound] at *
      omega
    rw [hzero] at hpos
    simp at hpos

theorem dumb_large_iff (hbpp : dumb.bpp < u32Bound) (h0 : dumb.size ≠ 0) :
    (dumb.width * ((dumb.bpp + 7) / 8) ≤ dumb.pitch ∧ dumb.pitch * dumb.height ≤ dumb.size) ↔
      dumb.width * ((dumb.bpp + 7) / 8) * dumb.height < u32Bound := by
  constructor
  · rintro ⟨hrow,hsize⟩
    calc dumb.width * ((dumb.bpp + 7) / 8) * dumb.height
      _ ≤ dumb.pitch * dumb.height := Nat.mul_le_mul_right _ hrow
      _ ≤ dumb.size := hsize
      _ < u32Bound := alignPage_lt _
  · intro hfits
    have hpos : 0 < dumb.pitch ∧ 0 < dumb.height := by
      constructor
      · refine Nat.pos_of_ne_zero fun hp => h0 ?_
        rw [CreateDumb.size,hp]
        simp [alignPage]
      · refine Nat.pos_of_ne_zero fun hh => h0 ?_
        rw [CreateDumb.size,hh]
        simp [alignPage]
    have hrow : dumb.width * ((dumb.bpp + 7) / 8) < u32Bound :=
      Nat.lt_of_le_of_lt (Nat.le_mul_of_pos_right _ hpos.2) hfits
    have hpitch := pitch_eq hbpp hpos.1 hrow
    refine ⟨Nat.le_of_eq hpitch.symm,?_⟩
    rw [← hpitch] at hfits
    rw [CreateDumb.size,Nat.mod_eq_of_lt hfits] at h0 ⊢
    exact le_alignPage hfits h0

end Sizes

section Create

variable [Console]
variable {s s' : State} {d : Device} {file o pitch size handle : Nat} {dumb : CreateDumb} {x : File}

theorem createOp_run (hf : d.file file = some x) : (createOpFor file o dumb).run ⟨d,[]⟩ =
    modeCreateDumb file (some o) dumb ⟨d,[]⟩ := by
  rw [createOpFor,Op.run,drmIoctl,Exec.bind_ok device_ok]
  simp only [hf,Request.serve,nonNull]

theorem create_runs {pool pool' : Pool} {phys : Nat} (hf : d.file file = some x) (h0 : dumb.size ≠ 0)
    (hpool : d.hw.pool = some pool) (halloc : pool.allocCoherent (alignPage dumb.size) = some (pool',phys))
    (hcreated : Console.returns createdFormat = true) (hhandle : Console.returns handleFormat = true) :
    (createOpFor file o dumb).run ⟨d,[]⟩ = .ok (.dumb (takeId d.nextHandle).1 dumb.pitch dumb.size,
      ⟨d.buffer file x o pool' phys (alignPage dumb.size),[]⟩) := by
  rw [createOp_run hf]
  rcases gemObjectCreate_cases (some o) dumb.size ⟨d,[]⟩ with
    ⟨-,h | h | h⟩ | ⟨-,o',pool₁,ho,hpool₁,⟨hnone,-⟩ | ⟨pool₂,phys₂,halloc₂,hrun⟩⟩
  · exact absurd h h0
  · cases h
  · cases hpool.symm.trans h
  · cases hpool.symm.trans hpool₁
    cases halloc.symm.trans hnone
  · cases ho
    cases hpool.symm.trans hpool₁
    cases halloc.symm.trans halloc₂
    rw [modeCreateDumb_made hf hrun hcreated]
    exact Exec.bind_ok (printf_ok hhandle)

theorem create_ran (h : (createOpFor file o dumb).run ⟨d,[]⟩ = .ok (.dumb handle pitch size,s')) :
    Console.returns createdFormat = true ∧ dumb.size ≠ 0 ∧ pitch = dumb.pitch ∧ size = dumb.size ∧
      ∃ g, s'.dev.gems o = some g ∧ g.size = alignPage dumb.size := by
  cases hf : d.file file with
  | none =>
    rw [createOpFor,Op.run,drmIoctl,Exec.bind_ok device_ok] at h
    simp only [hf] at h
    cases h
  | some x =>
    rw [createOp_run hf] at h
    rcases gemObjectCreate_cases (some o) dumb.size ⟨d,[]⟩ with
      ⟨hrun,-⟩ | ⟨h0,o',pool,ho,-,⟨-,hrun⟩ | ⟨pool',phys,-,hrun⟩⟩
    · rw [modeCreateDumb,Exec.bind_ok hrun] at h
      cases h
    · rcases printf_cases outOfMemoryFormat ⟨d,[]⟩ with ⟨-,hok⟩ | ⟨-,hspins⟩
      · rw [Exec.bind_ok hok] at hrun
        rw [modeCreateDumb,Exec.bind_ok hrun] at h
        cases h
      · rw [Exec.bind_error hspins] at hrun
        rw [modeCreateDumb,Exec.bind_error hrun] at h
        cases h
    · cases ho
      rcases printf_cases createdFormat ⟨d.made o pool' phys (alignPage dumb.size),[]⟩ with
        ⟨hcreated,-⟩ | ⟨-,hspins⟩
      · rw [modeCreateDumb_made hf hrun hcreated] at h
        rcases printf_cases handleFormat ⟨d.buffer file x o pool' phys (alignPage dumb.size),[]⟩ with
          ⟨-,hok⟩ | ⟨-,hspins⟩
        · rw [Exec.bind_ok hok] at h
          cases h
          exact ⟨hcreated,h0,rfl,rfl,_,Function.update_self ..,rfl⟩
        · rw [Exec.bind_error hspins] at h
          cases h
      · rw [Exec.bind_error hspins] at hrun
        rw [modeCreateDumb,Exec.bind_error hrun] at h
        cases h

theorem Reachable.eq_unlocked (hr : Reachable s) : s = ⟨s.dev,[]⟩ := by
  rw [← hr.keeps.1]

theorem serves_iff (hr : Reachable s) (h : Creates s file o dumb pitch size s') :
    Serves s'.dev o dumb pitch ↔ dumb.width * ((dumb.bpp + 7) / 8) * dumb.height < u32Bound := by
  obtain ⟨handle,hrun⟩ := h.ran
  have hkeeps := op_keeps of_memory_laid (createOpFor file o dumb) hr.keeps.1 hr.keeps.2
  rw [hrun] at hkeeps
  have hlaid : s'.dev.Laid := hkeeps.2
  rw [hr.eq_unlocked] at hrun
  obtain ⟨-,h0,rfl,rfl,g,hg,hsize⟩ := create_ran hrun
  have halign : g.size = dumb.size := by
    rw [hsize,CreateDumb.size,alignPage_alignPage]
  rw [← dumb_large_iff h.words.2.2 h0]
  constructor
  · rintro ⟨hrow,g',pool,hg',-,hlarge,-⟩
    cases hg.symm.trans hg'
    exact ⟨hrow,halign ▸ hlarge⟩
  · rintro ⟨hrow,hlarge⟩
    obtain ⟨pool,hpool,hbase,hend⟩ := hlaid.inside o g hg
    have hwithin := pool.within
    refine ⟨hrow,g,pool,hg,hpool,halign ▸ hlarge,hbase,by omega,fun o' hne g' hg' => ?_⟩
    exact hlaid.apart o o' g g' hne.symm hg hg'

end Create

section Flip

theorem copyOut_eq_iff {m m' : Bytes} {src n : Nat} :
    copyOut m src n = copyOut m' src n ↔ ∀ i, i < n → m (src + i) = m' (src + i) := by
  rw [copyOut,copyOut,List.map_inj_left]
  simp only [List.mem_range]

variable [Console]
variable {s : State} {file c p o : Nat} {flip : PageFlip} {g : GemObject}

theorem flip_screen (hs : s.held = []) (hflips : s.dev.Flips flip c p o) (hg : s.dev.gems o = some g)
    (file : Nat) : screenOf ((flipOpFor file flip).run s) =
      if (s.dev.file file).isSome ∧ Console.returns flipFormat = true
      then (s.dev.hw.show g.paddr).screen else s.dev.hw.screen := by
  rw [flipOpFor,Op.run,drmIoctl,Exec.bind_ok device_ok]
  cases hf : s.dev.file file with
  | none => simp [screenOf]
  | some f =>
    have hrun : screenOf (modePageFlip flip s) = if Console.returns flipFormat = true
        then (s.dev.hw.show g.paddr).screen else s.dev.hw.screen := by
      rcases modePageFlip_cases flip hs with ⟨hnot,-⟩ | ⟨c',p',o',hshows⟩
      · exact absurd hflips (hnot c p o)
      · obtain ⟨-,-,rfl⟩ := hflips.unique hshows.flips
        rcases hshows.ends with ⟨hret,h⟩ | ⟨hret,⟨hnone,-⟩ | ⟨g',hg',h⟩⟩
        · rw [h,hret]
          rfl
        · cases hg.symm.trans hnone
        · cases hg.symm.trans hg'
          rw [h,hret]
          rfl
    simp only [Option.isSome_some,true_and]
    exact hrun

theorem readsWithin_iff (hs : s.held = []) (hflips : s.dev.Flips flip c p o)
    (hg : s.dev.gems o = some g) : ReadsWithin s file flip g ↔ s.dev.file file = none ∨
      Console.returns flipFormat = false ∨ s.dev.hw.display.bytes ≤ g.size := by
  have hscreen : ∀ m, screenOf ((flipOpFor file flip).run (s.withRam m)) =
      if (s.dev.file file).isSome ∧ Console.returns flipFormat = true
      then copyOut m g.paddr s.dev.hw.display.bytes ++ s.dev.hw.screen.drop s.dev.hw.display.bytes
      else s.dev.hw.screen :=
    fun m => flip_screen (s := s.withRam m) hs ⟨hflips.crtc,hflips.idle,hflips.fb,hflips.plane⟩ hg file
  rw [ReadsWithin,flip_screen hs hflips hg file]
  simp only [hscreen,Hardware.show]
  by_cases hcopies : (s.dev.file file).isSome ∧ Console.returns flipFormat = true
  · simp only [if_pos hcopies,List.append_cancel_right_eq,copyOut_eq_iff]
    constructor
    · intro h
      refine .inr (.inr (Nat.not_lt.mp fun hlt => ?_))
      have hbyte := h (Function.update s.dev.hw.ram (g.paddr + g.size) (s.dev.hw.ram (g.paddr + g.size) + 1))
        (fun a _ ha => Function.update_of_ne (by omega) _ _) g.size hlt
      rw [Function.update_self] at hbyte
      simp at hbyte
    · rintro (hnone | hret | hle) m hm i hi
      · simp [hnone] at hcopies
      · cases hret.symm.trans hcopies.2
      · exact hm _ (by omega) (by omega)
  · simp only [if_neg hcopies]
    refine iff_of_true (fun _ _ => trivial) ?_
    cases hf : s.dev.file file with
    | none => exact .inl rfl
    | some f => exact .inr (.inl (by simpa [hf] using hcopies))

end Flip

section Main

variable [con : Console] {s : State}

end Main

section Opened

def openedDevice : Device := { booted.dev.setFile 0 (some ⟨[],[]⟩) with files := [0] }

def opened : State := ⟨openedDevice,[]⟩

theorem opened_reachable [Console] : Reachable opened :=
  ⟨bootConnector,[],bootHardware,.single (.op (.open (some 0)) rfl rfl)⟩

attribute [local instance] fullConsole

theorem opened_creates (dumb : CreateDumb) (h0 : dumb.size ≠ 0)
    (hwords : dumb.width < u32Bound ∧ dumb.height < u32Bound ∧ dumb.bpp < u32Bound)
    (hroom : ¬coherentSize < uadd 0 (alignedSize (alignPage dumb.size))) :
    ∃ s', Creates opened 0 0 dumb dumb.pitch dumb.size s' :=
  ⟨_,rfl,hwords,_,create_runs rfl h0 rfl (dif_neg hroom) rfl rfl⟩

theorem dumb_buffer_short : ∃ s', Creates opened 0 0 ⟨32769,32768,32⟩ 131076 131072 s' ∧
    ¬Serves s'.dev 0 ⟨32769,32768,32⟩ 131076 := by
  obtain ⟨s',hs'⟩ := opened_creates ⟨32769,32768,32⟩ (by decide) (by decide) (by decide)
  refine ⟨s',hs',fun hserves => ?_⟩
  exact absurd ((serves_iff opened_reachable hs').mp hserves) (by decide)

end Opened

end SabaOS.Drm
