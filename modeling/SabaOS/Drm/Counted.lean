import SabaOS.Drm.Locks
import SabaOS.Lib.Holders

namespace SabaOS.Drm

section Effects

open SabaOS.Lib

def Device.resolve (d : Device) (file handle : Nat) : Option Nat :=
  if handle = 0 then none
  else match d.file file with
    | none => none
    | some f => firstLive d.gems (fun obj => obj.handle = handle) f.objects

variable {d : Device} {s : State} {file handle o : Nat} {g : GemObject}

theorem firstLive_congr {α : Type} {heap heap' : Nat → Option α} {p : α → Bool} {xs : List Nat}
    (h : ∀ x ∈ xs, (heap' x).map p = (heap x).map p) : firstLive heap' p xs = firstLive heap p xs := by
  induction xs with
  | nil => rfl
  | cons x xs ih =>
    have hx := h x List.mem_cons_self
    have hxs := ih fun y hy => h y (List.mem_cons_of_mem _ hy)
    rw [firstLive,firstLive,hxs]
    cases ha : heap x with
    | none =>
      rw [ha,Option.map_none,Option.map_eq_none_iff] at hx
      rw [hx]
    | some a =>
      rw [ha,Option.map_some,Option.map_eq_some_iff] at hx
      obtain ⟨b,hb,hp⟩ := hx
      rw [hb]
      dsimp only
      rw [hp]

theorem update_map {α β : Type} {heap : Nat → Option α} {x y : Nat} {a b : α} (f : α → β)
    (ha : heap x = some a) (hf : f b = f a) :
    (Function.update heap x (some b) y).map f = (heap y).map f := by
  rw [Function.update_apply]
  split_ifs with heq
  · rw [heq,ha,Option.map_some,Option.map_some,hf]
  · rfl

theorem resolve_setGem (g' : GemObject) (hg : d.gems o = some g) (hh : g'.handle = g.handle) :
    (d.setGem o (some g')).resolve file handle = d.resolve file handle := by
  simp only [Device.resolve,Device.setGem]
  split_ifs
  · rfl
  · cases d.file file with
    | none => rfl
    | some f => exact firstLive_congr fun x _ => update_map _ hg (by rw [hh])

def GemObject.taken (g : GemObject) : GemObject := { g with refcount := increment g.refcount }

theorem lock_ok (hs : s.held = []) : lock .device s = .ok ((),⟨s.dev,[.device]⟩) := by
  rw [lock,hs,if_neg not_mem_nil]

theorem unlock_ok {d : Device} : unlock .device ⟨d,[.device]⟩ = .ok ((),⟨d,[]⟩) := rfl

theorem readFile_ok {f : File} (h : s.dev.file file = some f) : readFile file s = .ok (f,s) := by
  rw [readFile,Exec.bind_ok device_ok,h]
  rfl

theorem readFile_fault (h : s.dev.file file = none) : readFile file s = .error (.fault,s) := by
  rw [readFile,Exec.bind_ok device_ok,h]
  rfl

theorem gemObjectLookup_cases (file handle : Nat) (hs : s.held = []) :
    (∃ s', gemObjectLookup file handle s = .error (.fault,s')) ∧ s.dev.resolve file handle = none ∧
      (∀ f, s.dev.file file = some f → ∃ o ∈ f.objects, s.dev.gems o = none) ∨
    gemObjectLookup file handle s = .ok (none,s) ∧ s.dev.resolve file handle = none ∨
    ∃ o g, s.dev.resolve file handle = some o ∧ s.dev.gems o = some g ∧
      gemObjectLookup file handle s = .ok (some o,⟨s.dev.setGem o (some g.taken),[]⟩) := by
  obtain ⟨d,held⟩ := s
  cases hs
  rw [gemObjectLookup,Device.resolve]
  split_ifs
  · exact .inr (.inl ⟨rfl,rfl⟩)
  · rw [Exec.bind_ok (lock_ok rfl)]
    cases hf : d.file file with
    | none =>
      have hread : readFile file ⟨d,[.device]⟩ = .error (.fault,_) := readFile_fault hf
      rw [Exec.bind_error hread]
      exact .inl ⟨⟨_,rfl⟩,rfl,fun f hf' => by cases hf'⟩
    | some f =>
      rw [Exec.bind_ok (readFile_ok hf)]
      rcases findBy_cases (s := ⟨d,[.device]⟩) (p := fun obj : GemObject => obj.handle = handle)
        (fun x => show readGem x _ = orFault (d.gems x) _ from rfl) f.objects with hfind | ⟨hfind,hnone,hdead⟩
      · rw [Exec.bind_ok hfind]
        dsimp only
        cases hfirst : firstLive d.gems (fun obj => obj.handle = handle) f.objects with
        | none => exact .inr (.inl ⟨rfl,rfl⟩)
        | some o =>
          obtain ⟨-,g,hg,-⟩ := firstLive_some hfirst
          refine .inr (.inr ⟨o,g,rfl,hg,?_⟩)
          dsimp only
          rw [Exec.bind_ok (readGem_ok hg)]
          rfl
      · rw [Exec.bind_error hfind]
        refine .inl ⟨⟨_,rfl⟩,hnone,fun f' hf' => ?_⟩
        cases hf'
        exact hdead

end Effects

section Counted

open SabaOS.Lib

def Device.refcountOf (d : Device) (o : Nat) : Option Nat := (d.gems o).map GemObject.refcount

def Device.handleOf (d : Device) (o : Nat) : Option Nat := (d.gems o).map GemObject.handle

structure Counted (d : Device) (refs : List Nat) : Prop where
  counts : Counts d.refcountOf refs
  small : ∀ o, refs.count o < u32Bound
  nodup : d.gemObjects.Nodup
  listed : ∀ o, o ∈ d.gemObjects ↔ (d.gems o).isSome

structure Kept (refs : List Nat) (d d' : Device) : Prop where
  file : d'.file = d.file
  files : d'.files = d.files
  framebuffers : d'.framebuffers = d.framebuffers
  fbs : d'.fbs = d.fbs
  nextHandle : d'.nextHandle = d.nextHandle
  handle : ∀ o ∈ refs, d'.handleOf o = d.handleOf o

variable {d d' d'' : Device} {refs refs' : List Nat} {o file handle : Nat} {g : GemObject}

theorem Kept.refl : Kept refs d d := ⟨rfl,rfl,rfl,rfl,rfl,fun _ _ => rfl⟩

theorem Kept.trans (h : Kept refs d d') (h' : Kept refs' d' d'') (hsub : ∀ o ∈ refs', o ∈ refs) :
    Kept refs' d d'' :=
  ⟨h'.file.trans h.file,h'.files.trans h.files,h'.framebuffers.trans h.framebuffers,
    h'.fbs.trans h.fbs,h'.nextHandle.trans h.nextHandle,
    fun o ho => (h'.handle o ho).trans (h.handle o (hsub o ho))⟩

theorem Counted.perm (h : Counted d refs) (hp : refs'.Perm refs) : Counted d refs' :=
  ⟨h.counts.perm hp,fun o => by rw [hp.count_eq]; exact h.small o,h.nodup,h.listed⟩

theorem Counted.of_cons (h : Counted d (o :: refs)) (x : Nat) : refs.count x < u32Bound :=
  Nat.lt_of_le_of_lt ((List.sublist_cons_self o refs).count_le x) (h.small x)

theorem Counted.live_iff (h : Counted d refs) : (d.gems o).isSome ↔ o ∈ refs := by
  rw [← h.counts.live_iff,Device.refcountOf,Option.isSome_map]

theorem Counted.get (h : Counted d refs) (ho : o ∈ refs) :
    ∃ g, d.gems o = some g ∧ g.refcount = refs.count o := by
  obtain ⟨g,hg⟩ := Option.isSome_iff_exists.mp (h.live_iff.mpr ho)
  exact ⟨g,hg,h.counts.eq_some (by rw [Device.refcountOf,hg]; rfl)⟩

theorem refcountOf_setGem {g' : Option GemObject} : (d.setGem o g').refcountOf =
    Function.update d.refcountOf o (g'.map GemObject.refcount) := by
  funext x
  simp only [Device.refcountOf,Device.setGem,Function.update_apply]
  split_ifs
  · rfl
  · rfl

theorem handleOf_setGem (g' : GemObject) (hg : d.gems o = some g) (hh : g'.handle = g.handle) :
    (d.setGem o (some g')).handleOf = d.handleOf :=
  funext fun _ => update_map _ hg hh

theorem increment_of_lt {n : Nat} (h : n + 1 < u32Bound) : increment n = n + 1 := by
  rw [increment,Nat.mod_eq_of_lt h]

theorem decrement_succ {n : Nat} (h : n < u32Bound) : decrement (n + 1) = n := by
  unfold decrement
  unfold u32Bound at *
  omega

theorem Counted.taken (h : Counted d refs) (hg : d.gems o = some g)
    (hroom : g.refcount + 1 < u32Bound) {g' : GemObject} (hr : g'.refcount = increment g.refcount) :
    Counted (d.setGem o (some g')) (o :: refs) := by
  have hcount : d.refcountOf o = some g.refcount := by
    rw [Device.refcountOf,hg]
    rfl
  refine ⟨?_,fun x => ?_,h.nodup,fun x => ?_⟩
  · rw [refcountOf_setGem,Option.map_some,hr,increment_of_lt hroom]
    exact h.counts.take hcount
  · rcases eq_or_ne x o with rfl | hne
    · rw [List.count_cons_self,← h.counts.eq_some hcount]
      exact hroom
    · rw [List.count_cons_of_ne hne.symm]
      exact h.small x
  · show x ∈ d.gemObjects ↔ (Function.update d.gems o (some g') x).isSome
    rw [h.listed,Function.update_apply]
    split_ifs with heq
    · simp [heq,hg]
    · rfl

section Destroy

variable [Console]

theorem gemObjectDestroy_ok (h : Counted d (o :: refs))
    (hprints : o ∉ refs → Console.returns destroyingFormat = true) :
    ∃ d', gemObjectDestroy o ⟨d,[]⟩ = .ok ((),⟨d',[]⟩) ∧ Counted d' refs ∧ Kept refs d d' := by
  obtain ⟨g,hg,hcount⟩ := h.get List.mem_cons_self
  rw [List.count_cons_self] at hcount
  have hdec : decrement g.refcount = refs.count o := by rw [hcount,decrement_succ (h.of_cons o)]
  have hdrop := h.counts.drop
  have hread : readGem o ⟨d,[]⟩ = .ok (g,⟨d,[]⟩) := readGem_ok hg
  rw [gemObjectDestroy,Exec.bind_ok hread,Exec.bind_ok setDevice_ok,hdec]
  by_cases hzero : refs.count o = 0
  · rw [if_pos hzero] at hdrop
    have hlast := hprints (List.count_eq_zero.mp hzero)
    rw [if_neg (by omega),Exec.bind_ok (printf_ok hlast)]
    refine ⟨_,rfl,⟨?_,h.of_cons,h.nodup.erase o,fun x => ?_⟩,⟨rfl,rfl,rfl,rfl,rfl,fun x hx => ?_⟩⟩
    · refine hdrop.congr fun x => ?_
      simp only [Device.refcountOf,Device.setGem,Function.update_apply]
      split_ifs
      · rfl
      · rfl
    · show x ∈ d.gemObjects.erase o ↔ (Function.update (Function.update d.gems o _) o none x).isSome
      rw [h.nodup.mem_erase_iff,h.listed,Function.update_apply]
      split_ifs with heq
      · simp [heq]
      · rw [Function.update_of_ne heq]
        simp [heq]
    · have hne : x ≠ o := by
        rintro rfl
        exact List.count_eq_zero.mp hzero hx
      simp only [Device.handleOf,Device.setGem,Function.update_of_ne hne]
  · rw [if_neg hzero] at hdrop
    rw [if_pos (by omega)]
    refine ⟨_,rfl,⟨?_,h.of_cons,h.nodup,fun x => ?_⟩,⟨rfl,rfl,rfl,rfl,rfl,fun x hx => ?_⟩⟩
    · rw [refcountOf_setGem]
      exact hdrop
    · show x ∈ d.gemObjects ↔ (Function.update d.gems o _ x).isSome
      rw [h.listed,Function.update_apply]
      split_ifs with heq
      · simp [heq,hg]
      · rfl
    · exact congrFun (handleOf_setGem { g with refcount := refs.count o } hg rfl) x

theorem destroyAll_ok {os : List Nat} (h : Counted d (os ++ refs))
    (hprints : ∀ o ∈ os, o ∉ refs → Console.returns destroyingFormat = true) :
    ∃ d', destroyAll os ⟨d,[]⟩ = .ok ((),⟨d',[]⟩) ∧ Counted d' refs ∧ Kept refs d d' := by
  induction os generalizing d with
  | nil => exact ⟨d,rfl,h,.refl⟩
  | cons o os ih =>
    obtain ⟨d₁,hrun,hcounted,hkept⟩ := gemObjectDestroy_ok h fun hnot =>
      hprints o List.mem_cons_self fun hmem => hnot (List.mem_append_right os hmem)
    obtain ⟨d',hruns,hcounted',hkept'⟩ :=
      ih hcounted fun o' ho' => hprints o' (List.mem_cons_of_mem o ho')
    refine ⟨d',?_,hcounted',hkept.trans hkept' fun x hx => List.mem_append_right _ hx⟩
    rw [destroyAll,Exec.bind_ok hrun]
    exact hruns

end Destroy

theorem handleOf_taken (hg : d.gems o = some g) : Kept refs d (d.setGem o (some g.taken)) :=
  ⟨rfl,rfl,rfl,rfl,rfl,fun x _ => congrFun (handleOf_setGem g.taken hg rfl) x⟩

theorem gemObjectLookup_ok {f : File} (handle : Nat) (h : Counted d refs) (hf : d.file file = some f)
    (hlive : ∀ o ∈ f.objects, o ∈ refs)
    (hroom : ∀ o, d.resolve file handle = some o → refs.count o + 1 < u32Bound) :
    d.resolve file handle = none ∧ gemObjectLookup file handle ⟨d,[]⟩ = .ok (none,⟨d,[]⟩) ∨
      ∃ o d', d.resolve file handle = some o ∧
        gemObjectLookup file handle ⟨d,[]⟩ = .ok (some o,⟨d',[]⟩) ∧
        Counted d' (o :: refs) ∧ Kept refs d d' := by
  rcases gemObjectLookup_cases (s := ⟨d,[]⟩) file handle rfl with
    ⟨-,-,hdead⟩ | ⟨hrun,hnone⟩ | ⟨o,g,hres,hg,hrun⟩
  · obtain ⟨o,ho,hdead⟩ := hdead f hf
    obtain ⟨g,hg,-⟩ := h.get (hlive o ho)
    cases hdead.symm.trans hg
  · exact .inl ⟨hnone,hrun⟩
  · have hcount : g.refcount = refs.count o := h.counts.eq_some (by
      rw [Device.refcountOf,show d.gems o = some g from hg]
      rfl)
    exact .inr ⟨o,_,hres,hrun,h.taken hg (by rw [hcount]; exact hroom o hres) rfl,handleOf_taken hg⟩

end Counted

end SabaOS.Drm
