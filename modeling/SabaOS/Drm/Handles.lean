import Mathlib.Data.List.Nodup
import SabaOS.Drm.Counted

namespace SabaOS.Drm

open SabaOS.Lib

structure Naming where
  file : Nat
  handle : Nat
  object : Nat
deriving DecidableEq, Repr

def Device.objectsOf (d : Device) (f : Nat) : List Nat :=
  match d.file f with
  | none => []
  | some x => x.objects

def Device.planesOf (d : Device) (p : Nat) : List Nat :=
  match d.framebuffers p with
  | none => []
  | some fb => fb.planes

def Device.namesOf (d : Device) (f : Nat) : List Naming :=
  (d.objectsOf f).map fun o => ⟨f,(d.handleOf o).getD 0,o⟩

def Device.names (d : Device) : List Naming := d.files.flatMap d.namesOf

def Device.fbRefs (d : Device) : List Nat := d.fbs.flatMap d.planesOf

def Device.refs (d : Device) : List Nat := d.names.map Naming.object ++ d.fbRefs

structure Distinct (names : List Naming) : Prop where
  keys : (names.map fun n => (n.file,n.handle)).Nodup
  objects : (names.map Naming.object).Nodup
  nonzero : ∀ n ∈ names, n.handle ≠ 0

structure Shaped (d : Device) : Prop where
  distinct : Distinct d.names
  files : d.files.Nodup
  open_iff : ∀ f, f ∈ d.files ↔ (d.file f).isSome
  fbs : d.fbs.Nodup
  fb_iff : ∀ p, p ∈ d.fbs ↔ (d.framebuffers p).isSome
  planes : ∀ p, (d.planesOf p).Nodup

structure Consistent (d : Device) : Prop extends Shaped d where
  counted : Counted d d.refs

variable {d d' : Device} {names names' : List Naming} {n : Naming} {f file handle o p : Nat}

section Names

theorem Distinct.perm (h : Distinct names) (hp : names'.Perm names) : Distinct names' :=
  ⟨(hp.map _).nodup_iff.mpr h.keys,(hp.map _).nodup_iff.mpr h.objects,
    fun n hn => h.nonzero n (hp.mem_iff.mp hn)⟩

theorem Distinct.sublist (h : Distinct names) (hs : names'.Sublist names) : Distinct names' :=
  ⟨h.keys.sublist (hs.map _),h.objects.sublist (hs.map _),fun n hn => h.nonzero n (hs.subset hn)⟩

theorem Distinct.cons (h : Distinct names) (hkey : ∀ m ∈ names, (m.file,m.handle) ≠ (n.file,n.handle))
    (hobject : n.object ∉ names.map Naming.object) (hzero : n.handle ≠ 0) : Distinct (n :: names) := by
  refine ⟨?_,?_,?_⟩
  · rw [List.map_cons,List.nodup_cons]
    refine ⟨fun hmem => ?_,h.keys⟩
    obtain ⟨m,hm,heq⟩ := List.mem_map.mp hmem
    exact hkey m hm heq
  · rw [List.map_cons,List.nodup_cons]
    exact ⟨hobject,h.objects⟩
  · intro m hm
    rcases List.mem_cons.mp hm with rfl | hm
    · exact hzero
    · exact h.nonzero m hm

theorem Distinct.object_eq (h : Distinct names) {m : Naming} (hn : n ∈ names) (hm : m ∈ names)
    (hkey : (n.file,n.handle) = (m.file,m.handle)) : n = m :=
  List.inj_on_of_nodup_map h.keys hn hm hkey

theorem mem_names : n ∈ d.names ↔
    n.file ∈ d.files ∧ n.object ∈ d.objectsOf n.file ∧ (d.handleOf n.object).getD 0 = n.handle := by
  rw [Device.names,List.mem_flatMap]
  constructor
  · rintro ⟨f,hf,hn⟩
    obtain ⟨o,ho,rfl⟩ := List.mem_map.mp hn
    exact ⟨hf,ho,rfl⟩
  · rintro ⟨hf,ho,hh⟩
    exact ⟨n.file,hf,List.mem_map.mpr ⟨n.object,ho,by rw [hh]⟩⟩

theorem firstLive_exists {α : Type} {heap : Nat → Option α} {q : α → Bool} {xs : List Nat} {x : Nat}
    {a : α} (hlive : ∀ y ∈ xs, (heap y).isSome) (hx : x ∈ xs) (ha : heap x = some a) (hq : q a = true) :
    ∃ y, firstLive heap q xs = some y := by
  induction xs with
  | nil => cases hx
  | cons y ys ih =>
    obtain ⟨b,hb⟩ := Option.isSome_iff_exists.mp (hlive y List.mem_cons_self)
    rw [firstLive,hb]
    dsimp only
    split_ifs with hqb
    · exact ⟨y,rfl⟩
    · rcases List.mem_cons.mp hx with rfl | hx
      · cases hb.symm.trans ha
        exact absurd hq hqb
      · exact ih (fun z hz => hlive z (List.mem_cons_of_mem _ hz)) hx

theorem Consistent.live (h : Consistent d) {x : File} (hf : d.file f = some x) (ho : o ∈ x.objects) :
    o ∈ d.refs := by
  refine List.mem_append_left _ (List.mem_map.mpr ⟨⟨f,(d.handleOf o).getD 0,o⟩,?_,rfl⟩)
  refine mem_names.mpr ⟨(h.open_iff f).mpr (by rw [hf]; rfl),?_,rfl⟩
  simp only [Device.objectsOf,hf]
  exact ho

theorem Consistent.resolve_iff (h : Consistent d) :
    d.resolve file handle = some o ↔ ⟨file,handle,o⟩ ∈ d.names := by
  have hsound : ∀ o, d.resolve file handle = some o → ⟨file,handle,o⟩ ∈ d.names := by
    intro o ho
    rw [Device.resolve] at ho
    split_ifs at ho
    cases hf : d.file file with
    | none => simp [hf] at ho
    | some x =>
      simp only [hf] at ho
      obtain ⟨hmem,g,hg,hh⟩ := firstLive_some ho
      refine mem_names.mpr ⟨(h.open_iff file).mpr (by rw [hf]; rfl),?_,?_⟩
      · simp only [Device.objectsOf,hf]
        exact hmem
      · simpa [Device.handleOf,hg] using hh
  refine ⟨hsound o,fun hn => ?_⟩
  obtain ⟨hfile,hmem,hh⟩ := mem_names.mp hn
  have hzero : handle ≠ 0 := h.distinct.nonzero _ hn
  obtain ⟨x,hf⟩ := Option.isSome_iff_exists.mp ((h.open_iff file).mp hfile)
  simp only [Device.objectsOf,hf] at hmem
  obtain ⟨g,hg,-⟩ := h.counted.get (h.live hf hmem)
  obtain ⟨y,hy⟩ := firstLive_exists (q := fun obj : GemObject => obj.handle = handle)
    (fun z hz => h.counted.live_iff.mpr (h.live hf hz)) hmem hg (by
      simpa [Device.handleOf,hg] using hh)
  have hres : d.resolve file handle = some y := by
    rw [Device.resolve,if_neg hzero,hf]
    exact hy
  have hsame := h.distinct.object_eq (hsound y hres) hn rfl
  rw [hres]
  exact congrArg (fun n => some n.object) hsame

end Names

section Changes

theorem namesOf_congr (hfile : d'.file f = d.file f)
    (hhandle : ∀ o ∈ d.objectsOf f, d'.handleOf o = d.handleOf o) : d'.namesOf f = d.namesOf f := by
  have hobjects : d'.objectsOf f = d.objectsOf f := by simp only [Device.objectsOf,hfile]
  rw [Device.namesOf,Device.namesOf,hobjects]
  exact List.map_congr_left fun o ho => by rw [hhandle o ho]

theorem mem_objects (hf : f ∈ d.files) (ho : o ∈ d.objectsOf f) : o ∈ d.names.map Naming.object :=
  List.mem_map.mpr ⟨⟨f,(d.handleOf o).getD 0,o⟩,mem_names.mpr ⟨hf,ho,rfl⟩,rfl⟩

theorem mem_refs_of_objectsOf (hf : f ∈ d.files) (ho : o ∈ d.objectsOf f) : o ∈ d.refs :=
  List.mem_append_left _ (mem_objects hf ho)

theorem planesOf_congr (h : d'.framebuffers = d.framebuffers) : d'.planesOf p = d.planesOf p := by
  simp only [Device.planesOf,h]

theorem fbRefs_congr (hfbs : d'.fbs = d.fbs) (hfb : d'.framebuffers = d.framebuffers) :
    d'.fbRefs = d.fbRefs := by
  have hplanes : d'.planesOf = d.planesOf := funext fun p => planesOf_congr hfb
  rw [Device.fbRefs,Device.fbRefs,hfbs,hplanes]

theorem Kept.names_eq (h : Kept d.refs d d') : d'.names = d.names := by
  rw [Device.names,Device.names,h.files]
  refine List.flatMap_congr fun f hf => namesOf_congr (congrFun h.file f) fun o ho => ?_
  exact h.handle o (mem_refs_of_objectsOf hf ho)

theorem Kept.refs_eq (h : Kept d.refs d d') : d'.refs = d.refs := by
  rw [Device.refs,Device.refs,h.names_eq,fbRefs_congr h.fbs h.framebuffers]

theorem Shaped.kept (h : Shaped d) (hkept : Kept d.refs d d') (hcounted : Counted d' d.refs) :
    Consistent d' := by
  refine ⟨⟨?_,?_,?_,?_,?_,?_⟩,?_⟩
  · rw [hkept.names_eq]
    exact h.distinct
  · rw [hkept.files]
    exact h.files
  · rw [hkept.files,hkept.file]
    exact h.open_iff
  · rw [hkept.fbs]
    exact h.fbs
  · rw [hkept.fbs,hkept.framebuffers]
    exact h.fb_iff
  · intro p
    rw [planesOf_congr hkept.framebuffers]
    exact h.planes p
  · rw [hkept.refs_eq]
    exact hcounted

theorem flatMap_split {β : Type} {l : List Nat} (g : Nat → List β) (hf : f ∈ l) :
    (l.flatMap g).Perm (g f ++ (l.erase f).flatMap g) :=
  (List.perm_cons_erase hf).flatMap_right g

theorem names_split (d' : Device) (hnodup : d.files.Nodup) (hf : f ∈ d.files) (hfiles : d'.files = d.files)
    (hother : ∀ g ∈ d.files, g ≠ f → d'.namesOf g = d.namesOf g) :
    ∃ rest, d.names.Perm (d.namesOf f ++ rest) ∧ d'.names.Perm (d'.namesOf f ++ rest) := by
  refine ⟨(d.files.erase f).flatMap d.namesOf,flatMap_split _ hf,?_⟩
  have hrest : (d.files.erase f).flatMap d'.namesOf = (d.files.erase f).flatMap d.namesOf := by
    refine List.flatMap_congr fun g hg => ?_
    obtain ⟨hne,hmem⟩ := hnodup.mem_erase_iff.mp hg
    exact hother g hmem hne
  rw [← hrest,Device.names,hfiles]
  exact flatMap_split _ hf

structure Pushed (f handle o : Nat) (x : File) (d d' : Device) : Prop where
  file : d'.file = Function.update d.file f (some { x with objects := x.objects ++ [o] })
  files : d'.files = d.files
  framebuffers : d'.framebuffers = d.framebuffers
  fbs : d'.fbs = d.fbs
  new : d'.handleOf o = some handle
  others : ∀ y, y ≠ o → d'.handleOf y = d.handleOf y

theorem Consistent.push {x : File} (h : Consistent d) (hf : d.file f = some x)
    (hp : Pushed f handle o x d d') (hcounted : Counted d' (o :: d.refs)) (hzero : handle ≠ 0)
    (hobject : o ∉ d.names.map Naming.object)
    (hkey : ∀ m ∈ d.names, (m.file,m.handle) ≠ (f,handle)) :
    Consistent d' ∧ d'.names.Perm (⟨f,handle,o⟩ :: d.names) := by
  have hmem : f ∈ d.files := (h.open_iff f).mpr (by rw [hf]; rfl)
  have hother : ∀ g ∈ d.files, ∀ y ∈ d.objectsOf g, y ≠ o := by
    rintro g hg y hy rfl
    exact hobject (mem_objects hg hy)
  obtain ⟨rest,hold,hnew⟩ := names_split d' h.files hmem hp.files fun g hg hne =>
    namesOf_congr (by rw [hp.file,Function.update_of_ne hne]) fun y hy => hp.others y (hother g hg y hy)
  have hobjects : d.objectsOf f = x.objects := by simp only [Device.objectsOf,hf]
  have hobjects' : d'.objectsOf f = x.objects ++ [o] := by
    simp only [Device.objectsOf,hp.file,Function.update_self]
  have hof : d'.namesOf f = d.namesOf f ++ [⟨f,handle,o⟩] := by
    rw [Device.namesOf,Device.namesOf,hobjects,hobjects',List.map_append,List.map_singleton,hp.new]
    refine congrArg (· ++ _) (List.map_congr_left fun y hy => ?_)
    rw [hp.others y (hother f hmem y (hobjects ▸ hy))]
  have hnames : d'.names.Perm (⟨f,handle,o⟩ :: d.names) := by
    rw [hof,List.append_assoc] at hnew
    exact hnew.trans (List.perm_middle.trans (hold.symm.cons _))
  refine ⟨⟨⟨?_,?_,?_,?_,?_,?_⟩,?_⟩,hnames⟩
  · exact (h.distinct.cons hkey hobject hzero).perm hnames
  · rw [hp.files]
    exact h.files
  · intro g
    rw [hp.files,hp.file,Function.update_apply,h.open_iff]
    split_ifs with heq
    · simp [heq,hf]
    · rfl
  · rw [hp.fbs]
    exact h.fbs
  · rw [hp.fbs,hp.framebuffers]
    exact h.fb_iff
  · intro p
    rw [planesOf_congr hp.framebuffers]
    exact h.planes p
  · refine hcounted.perm ?_
    rw [Device.refs,Device.refs,fbRefs_congr hp.fbs hp.framebuffers]
    exact (hnames.map Naming.object).append_right _

end Changes

end SabaOS.Drm
