import SabaOS.Drm.HandleOps

namespace SabaOS.Drm

open SabaOS.Lib

variable {d d' : Device} {named : List Naming} {refs : List Nat} {f handle o p : Nat} {x : File}
variable {fb : Framebuffer}

section Remove

def Device.unlist (d : Device) (p : Nat) : Device :=
  { d.setFramebuffer p none with fbs := d.fbs.erase p }

theorem Kept.setFramebuffer {y : Option Framebuffer} (h : Kept refs d d') :
    Kept refs (d.setFramebuffer p y) (d'.setFramebuffer p y) := by
  refine ⟨h.file,h.files,?_,h.fbs,h.nextHandle,h.handle⟩
  show Function.update d'.framebuffers p y = Function.update d.framebuffers p y
  rw [h.framebuffers]

theorem fbRefs_unlist (h : Shaped d) (hmem : p ∈ d.fbs) :
    d.fbRefs.Perm (d.planesOf p ++ (d.unlist p).fbRefs) := by
  have hrest : (d.fbs.erase p).flatMap (d.unlist p).planesOf = (d.fbs.erase p).flatMap d.planesOf := by
    refine List.flatMap_congr fun q hq => ?_
    have hne : q ≠ p := (h.fbs.mem_erase_iff.mp hq).1
    simp only [Device.planesOf,Device.unlist,Device.setFramebuffer,Function.update_of_ne hne]
  have hrefs : (d.unlist p).fbRefs = (d.fbs.erase p).flatMap d.planesOf := hrest
  rw [hrefs]
  exact flatMap_split _ hmem

theorem Shaped.unlist (h : Shaped d) : Shaped (d.unlist p) := by
  refine ⟨h.distinct,h.files,h.open_iff,h.fbs.erase p,fun q => ?_,fun q => ?_⟩
  · show q ∈ d.fbs.erase p ↔ (Function.update d.framebuffers p none q).isSome
    rw [h.fbs.mem_erase_iff,h.fb_iff,Function.update_apply]
    split_ifs with heq
    · simp [heq]
    · simp [heq]
  · rcases eq_or_ne q p with rfl | hne
    · simp only [Device.planesOf,Device.unlist,Device.setFramebuffer,Function.update_self]
      exact List.nodup_nil
    · simp only [Device.planesOf,Device.unlist,Device.setFramebuffer,Function.update_of_ne hne]
      exact h.planes q

theorem framebufferDestroy_ok [Console] (h : Counted d (fb.planes ++ refs))
    (hfb : d.framebuffers p = some fb)
    (hprints : ∀ o ∈ fb.planes, o ∉ refs → Console.returns destroyingFormat = true) :
    ∃ d', framebufferDestroy p ⟨d,[]⟩ = .ok ((),⟨d'.setFramebuffer p none,[]⟩) ∧ Counted d' refs ∧
      Kept refs d d' := by
  obtain ⟨d',hrun,hcounted,hkept⟩ := destroyAll_ok h hprints
  have hread : readFramebuffer p ⟨d,[]⟩ = .ok (fb,⟨d,[]⟩) := readFramebuffer_ok hfb
  refine ⟨d',?_,hcounted,hkept⟩
  rw [framebufferDestroy,Exec.bind_ok hread,Exec.bind_ok hrun]
  rfl

theorem framebufferLookup_ok {held : List Lock} {id : Nat} (h : Shaped d) :
    framebufferLookup id ⟨d,held⟩ = .ok (d.findFb id,⟨d,held⟩) := by
  rw [framebufferLookup,Device.findFb]
  split_ifs
  · rfl
  · rw [Exec.bind_ok device_ok]
    rcases findBy_cases (s := ⟨d,held⟩) (p := fun fb : Framebuffer => fb.id = id)
      (fun q => show readFramebuffer q _ = orFault (d.framebuffers q) _ from rfl) d.fbs with
      hok | ⟨-,-,q,hq,hdead⟩
    · exact hok
    · have hlive := (h.fb_iff q).mp hq
      rw [hdead] at hlive
      cases hlive

theorem modeRmfb_settles [Console] {id : Nat} (h : Consistent d)
    (hdrop : ∀ p, d.findFb id = some p → ∀ o ∈ d.planesOf p, d.CanDrop o) (hn : named.Perm d.names) :
    Settles d (modeRmfb id) fun _ => named := by
  rw [Settles,modeRmfb]
  split_ifs with hzero
  · exact h.stays rfl hn
  · rw [Exec.bind_ok (lock_ok rfl),Exec.bind_ok (framebufferLookup_ok h.toShaped)]
    cases hfind : d.findFb id with
    | none => exact ⟨_,d,rfl,h,hn⟩
    | some p =>
      have hplanesDrop := hdrop p hfind
      rw [Device.findFb,if_neg hzero] at hfind
      obtain ⟨hmem,fb,hfb,-⟩ := firstLive_some hfind
      have hplanes : d.planesOf p = fb.planes := by simp only [Device.planesOf,hfb]
      have hperm : (fb.planes ++ (d.unlist p).refs).Perm d.refs := by
        have hsplit := fbRefs_unlist h.toShaped hmem
        rw [hplanes] at hsplit
        refine List.Perm.trans ?_ (hsplit.symm.append_left _)
        exact List.perm_append_comm_assoc ..
      have hcounted : Counted { d with fbs := d.fbs.erase p } d.refs := h.counted.congr rfl rfl
      obtain ⟨d₁,hdestroy,hcounted',hkept⟩ := framebufferDestroy_ok (hcounted.perm hperm) hfb
        fun o ho hnot => hplanesDrop o (hplanes ▸ ho) (h.last hperm (hplanes ▸ h.planes p) ho hnot)
      have hkept' : Kept (d.unlist p).refs (d.unlist p) (d₁.setFramebuffer p none) :=
        hkept.setFramebuffer
      dsimp only
      rw [Exec.bind_ok setDevice_ok,Exec.bind_ok unlock_ok]
      refine ⟨_,_,Exec.bind_ok hdestroy,h.toShaped.unlist.kept hkept' (hcounted'.congr rfl rfl),?_⟩
      rw [hkept'.names_eq]
      exact hn

end Remove

section Attach

structure Attached (p : Nat) (refs : List Nat) (d d' : Device) : Prop where
  file : d'.file = d.file
  files : d'.files = d.files
  framebuffers : ∀ q, q ≠ p → d'.framebuffers q = d.framebuffers q
  fbs : d'.fbs = d.fbs
  handle : ∀ o ∈ refs, d'.handleOf o = d.handleOf o

theorem Attached.trans {d'' : Device} (h : Attached p refs d d') (h' : Attached p refs d' d'') :
    Attached p refs d d'' :=
  ⟨h'.file.trans h.file,h'.files.trans h.files,
    fun q hq => (h'.framebuffers q hq).trans (h.framebuffers q hq),h'.fbs.trans h.fbs,
    fun o ho => (h'.handle o ho).trans (h.handle o ho)⟩

theorem Kept.attached {kept : List Nat} {y : Option Framebuffer} (h : Kept kept d d')
    (hsub : ∀ o ∈ refs, o ∈ kept) : Attached p refs d (d'.setFramebuffer p y) := by
  refine ⟨h.file,h.files,fun q hq => ?_,h.fbs,fun o ho => h.handle o (hsub o ho)⟩
  show Function.update d'.framebuffers p y q = d.framebuffers q
  rw [Function.update_of_ne hq,h.framebuffers]

theorem resolve_congr (hfile : d'.file = d.file)
    (hhandle : ∀ o ∈ d.objectsOf f, d'.handleOf o = d.handleOf o) :
    d'.resolve f handle = d.resolve f handle := by
  rw [Device.resolve,Device.resolve,hfile]
  split_ifs
  · rfl
  · cases hf : d.file f with
    | none => rfl
    | some x =>
      simp only [Device.objectsOf,hf] at hhandle
      refine firstLive_congr fun o ho => ?_
      have hmap := congrArg (Option.map fun k : Nat => decide (k = handle)) (hhandle o ho)
      rw [Device.handleOf,Device.handleOf,Option.map_map,Option.map_map] at hmap
      exact hmap

theorem handleOf_resolve (h : d.resolve f handle = some o) : d.handleOf o = some handle := by
  rw [Device.resolve] at h
  split_ifs at h
  cases hf : d.file f with
  | none => simp [hf] at h
  | some x =>
    simp only [hf] at h
    obtain ⟨-,g,hg,hh⟩ := firstLive_some h
    rw [Device.handleOf,hg]
    simpa using hh

theorem filterMap_update {g : Fin 4 → Option Nat} {i : Fin 4} {l : List (Fin 4)} (hnodup : l.Nodup)
    (hmem : i ∈ l) (hi : g i = none) :
    (l.filterMap (Function.update g i (some o))).Perm (o :: l.filterMap g) := by
  induction l with
  | nil => cases hmem
  | cons j l ih =>
    rw [List.nodup_cons] at hnodup
    rcases List.mem_cons.mp hmem with rfl | hmem
    · have hrest : l.filterMap (Function.update g i (some o)) = l.filterMap g := by
        refine List.filterMap_congr fun k hk => Function.update_of_ne ?_ _ _
        rintro rfl
        exact hnodup.1 hk
      rw [List.filterMap_cons_some (Function.update_self ..),List.filterMap_cons_none hi,hrest]
    · have hne : j ≠ i := by
        rintro rfl
        exact hnodup.1 hmem
      have hrest := ih hnodup.2 hmem
      cases hj : g j with
      | none =>
        rw [List.filterMap_cons_none ((Function.update_of_ne hne _ _).trans hj),
          List.filterMap_cons_none hj]
        exact hrest
      | some y =>
        rw [List.filterMap_cons_some ((Function.update_of_ne hne _ _).trans hj),
          List.filterMap_cons_some hj]
        exact (hrest.cons y).trans (List.Perm.swap ..)

def Framebuffer.attach (fb : Framebuffer) (cmd : FbCmd2) (i : Fin 4) (o : Nat) : Framebuffer :=
  { fb with
    obj := Function.update fb.obj i (some o)
    pitches := Function.update fb.pitches i (cmd.pitches i)
    offsets := Function.update fb.offsets i (cmd.offsets i)
    modifiers := Function.update fb.modifiers i (cmd.modifier i) }

theorem planes_attach (cmd : FbCmd2) (o : Nat) {i : Fin 4} (hi : fb.obj i = none) :
    (fb.attach cmd i o).planes.Perm (o :: fb.planes) :=
  filterMap_update (List.nodup_finRange 4) (List.mem_finRange i) hi

theorem attachObjects_ok {cmd : FbCmd2} {is : List (Fin 4)} (hf : d.file f = some x)
    (hlive : ∀ o ∈ x.objects, o ∈ refs) (hfb : d.framebuffers p = some fb)
    (hcounted : Counted d (fb.planes ++ refs)) (hplanes : fb.planes.Nodup) (hnodup : is.Nodup)
    (hempty : ∀ i ∈ is, fb.obj i = none)
    (hnames : ∀ i ∈ is, cmd.handles i ≠ 0 → ∃ o, d.resolve f (cmd.handles i) = some o ∧
      o ∉ fb.planes ∧ refs.count o + 1 < u32Bound)
    (hdiff : ∀ i ∈ is, ∀ j ∈ is, i ≠ j → cmd.handles i ≠ 0 → cmd.handles i ≠ cmd.handles j) :
    ∃ d' fb', attachObjects f p cmd is ⟨d,[]⟩ = .ok (true,⟨d',[]⟩) ∧ d'.framebuffers p = some fb' ∧
      Counted d' (fb'.planes ++ refs) ∧ fb'.planes.Nodup ∧ Attached p refs d d' := by
  induction is generalizing d fb with
  | nil => exact ⟨d,fb,rfl,hfb,hcounted,hplanes,rfl,rfl,fun _ _ => rfl,rfl,fun _ _ => rfl⟩
  | cons i is ih =>
    rw [List.nodup_cons] at hnodup
    have hmem : ∀ j ∈ is, j ∈ i :: is := fun _ => List.mem_cons_of_mem i
    rw [attachObjects]
    split_ifs with hzero
    · exact ih hf hfb hcounted hplanes hnodup.2 (fun j hj => hempty j (hmem j hj))
        (fun j hj => hnames j (hmem j hj)) fun j hj k hk => hdiff j (hmem j hj) k (hmem k hk)
    · obtain ⟨o,hres,hout,hroom⟩ := hnames i List.mem_cons_self hzero
      have hsub : ∀ y ∈ refs, y ∈ fb.planes ++ refs := fun y => List.mem_append_right _
      rcases gemObjectLookup_ok (cmd.handles i) hcounted hf (fun y hy => hsub y (hlive y hy))
        (fun y hy => by
          cases hy.symm.trans hres
          rw [List.count_append,List.count_eq_zero.mpr hout,Nat.zero_add]
          exact hroom) with ⟨hnone,-⟩ | ⟨o',d₁,hres',hrun,hcounted₁,hkept⟩
      · cases hnone.symm.trans hres
      · cases hres'.symm.trans hres
        have hcounted₂ : Counted (d₁.setFramebuffer p (some (fb.attach cmd i o)))
            (o :: (fb.planes ++ refs)) := hcounted₁.congr rfl rfl
        have hset : (d₁.setFramebuffer p (some (fb.attach cmd i o))).framebuffers p =
            some (fb.attach cmd i o) := Function.update_self ..
        have hattached : Attached p refs d (d₁.setFramebuffer p (some (fb.attach cmd i o))) :=
          hkept.attached hsub
        have hperm := planes_attach cmd o (hempty i List.mem_cons_self)
        have hread : readFramebuffer p ⟨d₁,[]⟩ = .ok (fb,⟨d₁,[]⟩) :=
          readFramebuffer_ok (by rw [hkept.framebuffers,hfb])
        have hsame : ∀ h, (d₁.setFramebuffer p (some (fb.attach cmd i o))).resolve f h = d.resolve f h := by
          intro h
          refine resolve_congr hattached.file fun y hy => hattached.handle y (hlive y ?_)
          simpa only [Device.objectsOf,hf] using hy
        obtain ⟨d',fb',hrun',hfb',hcounted',hplanes',hattached'⟩ := ih
          (by rw [hattached.file,hf]) hset
          (hcounted₂.perm (hperm.append_right refs))
          (hperm.nodup_iff.mpr (List.nodup_cons.mpr ⟨hout,hplanes⟩)) hnodup.2
          (fun j hj => by
            refine (Function.update_of_ne ?_ _ _).trans (hempty j (hmem j hj))
            rintro rfl
            exact hnodup.1 hj)
          (fun j hj hne => by
            obtain ⟨y,hy,houty,hroomy⟩ := hnames j (hmem j hj) hne
            refine ⟨y,(hsame _).trans hy,fun hin => ?_,hroomy⟩
            rcases List.mem_cons.mp (hperm.mem_iff.mp hin) with rfl | hin
            · have hij : i ≠ j := by
                rintro rfl
                exact hnodup.1 hj
              refine hdiff i List.mem_cons_self j (hmem j hj) hij hzero ?_
              exact Option.some.inj ((handleOf_resolve hres).symm.trans (handleOf_resolve hy))
            · exact houty hin)
          fun j hj k hk => hdiff j (hmem j hj) k (hmem k hk)
        refine ⟨d',fb',?_,hfb',hcounted',hplanes',hattached.trans hattached'⟩
        rw [Exec.bind_ok hrun]
        dsimp only
        rw [Exec.bind_ok hread,Exec.bind_ok setDevice_ok]
        exact hrun'

theorem Consistent.attached (h : Consistent d) (hfresh : d.framebuffers p = none)
    (hfile : d'.file = d.file) (hfiles : d'.files = d.files)
    (hother : ∀ q, q ≠ p → d'.framebuffers q = d.framebuffers q) (hfbs : d'.fbs = d.fbs ++ [p])
    (hhandle : ∀ o ∈ d.refs, d'.handleOf o = d.handleOf o) (hfb : d'.framebuffers p = some fb)
    (hplanes : fb.planes.Nodup) (hcounted : Counted d' (fb.planes ++ d.refs)) :
    Consistent d' ∧ d'.names = d.names := by
  have hnot : p ∉ d.fbs := by
    rw [h.fb_iff,hfresh]
    exact Bool.false_ne_true
  have hnames : d'.names = d.names := by
    rw [Device.names,Device.names,hfiles]
    refine List.flatMap_congr fun g hg => namesOf_congr (congrFun hfile g) fun o ho => ?_
    exact hhandle o (mem_refs_of_objectsOf hg ho)
  have hof : d'.planesOf p = fb.planes := by simp only [Device.planesOf,hfb]
  have hold : d.fbs.flatMap d'.planesOf = d.fbRefs := by
    refine List.flatMap_congr fun q hq => ?_
    simp only [Device.planesOf,hother q (ne_of_mem_of_not_mem hq hnot)]
  have hrefs : d'.fbRefs = d.fbRefs ++ fb.planes := by
    rw [Device.fbRefs,hfbs,List.flatMap_append,hold,List.flatMap_singleton,hof]
  refine ⟨⟨⟨?_,?_,?_,?_,?_,?_⟩,?_⟩,hnames⟩
  · rw [hnames]
    exact h.distinct
  · rw [hfiles]
    exact h.files
  · rw [hfiles,hfile]
    exact h.open_iff
  · rw [hfbs]
    refine h.fbs.append (List.nodup_singleton p) fun q hq hsame => ?_
    rw [List.mem_singleton.mp hsame] at hq
    exact hnot hq
  · intro q
    rw [hfbs,List.mem_append,List.mem_singleton]
    rcases eq_or_ne q p with rfl | hne
    · simp [hfb]
    · rw [hother q hne,h.fb_iff]
      simp [hne]
  · intro q
    rcases eq_or_ne q p with rfl | hne
    · rw [hof]
      exact hplanes
    · have hsame : d'.planesOf q = d.planesOf q := by simp only [Device.planesOf,hother q hne]
      rw [hsame]
      exact h.planes q
  · refine hcounted.perm ?_
    rw [Device.refs,hnames,hrefs,← List.append_assoc]
    exact List.perm_append_comm

def FbCmd2.refused (cmd : FbCmd2) (alloc : Option Nat) : Prop :=
  cmd.width = 0 ∨ cmd.height = 0 ∨ cmd.handles 0 = 0 ∨ alloc = none

structure FbCmd2.Resolves (cmd : FbCmd2) (d : Device) (f : Nat) : Prop where
  named : ∀ i, cmd.handles i ≠ 0 → ∃ o, d.resolve f (cmd.handles i) = some o ∧ d.room o
  once : ∀ i j, i ≠ j → cmd.handles i ≠ 0 → cmd.handles i ≠ cmd.handles j

def FbCmd2.frame (cmd : FbCmd2) (id : Nat) : Framebuffer where
  id := id
  width := cmd.width
  height := cmd.height
  pitch := cmd.pitches 0
  bpp := (formatBits cmd.pixelFormat).1
  depth := (formatBits cmd.pixelFormat).2
  pixelFormat := cmd.pixelFormat
  obj := fun _ => none
  pitches := fun _ => 0
  offsets := fun _ => 0
  modifiers := fun _ => 0

def Device.list (d : Device) (p : Nat) (fb : Framebuffer) : Device :=
  { d.setFramebuffer p (some fb) with
    nextFbId := increment d.nextFbId
    fbs := d.fbs ++ [p] }

theorem Consistent.attachObjects {cmd : FbCmd2} (h : Consistent d) (hf : d.file f = some x)
    (hp : d.framebuffers p = none) (hcmd : cmd.Resolves d f) :
    ∃ d' fb, attachObjects f p cmd (List.finRange 4) ⟨d.list p (cmd.frame d.nextFbId),[]⟩ =
        .ok (true,⟨d',[]⟩) ∧ d'.framebuffers p = some fb ∧ Consistent d' ∧ d'.names = d.names := by
  have hres : ∀ k, (d.list p (cmd.frame d.nextFbId)).resolve f k = d.resolve f k :=
    fun _ => resolve_congr rfl fun _ _ => rfl
  have hcounted : Counted (d.list p (cmd.frame d.nextFbId)) d.refs := h.counted.congr rfl rfl
  have hset : (d.list p (cmd.frame d.nextFbId)).framebuffers p = some (cmd.frame d.nextFbId) :=
    Function.update_self ..
  have hnamed : ∀ i ∈ List.finRange 4, cmd.handles i ≠ 0 → ∃ o,
      (d.list p (cmd.frame d.nextFbId)).resolve f (cmd.handles i) = some o ∧
      o ∉ (cmd.frame d.nextFbId).planes ∧ d.refs.count o + 1 < u32Bound := by
    intro i _ hi
    obtain ⟨o,ho,hroom⟩ := hcmd.named i hi
    exact ⟨o,(hres _).trans ho,List.not_mem_nil,h.room hroom⟩
  obtain ⟨d',fb,hrun,hfb,hcounted',hplanes,hattached⟩ := attachObjects_ok (d := d.list p _) hf
    (fun _ ho => h.live hf ho) hset hcounted List.nodup_nil (List.nodup_finRange 4) (fun _ _ => rfl)
    hnamed fun i _ j _ => hcmd.once i j
  obtain ⟨hd,hnames⟩ := h.attached hp hattached.file hattached.files (fun q hq =>
    (hattached.framebuffers q hq).trans (Function.update_of_ne hq _ _)) hattached.fbs
    hattached.handle hfb hplanes hcounted'
  exact ⟨d',fb,hrun,hfb,hd,hnames⟩

theorem modeAddfb2_settles [Console] {alloc : Option Nat} {cmd : FbCmd2} (h : Consistent d)
    (hf : d.file f = some x) (hfresh : ∀ p, alloc = some p → d.framebuffers p = none)
    (hcmd : cmd.refused alloc ∨ cmd.Resolves d f) (hn : named.Perm d.names) :
    Settles d (modeAddfb2 f alloc cmd) fun _ => named := by
  rw [Settles,modeAddfb2]
  split_ifs with hsize hzero hcreate
  · exact h.stays rfl hn
  · exact h.stays rfl hn
  · exact absurd hcreate (by decide)
  · cases alloc with
    | none => exact ⟨_,d,rfl,h,hn⟩
    | some p =>
      have hresolves : cmd.Resolves d f := by
        rcases hcmd with hrefused | hresolves
        · simp [FbCmd2.refused,not_or.mp hsize,hzero] at hrefused
        · exact hresolves
      obtain ⟨d',fb,hrun,hfb,hd,hnames⟩ := h.attachObjects hf (hfresh p rfl) hresolves
      have hnew : readFramebuffer p ⟨d.list p ⟨d.nextFbId,0,0,0,0,0,0,fun _ => none,fun _ => 0,
          fun _ => 0,fun _ => 0⟩,[]⟩ = .ok (_,_) := readFramebuffer_ok (Function.update_self ..)
      have hset : (d.list p ⟨d.nextFbId,0,0,0,0,0,0,fun _ => none,fun _ => 0,fun _ => 0,
          fun _ => 0⟩).setFramebuffer p (some (cmd.frame d.nextFbId)) =
          d.list p (cmd.frame d.nextFbId) := by
        simp only [Device.list,Device.setFramebuffer,Function.update_idem]
      have hread : readFramebuffer p ⟨d',[]⟩ = .ok (fb,⟨d',[]⟩) := readFramebuffer_ok hfb
      have hcreate : framebufferCreate (some p) ⟨d,[]⟩ = .ok (some p,⟨d.list p ⟨d.nextFbId,0,0,0,0,0,0,
          fun _ => none,fun _ => 0,fun _ => 0,fun _ => 0⟩,[]⟩) := rfl
      rw [Exec.bind_ok hcreate]
      dsimp only
      rw [Exec.bind_ok hnew,Exec.bind_ok setDevice_ok]
      dsimp only
      have hattach := (congrArg (fun e =>
        Drm.attachObjects f p cmd (List.finRange 4) ⟨e,[]⟩) hset).trans hrun
      refine ⟨.fbId fb.id,d',(Exec.bind_ok hattach).trans ?_,hd,hnames ▸ hn⟩
      rw [if_pos rfl,Exec.bind_ok hread]
      rfl

end Attach

end SabaOS.Drm
