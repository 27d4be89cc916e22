import SabaOS.Drm.Handles

namespace SabaOS.Drm

open SabaOS.Lib

def Device.byName (d : Device) (name : Nat) : Option Nat :=
  firstLive d.gems (fun obj => obj.name = name) d.gemObjects

def Device.room (d : Device) (o : Nat) : Prop := ∀ n, d.refcountOf o = some n → n + 1 < u32Bound

def Settles {α : Type} (d : Device) (c : Command α) (named : α → List Naming) : Prop :=
  ∃ r d', c ⟨d,[]⟩ = .ok (r,⟨d',[]⟩) ∧ Consistent d' ∧ (named r).Perm d'.names

variable {α β : Type} {d d' : Device} {named : List Naming} {f file handle o p : Nat} {x : File}

theorem Consistent.stays {r : α} {c : Command α} {names : α → List Naming} (h : Consistent d)
    (hrun : c ⟨d,[]⟩ = .ok (r,⟨d,[]⟩)) (hn : (names r).Perm d.names) : Settles d c names :=
  ⟨r,d,hrun,h,hn⟩

theorem Settles.map {c : Command α} {g : α → β} {names : β → List Naming}
    (h : Settles d c fun r => names (g r)) : Settles d (c >>= fun r => pure (g r)) names := by
  obtain ⟨r,d',hrun,hd,hn⟩ := h
  exact ⟨g r,d',Exec.bind_ok hrun,hd,hn⟩

theorem Consistent.room (h : Consistent d) (ho : d.room o) : d.refs.count o + 1 < u32Bound := by
  by_cases hmem : o ∈ d.refs
  · exact ho _ (h.counted.counts.of_mem hmem)
  · rw [List.count_eq_zero.mpr hmem]
    unfold u32Bound
    omega

section Lookup

theorem Consistent.lookup (h : Consistent d) (hf : d.file f = some x)
    (hroom : ∀ o, d.resolve f handle = some o → d.room o) :
    d.resolve f handle = none ∧ gemObjectLookup f handle ⟨d,[]⟩ = .ok (none,⟨d,[]⟩) ∨
      ∃ o d', d.resolve f handle = some o ∧
        gemObjectLookup f handle ⟨d,[]⟩ = .ok (some o,⟨d',[]⟩) ∧
        Counted d' (o :: d.refs) ∧ Kept d.refs d d' :=
  gemObjectLookup_ok handle h.counted hf (fun _ ho => h.live hf ho) fun o ho => h.room (hroom o ho)

theorem Consistent.resolved_mem (h : Consistent d) (hres : d.resolve f handle = some o) : o ∈ d.refs :=
  List.mem_append_left _ (List.mem_map.mpr ⟨⟨f,handle,o⟩,h.resolve_iff.mp hres,rfl⟩)

section GivesBack

variable [Console]

theorem Consistent.gives_back (h : Consistent d) (hcounted : Counted d' (o :: d.refs))
    (hkept : Kept d.refs d d') (ho : o ∈ d.refs) :
    ∃ d'', gemObjectDestroy o ⟨d',[]⟩ = .ok ((),⟨d'',[]⟩) ∧
      Consistent d'' ∧ d''.names = d.names := by
  obtain ⟨d'',hrun,hcounted',hkept'⟩ := gemObjectDestroy_ok hcounted fun hnot => absurd ho hnot
  have hall := hkept.trans hkept' fun _ ho => ho
  exact ⟨d'',hrun,h.toShaped.kept hall hcounted',hall.names_eq⟩

theorem modeMapDumb_settles (h : Consistent d) (hf : d.file f = some x)
    (hroom : ∀ o, d.resolve f handle = some o → d.room o)
    (hn : named.Perm d.names) : Settles d (modeMapDumb f handle) fun _ => named := by
  rw [Settles,modeMapDumb]
  rcases h.lookup hf hroom with ⟨-,hrun⟩ | ⟨o,d₁,hres,hrun,hcounted,hkept⟩
  · rw [Exec.bind_ok hrun]
    exact h.stays rfl hn
  · obtain ⟨d₂,hdestroy,hd,hnames⟩ := h.gives_back hcounted hkept (h.resolved_mem hres)
    rw [Exec.bind_ok hrun]
    dsimp only
    rw [Exec.bind_ok hdestroy]
    refine ⟨_,d₂,rfl,hd,?_⟩
    rw [hnames]
    exact hn

end GivesBack

theorem Counted.congr {refs : List Nat} (h : Counted d refs) (hr : d'.refcountOf = d.refcountOf)
    (hl : d'.gemObjects = d.gemObjects) : Counted d' refs := by
  refine ⟨hr ▸ h.counts,h.small,hl ▸ h.nodup,fun y => ?_⟩
  have hlive : (d'.gems y).isSome = (d.gems y).isSome := by
    rw [← Option.isSome_map (f := GemObject.refcount),← Option.isSome_map (f := GemObject.refcount)]
    exact congrArg Option.isSome (congrFun hr y)
  rw [hl,hlive]
  exact h.listed y

theorem Counted.rename {refs kept : List Nat} {g : GemObject} {n m : Nat} (h : Counted d refs)
    (hg : d.gems o = some g) :
    Counted { d.setGem o (some { g with name := n }) with nextGemName := m } refs ∧
      Kept kept d { d.setGem o (some { g with name := n }) with nextGemName := m } :=
  ⟨h.congr (funext fun _ => update_map _ hg rfl) rfl,
    ⟨rfl,rfl,rfl,rfl,rfl,fun _ _ => update_map _ hg rfl⟩⟩

theorem gemFlink_settles [Console] (h : Consistent d) (hf : d.file f = some x)
    (hroom : ∀ o, d.resolve f handle = some o → d.room o)
    (hn : named.Perm d.names) : Settles d (gemFlink f handle) fun _ => named := by
  rw [Settles,gemFlink]
  split_ifs
  · exact h.stays rfl hn
  · rcases h.lookup hf hroom with ⟨-,hrun⟩ | ⟨o,d₁,hres,hrun,hcounted,hkept⟩
    · rw [Exec.bind_ok hrun]
      exact h.stays rfl hn
    · obtain ⟨g,hg,-⟩ := hcounted.get List.mem_cons_self
      have hread : readGem o ⟨d₁,[.gemName]⟩ = .ok (g,⟨d₁,[.gemName]⟩) := readGem_ok hg
      obtain ⟨hnamed,hsame⟩ := hcounted.rename (n := (takeId d₁.nextGemName).1)
        (m := (takeId d₁.nextGemName).2) hg
      obtain ⟨d₂,hdestroy,hd,hnames⟩ := h.gives_back hnamed
        (hkept.trans hsame fun _ ho => ho) (h.resolved_mem hres)
      rw [Exec.bind_ok hrun]
      dsimp only
      rw [Exec.bind_ok (show lock .gemName ⟨d₁,[]⟩ = .ok ((),⟨d₁,[.gemName]⟩) from rfl),
        Exec.bind_ok device_ok,Exec.bind_ok hread,Exec.bind_ok setDevice_ok]
      rw [Exec.bind_ok (show unlock .gemName ⟨_,[.gemName]⟩ = .ok ((),⟨_,[]⟩) from rfl),
        Exec.bind_ok hdestroy]
      refine ⟨_,d₂,rfl,hd,?_⟩
      rw [hnames]
      exact hn

end Lookup

section Removal

def without (f handle : Nat) (named : List Naming) : List Naming :=
  named.filter fun n => ¬(n.file = f ∧ n.handle = handle)

def withoutFile (f : Nat) (named : List Naming) : List Naming := named.filter fun n => n.file ≠ f

theorem without_perm {names rest : List Naming} (hd : Distinct names) (hn : named.Perm names)
    (hsplit : names.Perm (⟨f,handle,o⟩ :: rest)) : (without f handle named).Perm rest := by
  have hkeys := (hd.perm hsplit.symm).keys
  rw [List.map_cons,List.nodup_cons] at hkeys
  have hrest : without f handle rest = rest := by
    refine List.filter_eq_self.mpr fun n hmem => ?_
    rw [decide_eq_true_eq]
    rintro ⟨rfl,rfl⟩
    exact hkeys.1 (List.mem_map.mpr ⟨n,hmem,rfl⟩)
  have hfilter : (without f handle named).Perm (without f handle (⟨f,handle,o⟩ :: rest)) :=
    (hn.trans hsplit).filter _
  have hhead : without f handle (⟨f,handle,o⟩ :: rest) = without f handle rest :=
    List.filter_cons_of_neg (by simp)
  rwa [hhead,hrest] at hfilter

def Device.pop (d : Device) (f : Nat) (x : File) (o : Nat) : Device :=
  d.setFile f (some { x with objects := x.objects.erase o })

theorem names_pop (h : Shaped d) (hf : d.file f = some x) (hres : ⟨f,handle,o⟩ ∈ d.names) :
    d.names.Perm (⟨f,handle,o⟩ :: (d.pop f x o).names) := by
  obtain ⟨hmem,hobj,hh⟩ : f ∈ d.files ∧ o ∈ d.objectsOf f ∧ (d.handleOf o).getD 0 = handle :=
    mem_names.mp hres
  obtain ⟨rest,hold,hnew⟩ := names_split (d.pop f x o) h.files hmem rfl fun g _ hne =>
    namesOf_congr (Function.update_of_ne hne _ _) fun _ _ => rfl
  have hobjects : d.objectsOf f = x.objects := by simp only [Device.objectsOf,hf]
  have hobjects' : (d.pop f x o).objectsOf f = x.objects.erase o := by
    simp only [Device.objectsOf,Device.pop,Device.setFile,Function.update_self]
  have hof : (d.namesOf f).Perm (⟨f,handle,o⟩ ::
      (d.pop f x o).namesOf f) := by
    rw [Device.namesOf,Device.namesOf,hobjects,hobjects',← hh]
    exact (List.perm_cons_erase (hobjects ▸ hobj)).map _
  exact hold.trans ((hof.append_right rest).trans (hnew.symm.cons _))

theorem Shaped.pop (h : Shaped d) (hf : d.file f = some x) (hres : ⟨f,handle,o⟩ ∈ d.names) :
    Shaped (d.pop f x o) := by
  refine ⟨?_,h.files,fun g => ?_,h.fbs,h.fb_iff,h.planes⟩
  · exact (h.distinct.perm (names_pop h hf hres).symm).sublist (List.sublist_cons_self _ _)
  · show g ∈ d.files ↔ (Function.update d.file f _ g).isSome
    rw [Function.update_apply,h.open_iff]
    split_ifs with heq
    · simp [heq,hf]
    · rfl

theorem Consistent.last {os refs : List Nat} (h : Consistent d) (hperm : (os ++ refs).Perm d.refs)
    (hnodup : os.Nodup) (ho : o ∈ os) (hnot : o ∉ refs) : d.refcountOf o = some 1 := by
  have hcount : d.refs.count o = 1 := by
    rw [← hperm.count_eq,List.count_append,List.count_eq_one_of_mem hnodup ho,
      List.count_eq_zero.mpr hnot]
  rw [h.counted.counts.of_mem (hperm.mem_iff.mp (List.mem_append_left refs ho)),hcount]

def Device.CanDrop [Console] (d : Device) (o : Nat) : Prop :=
  d.refcountOf o = some 1 → Console.returns destroyingFormat = true

theorem gemHandleDelete_settles [Console] (h : Consistent d) (hf : d.file f = some x)
    (hdrop : ∀ o, d.resolve f handle = some o → d.CanDrop o) (hn : named.Perm d.names) :
    Settles d (gemHandleDelete f handle) fun r => if r < 0 then named else without f handle named := by
  rw [Settles,gemHandleDelete]
  split_ifs with hzero
  · exact h.stays rfl hn
  · have hfile : readFile f ⟨d,[.device]⟩ = .ok (x,⟨d,[.device]⟩) := readFile_ok hf
    have hfind : findBy readGem (fun obj => obj.handle = handle) x.objects ⟨d,[.device]⟩ =
        .ok (d.resolve f handle,⟨d,[.device]⟩) := by
      rw [Device.resolve,if_neg hzero,hf]
      rcases findBy_cases (s := ⟨d,[.device]⟩) (p := fun obj : GemObject => obj.handle = handle)
        (fun x => show readGem x _ = orFault (d.gems x) _ from rfl) x.objects with hok | ⟨-,-,y,hy,hdead⟩
      · exact hok
      · obtain ⟨g,hg,-⟩ := h.counted.get (h.live hf hy)
        cases hdead.symm.trans hg
    rw [Exec.bind_ok (lock_ok rfl),Exec.bind_ok hfile,Exec.bind_ok hfind]
    cases hres : d.resolve f handle with
    | none => exact ⟨enoent,d,rfl,h,hn⟩
    | some o =>
      have hmem := h.resolve_iff.mp hres
      have hpop := names_pop h.toShaped hf hmem
      have hperm : ([o] ++ (d.pop f x o).refs).Perm d.refs :=
        ((hpop.map Naming.object).append_right d.fbRefs).symm
      have hsame : Counted (d.pop f x o) d.refs := h.counted.congr rfl rfl
      obtain ⟨d₁,hdestroy,hcounted',hkept⟩ := gemObjectDestroy_ok (hsame.perm hperm) fun hnot =>
        hdrop o hres (h.last hperm (List.nodup_singleton o) (List.mem_singleton_self o) hnot)
      dsimp only
      rw [Exec.bind_ok setDevice_ok,Exec.bind_ok unlock_ok]
      refine ⟨0,d₁,Exec.bind_ok hdestroy,(h.toShaped.pop hf hmem).kept hkept hcounted',?_⟩
      rw [hkept.names_eq]
      exact without_perm h.distinct hn hpop

end Removal

section Files

theorem names_open (h : Shaped d) (hfile : d.file f = none) :
    ({ d.setFile f (some ⟨[],[]⟩) with files := d.files ++ [f] } : Device).names = d.names := by
  have hnot : f ∉ d.files := by
    rw [h.open_iff,hfile]
    exact Bool.false_ne_true
  have hold : d.files.flatMap ({ d.setFile f (some ⟨[],[]⟩) with files := d.files ++ [f] } : Device).namesOf =
      d.names := by
    refine List.flatMap_congr fun g hg => namesOf_congr (Function.update_of_ne ?_ _ _) fun _ _ => rfl
    rintro rfl
    exact hnot hg
  have hnew : ({ d.setFile f (some ⟨[],[]⟩) with files := d.files ++ [f] } : Device).namesOf f = [] := by
    simp only [Device.namesOf,Device.objectsOf,Device.setFile,Function.update_self,List.map_nil]
  show (d.files ++ [f]).flatMap _ = d.names
  rw [List.flatMap_append,hold,List.flatMap_singleton,hnew,List.append_nil]

theorem drmOpen_settles {alloc : Option Nat} (h : Consistent d)
    (hfresh : ∀ f, alloc = some f → d.file f = none) (hn : named.Perm d.names) :
    Settles d (drmOpen alloc) fun _ => named := by
  cases alloc with
  | none => exact h.stays rfl hn
  | some f =>
    have hfile := hfresh f rfl
    have hnames := names_open h.toShaped hfile
    refine ⟨_,{ d.setFile f (some ⟨[],[]⟩) with files := d.files ++ [f] },rfl,⟨⟨?_,?_,?_,?_,?_,?_⟩,?_⟩,?_⟩
    · rw [hnames]
      exact h.distinct
    · refine h.files.append (List.nodup_singleton f) fun g hg hsame => ?_
      rw [List.mem_singleton.mp hsame,h.open_iff,hfile] at hg
      exact Bool.false_ne_true hg
    · intro g
      show g ∈ d.files ++ [f] ↔ (Function.update d.file f (some ⟨[],[]⟩) g).isSome
      rw [List.mem_append,List.mem_singleton,h.open_iff,Function.update_apply]
      split_ifs with heq
      · simp [heq]
      · simp [heq]
    · exact h.fbs
    · exact h.fb_iff
    · exact h.planes
    · rw [Device.refs,hnames]
      exact h.counted.congr rfl rfl
    · rw [hnames]
      exact hn

def Device.shut (d : Device) (f : Nat) : Device := { d.setFile f none with files := d.files.erase f }

theorem names_shut (h : Shaped d) (hmem : f ∈ d.files) : d.names.Perm (d.namesOf f ++ (d.shut f).names) := by
  have hrest : (d.files.erase f).flatMap (d.shut f).namesOf = (d.files.erase f).flatMap d.namesOf := by
    refine List.flatMap_congr fun g hg => namesOf_congr (Function.update_of_ne ?_ _ _) fun _ _ => rfl
    exact (h.files.mem_erase_iff.mp hg).1
  have hnames : (d.shut f).names = (d.files.erase f).flatMap d.namesOf := hrest
  rw [hnames]
  exact flatMap_split _ hmem

theorem Shaped.shut (h : Shaped d) (hmem : f ∈ d.files) : Shaped (d.shut f) := by
  refine ⟨?_,h.files.erase f,fun g => ?_,h.fbs,h.fb_iff,h.planes⟩
  · exact (h.distinct.perm (names_shut h hmem).symm).sublist (List.sublist_append_right _ _)
  · show g ∈ d.files.erase f ↔ (Function.update d.file f none g).isSome
    rw [h.files.mem_erase_iff,h.open_iff,Function.update_apply]
    split_ifs with heq
    · simp [heq]
    · simp [heq]

theorem withoutFile_perm (h : Shaped d) (hmem : f ∈ d.files) (hn : named.Perm d.names) :
    (withoutFile f named).Perm (d.shut f).names := by
  have hof : withoutFile f (d.namesOf f) = [] := by
    refine List.filter_eq_nil_iff.mpr fun n hmem => ?_
    obtain ⟨o,-,rfl⟩ := List.mem_map.mp hmem
    simp
  have hrest : withoutFile f (d.shut f).names = (d.shut f).names := by
    refine List.filter_eq_self.mpr fun n hmem => ?_
    rw [decide_eq_true_eq]
    exact (h.files.mem_erase_iff.mp (mem_names.mp hmem).1).1
  have hfilter : (withoutFile f named).Perm (withoutFile f (d.namesOf f ++ (d.shut f).names)) :=
    (hn.trans (names_shut h hmem)).filter _
  have happ : withoutFile f (d.namesOf f ++ (d.shut f).names) =
      withoutFile f (d.namesOf f) ++ withoutFile f (d.shut f).names := List.filter_append _ _
  rwa [happ,hof,hrest,List.nil_append] at hfilter

theorem Kept.setFile {refs : List Nat} {y : Option File} (h : Kept refs d d') :
    Kept refs (d.setFile f y) (d'.setFile f y) := by
  refine ⟨?_,h.files,h.framebuffers,h.fbs,h.nextHandle,h.handle⟩
  show Function.update d'.file f y = Function.update d.file f y
  rw [h.file]

theorem drmClose_settles [Console] (h : Consistent d)
    (hdrop : ∀ x, d.file f = some x → ∀ o ∈ x.objects, d.CanDrop o) (hn : named.Perm d.names) :
    Settles d (drmClose f) fun r => if r = .done then withoutFile f named else named := by
  rw [Settles,drmClose,Exec.bind_ok device_ok]
  cases hf : d.file f with
  | none =>
    dsimp only
    exact ⟨_,d,rfl,h,hn⟩
  | some x =>
    have hmem : f ∈ d.files := (h.open_iff f).mpr (by rw [hf]; rfl)
    have hobjects : (d.namesOf f).map Naming.object = x.objects := by
      simp only [Device.namesOf,Device.objectsOf,hf,List.map_map]
      exact List.map_id _
    have hperm : (x.objects ++ (d.shut f).refs).Perm d.refs := by
      have hsplit := ((names_shut h.toShaped hmem).map Naming.object).append_right d.fbRefs
      rw [List.map_append,hobjects,List.append_assoc] at hsplit
      exact hsplit.symm
    have hcounted : Counted { d with files := d.files.erase f } d.refs := h.counted.congr rfl rfl
    have hnodup : x.objects.Nodup := by
      rw [← hobjects]
      exact (h.distinct.objects.perm ((names_shut h.toShaped hmem).map _)).sublist (by simp)
    obtain ⟨d₁,hdestroy,hcounted',hkept⟩ := destroyAll_ok (hcounted.perm hperm) fun o ho hnot =>
      hdrop x hf o ho (h.last hperm hnodup ho hnot)
    have hkept' : Kept (d.shut f).refs (d.shut f) (d₁.setFile f none) := hkept.setFile
    dsimp only
    rw [Exec.bind_ok (lock_ok rfl),Exec.bind_ok setDevice_ok,Exec.bind_ok unlock_ok,Exec.bind_ok hdestroy]
    refine ⟨.done,_,rfl,(h.toShaped.shut hmem).kept hkept' (hcounted'.congr rfl rfl),?_⟩
    rw [hkept'.names_eq]
    exact withoutFile_perm h.toShaped hmem hn

theorem pushObject_ok {held : List Lock} (hf : d.file f = some x) : pushObject f o ⟨d,held⟩ =
    .ok ((),⟨d.setFile f (some { x with objects := x.objects ++ [o] }),held⟩) := by
  have hread : readFile f ⟨d,held⟩ = .ok (x,⟨d,held⟩) := readFile_ok hf
  rw [pushObject,Exec.bind_ok hread]
  rfl

theorem takeId_ne_zero (next : Nat) : (takeId next).1 ≠ 0 := by
  unfold takeId
  split_ifs with hzero
  · rw [increment_of_lt (by unfold u32Bound; omega)]
    exact Nat.one_ne_zero
  · exact hzero

theorem Consistent.unused (h : Consistent d) (hfree : d.resolve f handle = none) :
    ∀ m ∈ d.names, (m.file,m.handle) ≠ (f,handle) := by
  rintro ⟨g,k,o⟩ hm heq
  cases heq
  cases hfree.symm.trans (h.resolve_iff.mpr hm)

theorem isSome_refcountOf : (d.refcountOf o).isSome = (d.gems o).isSome := Option.isSome_map

theorem Counted.new {refs : List Nat} (h : Counted d refs) (ho : d.gems o = none)
    (hr : d'.refcountOf = Function.update d.refcountOf o (some 1))
    (hl : d'.gemObjects = d.gemObjects ++ [o]) : Counted d' (o :: refs) := by
  have hdead : d.refcountOf o = none := by
    rw [Device.refcountOf,ho]
    rfl
  have hnot : o ∉ refs := by
    rw [← h.live_iff,ho]
    exact Bool.false_ne_true
  refine ⟨hr ▸ h.counts.new hdead,fun y => ?_,?_,fun y => ?_⟩
  · rcases eq_or_ne y o with rfl | hne
    · rw [List.count_cons_self,List.count_eq_zero.mpr hnot]
      unfold u32Bound
      omega
    · rw [List.count_cons_of_ne hne.symm]
      exact h.small y
  · rw [hl]
    refine h.nodup.append (List.nodup_singleton o) fun y hy hsame => ?_
    rw [List.mem_singleton.mp hsame,h.listed,ho] at hy
    exact Bool.false_ne_true hy
  · rw [hl,← isSome_refcountOf,hr,List.mem_append,List.mem_singleton,h.listed,Function.update_apply]
    split_ifs with heq
    · simp [heq]
    · simp [heq,isSome_refcountOf]

def Device.hand (d : Device) (f : Nat) (x : File) (o : Nat) (g : GemObject) : Device :=
  { (d.setGem o (some { g with handle := (takeId d.nextHandle).1 })).setFile f
      (some { x with objects := x.objects ++ [o] }) with
    nextHandle := (takeId d.nextHandle).2 }

theorem hand_pushed {g : GemObject} : Pushed f (takeId d.nextHandle).1 o x d (d.hand f x o g) := by
  refine ⟨rfl,rfl,rfl,rfl,?_,fun y hne => ?_⟩
  · simp only [Device.handleOf,Device.hand,Device.setFile,Device.setGem,Function.update_self,
      Option.map_some]
  · simp only [Device.handleOf,Device.hand,Device.setFile,Device.setGem,Function.update_of_ne hne]

theorem Pushed.of_setGem {g : Option GemObject} (h : Pushed f handle o x (d.setGem o g) d') :
    Pushed f handle o x d d' := by
  refine ⟨h.file,h.files,h.framebuffers,h.fbs,h.new,fun y hne => (h.others y hne).trans ?_⟩
  simp only [Device.handleOf,Device.setGem,Function.update_of_ne hne]

theorem refcountOf_hand {g : GemObject} :
    (d.hand f x o g).refcountOf = Function.update d.refcountOf o (some g.refcount) :=
  refcountOf_setGem

theorem gemHandleCreate_eq [Console] {g : GemObject} (hf : d.file f = some x) (hg : d.gems o = some g) :
    gemHandleCreate f o ⟨d,[]⟩ =
      (do printf handleFormat; pure (takeId d.nextHandle).1 : Command Nat)
        ⟨{ d.hand f x o g with gemObjects := d.gemObjects ++ [o] },[]⟩ := by
  have hread : readGem o ⟨{ d with nextHandle := (takeId d.nextHandle).2 },[.device]⟩ = .ok (g,_) :=
    readGem_ok hg
  have hpush : pushObject f o ⟨{ d.setGem o (some { g with handle := (takeId d.nextHandle).1 }) with
      nextHandle := (takeId d.nextHandle).2 },[.device]⟩ = .ok ((),⟨d.hand f x o g,[.device]⟩) :=
    pushObject_ok hf
  rw [gemHandleCreate,Exec.bind_ok (lock_ok rfl)]
  rw [Exec.bind_ok (show newHandle ⟨d,[.device]⟩ = .ok (_,_) from rfl),Exec.bind_ok hread,
    Exec.bind_ok setDevice_ok]
  exact (Exec.bind_ok hpush).trans rfl

def Device.create (d : Device) (f : Nat) (x : File) (o : Nat) (g : GemObject) : Device :=
  { (d.setGem o (some g)).hand f x o g with gemObjects := d.gemObjects ++ [o] }

theorem create_pushed {g : GemObject} :
    Pushed f (takeId d.nextHandle).1 o x d (d.create f x o g) := by
  have h : Pushed f (takeId d.nextHandle).1 o x d ((d.setGem o (some g)).hand f x o g) :=
    hand_pushed.of_setGem
  exact ⟨h.file,h.files,h.framebuffers,h.fbs,h.new,h.others⟩

theorem refcountOf_create {g : GemObject} :
    (d.create f x o g).refcountOf = Function.update d.refcountOf o (some g.refcount) := by
  have hset : (d.setGem o (some g)).refcountOf = Function.update d.refcountOf o (some g.refcount) :=
    refcountOf_setGem
  have hhand : (d.create f x o g).refcountOf =
      Function.update (d.setGem o (some g)).refcountOf o (some g.refcount) :=
    refcountOf_hand (f := f) (x := x)
  rw [hhand,hset,Function.update_idem]

theorem Counted.create {refs : List Nat} {g : GemObject} (h : Counted d refs) (ho : d.gems o = none)
    (hg : g.refcount = 1) : Counted (d.create f x o g) (o :: refs) :=
  h.new ho (by rw [refcountOf_create,hg]) rfl

def CreateDumb.Completes [Console] (dumb : CreateDumb) (d : Device) (f : Nat) (alloc : Option Nat) : Prop :=
  dumb.size ≠ 0 → alloc.isSome → ∀ pool, d.hw.pool = some pool →
    match pool.allocCoherent (alignPage dumb.size) with
    | none => Console.returns outOfMemoryFormat = true
    | some _ => Console.returns createdFormat = true ∧ Console.returns handleFormat = true ∧
        d.resolve f (takeId d.nextHandle).1 = none

def Device.buffer (d : Device) (f : Nat) (x : File) (o : Nat) (pool : Pool) (phys size : Nat) : Device :=
  { d with hw := d.hw.take pool phys size }.create f x o ⟨0,0,size,phys,1⟩

theorem modeCreateDumb_made [Console] {dumb : CreateDumb} {pool : Pool} {phys : Nat}
    (hf : d.file f = some x) (hrun : gemObjectCreate (some o) dumb.size ⟨d,[]⟩ =
      (do printf createdFormat; pure (some o) : Command (Option Nat))
        ⟨d.made o pool phys (alignPage dumb.size),[]⟩)
    (hcreated : Console.returns createdFormat = true) : modeCreateDumb f (some o) dumb ⟨d,[]⟩ =
      (do printf handleFormat; pure (.dumb (takeId d.nextHandle).1 dumb.pitch dumb.size) : Command Reply)
        ⟨d.buffer f x o pool phys (alignPage dumb.size),[]⟩ := by
  rw [Exec.bind_ok (printf_ok hcreated)] at hrun
  have hgem : (d.made o pool phys (alignPage dumb.size)).gems o =
      some ⟨0,0,alignPage dumb.size,phys,1⟩ := Function.update_self ..
  have hhandle := gemHandleCreate_eq (d := d.made o pool phys (alignPage dumb.size)) hf hgem
  rw [modeCreateDumb,Exec.bind_ok hrun]
  rcases printf_cases handleFormat ⟨d.buffer f x o pool phys (alignPage dumb.size),[]⟩ with
    ⟨-,hok⟩ | ⟨-,hspins⟩
  · rw [Exec.bind_ok hok]
    exact Exec.bind_ok (hhandle.trans (Exec.bind_ok hok))
  · rw [Exec.bind_error hspins]
    exact Exec.bind_error (hhandle.trans (Exec.bind_error hspins))

theorem modeCreateDumb_settles [Console] {alloc : Option Nat} (dumb : CreateDumb) (h : Consistent d)
    (hf : d.file f = some x) (hfresh : ∀ o, alloc = some o → d.gems o = none)
    (hdumb : dumb.Completes d f alloc) (hn : named.Perm d.names) :
    Settles d (modeCreateDumb f alloc dumb) fun r => match alloc,r with
      | some o,.dumb handle _ _ => ⟨f,handle,o⟩ :: named
      | _,_ => named := by
  have herror : (match alloc,Reply.error enomem with
      | some o,.dumb handle _ _ => ⟨f,handle,o⟩ :: named
      | _,_ => named : List Naming).Perm d.names := by
    cases alloc <;> exact hn
  rcases gemObjectCreate_cases alloc dumb.size ⟨d,[]⟩ with
    ⟨hrun,-⟩ | ⟨hsize,o,pool,rfl,hpool,⟨hnone,hrun⟩ | ⟨pool',phys,halloc,hrun⟩⟩
  · exact ⟨_,d,Exec.bind_ok hrun,h,herror⟩
  · have hprints := hdumb hsize rfl pool hpool
    rw [hnone] at hprints
    rw [Exec.bind_ok (printf_ok hprints)] at hrun
    exact ⟨_,d,Exec.bind_ok hrun,h,herror⟩
  · have hprints := hdumb hsize rfl pool hpool
    rw [halloc] at hprints
    obtain ⟨hcreated,hhandle,hfree⟩ := hprints
    have ho := hfresh o rfl
    have hnew : o ∉ d.names.map Naming.object := by
      intro hmem
      have hlive := h.counted.live_iff.mpr (List.mem_append_left d.fbRefs hmem)
      rw [ho] at hlive
      cases hlive
    have hpushed : Pushed f (takeId d.nextHandle).1 o x d
        (d.buffer f x o pool' phys (alignPage dumb.size)) := by
      have hp := create_pushed (d := { d with hw := d.hw.take pool' phys (alignPage dumb.size) })
        (f := f) (o := o) (x := x) (g := ⟨0,0,alignPage dumb.size,phys,1⟩)
      exact ⟨hp.file,hp.files,hp.framebuffers,hp.fbs,hp.new,hp.others⟩
    have hsame : Counted { d with hw := d.hw.take pool' phys (alignPage dumb.size) } d.refs :=
      h.counted.congr rfl rfl
    obtain ⟨hd,hnames⟩ := h.push hf hpushed (hsame.create ho rfl) (takeId_ne_zero _) hnew (h.unused hfree)
    have hmade := modeCreateDumb_made hf hrun hcreated
    rw [Exec.bind_ok (printf_ok hhandle)] at hmade
    exact ⟨_,_,hmade,hd,(hn.cons _).trans hnames.symm⟩

structure Device.Opens (d : Device) (f o : Nat) : Prop where
  handle : d.resolve f (takeId d.nextHandle).1 = none
  unnamed : ∀ g, o ∉ d.objectsOf g
  room : d.room o

theorem gemOpen_settles {name : Nat} (h : Consistent d) (hf : d.file f = some x)
    (hopens : ∀ o, name ≠ 0 → d.byName name = some o → d.Opens f o) (hn : named.Perm d.names) :
    Settles d (gemOpen f name) fun r => match r with
      | .error _ => named
      | .ok r => (d.byName name).toList.map (⟨f,r.1,·⟩) ++ named := by
  rw [Settles,gemOpen]
  split_ifs with hzero
  · exact ⟨_,d,rfl,h,hn⟩
  · have hfind : findBy readGem (fun obj => obj.name = name) d.gemObjects ⟨d,[.device]⟩ =
        .ok (d.byName name,⟨d,[.device]⟩) := by
      rcases findBy_cases (s := ⟨d,[.device]⟩) (p := fun obj : GemObject => obj.name = name)
        (fun x => show readGem x _ = orFault (d.gems x) _ from rfl) d.gemObjects with hok | ⟨-,-,y,hy,hdead⟩
      · exact hok
      · have hlive := (h.counted.listed y).mp hy
        rw [hdead] at hlive
        cases hlive
    rw [Exec.bind_ok (lock_ok rfl),Exec.bind_ok device_ok,Exec.bind_ok hfind]
    cases hname : d.byName name with
    | none => exact ⟨_,d,rfl,h,hn⟩
    | some o =>
      obtain ⟨-,g,hg,-⟩ := firstLive_some hname
      have hopen := hopens o hzero hname
      have hnew : o ∉ d.names.map Naming.object := by
        rintro hmem
        obtain ⟨n,hn,rfl⟩ := List.mem_map.mp hmem
        exact hopen.unnamed n.file (mem_names.mp hn).2.1
      have hread : readGem o ⟨{ d with nextHandle := (takeId d.nextHandle).2 },[.device]⟩ = .ok (g,_) :=
        readGem_ok hg
      have hpush : pushObject f o ⟨{ d.setGem o (some { g.taken with handle := (takeId d.nextHandle).1 }) with
          nextHandle := (takeId d.nextHandle).2 },[.device]⟩ = .ok ((),⟨d.hand f x o g.taken,[.device]⟩) :=
        pushObject_ok hf
      have hcount : g.refcount = d.refs.count o := h.counted.counts.eq_some (by
        rw [Device.refcountOf,hg]
        rfl)
      have htaken : Counted (d.setGem o (some { g.taken with handle := (takeId d.nextHandle).1 }))
          (o :: d.refs) := h.counted.taken hg (by rw [hcount]; exact h.room hopen.room) rfl
      have hcounted : Counted (d.hand f x o g.taken) (o :: d.refs) := htaken.congr rfl rfl
      obtain ⟨hd,hnames⟩ := h.push hf hand_pushed hcounted (takeId_ne_zero _) hnew
        (h.unused hopen.handle)
      dsimp only
      rw [Exec.bind_ok (show newHandle ⟨d,[.device]⟩ = .ok (_,_) from rfl),Exec.bind_ok hread,
        Exec.bind_ok setDevice_ok]
      exact ⟨_,_,(Exec.bind_ok hpush).trans rfl,hd,(hn.cons _).trans hnames.symm⟩

end Files

end SabaOS.Drm
