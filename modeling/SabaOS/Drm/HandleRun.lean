import SabaOS.Drm.FbOps

namespace SabaOS.Drm

open SabaOS.Lib Relation

def Op.record (d : Device) : Op → Reply → List Naming → List Naming
  | .close f,.done,named => withoutFile f named
  | .ioctl f (.gemClose (some handle)),.done,named => without f handle named
  | .ioctl f (.destroyDumb (some handle)),.done,named => without f handle named
  | .ioctl f (.createDumb (some o) (some _)),.dumb handle _ _,named => ⟨f,handle,o⟩ :: named
  | .ioctl f (.gemOpen (some name)),.opened handle _,named =>
    (d.byName name).toList.map (⟨f,handle,·⟩) ++ named
  | _,_,named => named

section Steps

variable [Console]

def Request.keepsNames (d : Device) (f : Nat) : Request → Prop
  | .createDumb alloc arg => ∀ dumb, arg = some dumb → dumb.Completes d f alloc
  | .gemOpen arg => ∀ name, arg = some name → ∀ o, name ≠ 0 → d.byName name = some o → d.Opens f o
  | .gemFlink arg => ∀ handle, arg = some handle → ∀ o, d.resolve f handle = some o → d.room o
  | .mapDumb arg => ∀ handle, arg = some handle → ∀ o, d.resolve f handle = some o → d.room o
  | .addFb2 alloc arg => ∀ cmd, arg = some cmd → cmd.refused alloc ∨ cmd.Resolves d f
  | .rmFb arg => arg.isSome ∧
    ∀ id, arg = some id → ∀ p, d.findFb id = some p → ∀ o ∈ d.planesOf p, d.CanDrop o
  | .gemClose arg => ∀ handle, arg = some handle → ∀ o, d.resolve f handle = some o → d.CanDrop o
  | .destroyDumb arg => ∀ handle, arg = some handle → ∀ o, d.resolve f handle = some o → d.CanDrop o
  | _ => False

def Op.keepsNames (d : Device) : Op → Prop
  | .open _ => True
  | .close f => ∀ x, d.file f = some x → ∀ o ∈ x.objects, d.CanDrop o
  | .ioctl f request => ∀ x, d.file f = some x → request.keepsNames d f

inductive NamedStep (C : Device → Op → Prop) : State × List Naming → State × List Naming → Prop
  | op {s s' : State} {named : List Naming} {r : Reply} (o : Op) : o.fresh s.dev → C s.dev o →
      o.run s = .ok (r,s') → NamedStep C (s,named) (s',o.record s.dev r named)

end Steps

def Device.holders (d : Device) (named : List Naming) (o : Nat) : Nat :=
  named.countP (fun n => n.object = o) + d.fbs.countP fun p => o ∈ d.planesOf p

structure NamesKept (d : Device) (named : List Naming) : Prop where
  resolves : ∀ n ∈ named, d.resolve n.file n.handle = some n.object
  closed : ∀ file handle, (∀ n ∈ named, ¬(n.file = file ∧ n.handle = handle)) →
    d.resolve file handle = none
  counted : ∀ o, d.refcountOf o = if d.holders named o = 0 then none else some (d.holders named o)

variable {d : Device} {named : List Naming} {f : Nat} {x : File}

theorem Settles.congr {α : Type} {c : Command α} {names names' : α → List Naming}
    (h : Settles d c names) (heq : ∀ r, names' r = names r) : Settles d c names' := by
  obtain ⟨r,d',hrun,hd,hn⟩ := h
  exact ⟨r,d',hrun,hd,heq r ▸ hn⟩

theorem record_error {e : Int} (o : Op) : o.record d (.error e) named = named := by
  unfold Op.record
  split
  all_goals first | rfl | contradiction

theorem record_ofCode (handle : Nat) (ret : Int) :
    (Op.ioctl f (.gemClose (some handle))).record d (.ofCode ret) named =
      if ret < 0 then named else without f handle named := by
  rw [Reply.ofCode]
  split_ifs
  · rfl
  · rfl

theorem record_destroy (handle : Nat) (r : Reply) :
    (Op.ioctl f (.destroyDumb (some handle))).record d r named =
      (Op.ioctl f (.gemClose (some handle))).record d r named := by
  cases r <;> rfl

theorem Consistent.refuses {e : Int} (h : Consistent d) (o : Op) (hn : named.Perm d.names) :
    Settles d (pure (.error e)) fun r => o.record d r named :=
  ⟨.error e,d,rfl,h,(List.Perm.of_eq (record_error o)).trans hn⟩

theorem request_settles [Console] {request : Request} (h : Consistent d) (hn : named.Perm d.names)
    (hf : d.file f = some x) (hfresh : (Op.ioctl f request).fresh d) (hkeeps : request.keepsNames d f) :
    Settles d (request.serve f) fun r => (Op.ioctl f request).record d r named := by
  cases request with
  | createDumb alloc arg =>
    cases arg with
    | none => exact h.refuses _ hn
    | some dumb =>
      refine (modeCreateDumb_settles dumb h hf ?_ (hkeeps dumb rfl) hn).congr fun r => ?_
      · intro o ho
        rw [ho] at hfresh
        exact Option.isNone_iff_eq_none.mp hfresh
      · cases alloc with
        | none => rfl
        | some o => cases r <;> rfl
  | gemOpen arg =>
    cases arg with
    | none => exact h.refuses _ hn
    | some name =>
      refine ((gemOpen_settles h hf (hkeeps name rfl) hn).congr fun r => ?_).map
      cases r with
      | error e => rfl
      | ok r => rfl
  | gemFlink arg =>
    cases arg with
    | none => exact h.refuses _ hn
    | some handle => exact (gemFlink_settles h hf (hkeeps handle rfl) hn).map
  | mapDumb arg =>
    cases arg with
    | none => exact h.refuses _ hn
    | some handle => exact modeMapDumb_settles h hf (hkeeps handle rfl) hn
  | gemClose arg =>
    cases arg with
    | none => exact h.refuses _ hn
    | some handle =>
      exact ((gemHandleDelete_settles h hf (hkeeps handle rfl) hn).congr fun ret =>
        record_ofCode handle ret).map
  | destroyDumb arg =>
    cases arg with
    | none => exact h.refuses _ hn
    | some handle =>
      exact ((gemHandleDelete_settles h hf (hkeeps handle rfl) hn).congr fun ret =>
        (record_destroy handle _).trans (record_ofCode handle ret)).map
  | addFb2 alloc arg =>
    cases arg with
    | none => exact h.refuses _ hn
    | some cmd =>
      refine modeAddfb2_settles h hf ?_ (hkeeps cmd rfl) hn
      intro p hp
      rw [hp] at hfresh
      exact Option.isNone_iff_eq_none.mp hfresh
  | rmFb arg =>
    obtain ⟨id,rfl⟩ := Option.isSome_iff_exists.mp hkeeps.1
    exact modeRmfb_settles h (hkeeps.2 id rfl) hn
  | version | getCap | setClientCap | getResources | getCrtc | setCrtc | getEncoder | getConnector
  | getFb | pageFlip | unknown => exact hkeeps.elim

theorem op_settles [Console] {o : Op} (h : Consistent d) (hn : named.Perm d.names) (hfresh : o.fresh d)
    (hkeeps : o.keepsNames d) : Settles d o.run fun r => o.record d r named := by
  cases o with
  | «open» alloc =>
    refine drmOpen_settles h (fun f hf => ?_) hn
    rw [hf] at hfresh
    exact Option.isNone_iff_eq_none.mp hfresh
  | close f =>
    refine (drmClose_settles h hkeeps hn).congr fun r => ?_
    cases r <;> rfl
  | ioctl f request =>
    cases hf : d.file f with
    | none =>
      refine ⟨.error ebadf,d,?_,h,(List.Perm.of_eq (record_error _)).trans hn⟩
      rw [Op.run,drmIoctl,Exec.bind_ok device_ok,hf]
      rfl
    | some x =>
      obtain ⟨r,d',hrun,hd,hnames⟩ := request_settles h hn hf hfresh (hkeeps x hf)
      refine ⟨r,d',?_,hd,hnames⟩
      rw [Op.run,drmIoctl,Exec.bind_ok device_ok,hf]
      exact hrun

theorem count_flatMap {l : List Nat} {g : Nat → List Nat} (o : Nat) (h : ∀ p, (g p).Nodup) :
    (l.flatMap g).count o = l.countP fun p => o ∈ g p := by
  induction l with
  | nil => rfl
  | cons p l ih =>
    rw [List.flatMap_cons,List.count_append,ih,List.countP_cons,(h p).count,Nat.add_comm]
    simp

theorem Consistent.holders_eq (h : Consistent d) (hn : named.Perm d.names) (o : Nat) :
    d.holders named o = d.refs.count o := by
  have hnames : named.countP (fun n => n.object = o) = (d.names.map Naming.object).count o := by
    rw [hn.countP_eq,List.count,List.countP_map]
    rfl
  rw [Device.refs,List.count_append,Device.fbRefs,count_flatMap o h.planes,Device.holders,hnames]

theorem Consistent.names_kept (h : Consistent d) (hn : named.Perm d.names) : NamesKept d named := by
  refine ⟨fun n hmem => h.resolve_iff.mpr (hn.mem_iff.mp hmem),fun file handle hnone => ?_,fun o => ?_⟩
  · cases hres : d.resolve file handle with
    | none => rfl
    | some o => exact absurd ⟨rfl,rfl⟩ (hnone _ (hn.mem_iff.mpr (h.resolve_iff.mp hres)))
  · rw [h.holders_eq hn]
    exact h.counted.counts o

theorem booted_consistent (connector : Connector) (mode : Mode) (hw : Hardware) :
    Consistent (bootDevice connector mode hw) := by
  refine ⟨⟨⟨List.nodup_nil,List.nodup_nil,fun n hn => by cases hn⟩,List.nodup_nil,fun f => ?_,
    List.nodup_nil,fun p => ?_,fun p => List.nodup_nil⟩,⟨Counts.nil,fun o => ?_,List.nodup_nil,fun o => ?_⟩⟩
  · exact ⟨nofun,nofun⟩
  · exact ⟨nofun,nofun⟩
  · show 0 < u32Bound
    unfold u32Bound
    omega
  · exact ⟨nofun,nofun⟩

structure Tracks (s : State × List Naming) : Prop where
  held : s.1.held = []
  consistent : Consistent s.1.dev
  named : s.2.Perm s.1.dev.names

section Runs

variable [Console]

theorem Tracks.runs {s : State × List Naming} (h : Tracks s) {o : Op} (hfresh : o.fresh s.1.dev)
    (hkeeps : o.keepsNames s.1.dev) :
    ∃ r s', o.run s.1 = .ok (r,s') ∧ Tracks (s',o.record s.1.dev r s.2) := by
  obtain ⟨⟨d,held⟩,named⟩ := s
  cases h.held
  obtain ⟨r,d',hrun,hd,hn⟩ := op_settles h.consistent h.named hfresh hkeeps
  exact ⟨r,⟨d',[]⟩,hrun,rfl,hd,hn⟩

theorem Tracks.step {s s' : State × List Naming} (h : Tracks s)
    (hstep : NamedStep (fun d o => o.keepsNames d) s s') : Tracks s' := by
  cases hstep with
  | op o hfresh hkeeps hok =>
    obtain ⟨r,s',hrun,htracks⟩ := h.runs hfresh hkeeps
    cases hok.symm.trans hrun
    exact htracks

theorem tracks_run {connector : Connector} {mode : Mode} {hw : Hardware} {s : State × List Naming}
    (h : ReflTransGen (NamedStep fun d o => o.keepsNames d) (boot connector mode hw,[]) s) : Tracks s := by
  induction h with
  | refl => exact ⟨rfl,booted_consistent connector mode hw,.refl _⟩
  | tail _ hstep ih => exact ih.step hstep

def trackAll : List Op → State × List Naming → Option (State × List Naming)
  | [],s => some s
  | op :: ops,s => if op.fresh s.1.dev then match op.run s.1 with
      | .ok r => trackAll ops (r.2,op.record s.1.dev r.1 s.2)
      | .error _ => none
    else none

theorem trackAll_runs {ops : List Op} {s s' : State × List Naming} (h : trackAll ops s = some s') :
    ReflTransGen (NamedStep fun _ _ => True) s s' := by
  induction ops generalizing s with
  | nil =>
    cases h
    exact .refl
  | cons op ops ih =>
    rw [trackAll] at h
    split_ifs at h with hfresh
    cases hs : op.run s.1 with
    | error e => simp [hs] at h
    | ok r =>
      rw [hs] at h
      exact .head (.op op hfresh trivial hs) (ih h)

end Runs

def createOp : Op := .ioctl 0 (.createDumb (some 0) (some ⟨4,4,32⟩))

section Kernel

attribute [local instance] kernelConsole

def stranded : Except (Stop × State) (Reply × State) → Bool
  | .ok _ => false
  | .error e => e.1 = .spins ∧ e.2.dev.refcountOf 0 = some 1 ∧ e.2.dev.holders [] 0 = 0

end Kernel

section Full

attribute [local instance] fullConsole

def closeOp : Op := .ioctl 0 (.gemClose (some 1))

def sharedOps : List Op := [.open (some 0),.open (some 1),
  .ioctl 0 (.createDumb (some 0) (some ⟨4,4,32⟩)),.ioctl 0 (.gemFlink (some 1)),
  .ioctl 1 (.gemOpen (some 1))]

theorem shared_handle_lost : ∃ s named, ReflTransGen (NamedStep fun _ _ => True) (booted,[]) (s,named) ∧
    ∃ n ∈ named, s.dev.resolve n.file n.handle ≠ some n.object := by
  have hlost : (trackAll sharedOps (booted,[])).any (fun s => s.2.any fun n =>
      s.1.dev.resolve n.file n.handle ≠ some n.object) = true := by
    decide +kernel
  obtain ⟨⟨s,named⟩,hrun,hany⟩ := (Option.any_eq_true _ _).mp hlost
  obtain ⟨n,hmem,hn⟩ := List.any_eq_true.mp hany
  exact ⟨s,named,trackAll_runs hrun,n,hmem,of_decide_eq_true hn⟩

end Full

end SabaOS.Drm
