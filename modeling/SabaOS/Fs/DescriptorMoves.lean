import Mathlib.Data.List.GetD
import SabaOS.Fs.Descriptors

namespace SabaOS.Fs.Files

open SabaOS.Lib

variable {V W : Type} {vclose : FileDescription V → W → W} {closes : Nat × Nat → Prop}
  {f f' : Files V W} {pid fdnum d : Nat}

def slot (f : Files V W) (x : Nat × Nat) : Option Nat :=
  ((f.processes x.1).descriptor x.2).description

def refCount (f : Files V W) (d : Nat) : Nat := (f.descriptions d).elim 0 (·.refCount)

structure Sound (f : Files V W) : Prop where
  held : Held f.slot f.refCount
  known : ∀ x d, f.slot x = some d → (f.descriptions d).isSome
  fresh : ∀ d, f.nextDescription ≤ d → f.descriptions d = none

inductive Move (vclose : FileDescription V → W → W) (closes : Nat × Nat → Prop)
    (f f' : Files V W) : Prop
  | tables : (∀ x, f'.slot x = f.slot x) → f'.descriptions = f.descriptions →
      f'.nextDescription = f.nextDescription → f'.world = f.world → Move vclose closes f f'
  | flags {d : Nat} {desc : FileDescription V} {arg : UInt64} : f.descriptions d = some desc →
      (∀ x, f'.slot x = f.slot x) →
      f'.descriptions = Function.update f.descriptions d (some (desc.setfl arg)) →
      f'.nextDescription = f.nextDescription → f'.world = f.world → Move vclose closes f f'
  | dup {x y : Nat × Nat} {d : Nat} {desc : FileDescription V} : f.slot x = none →
      f.slot y = some d → f.descriptions d = some desc →
      (∀ z, f'.slot z = Function.update f.slot x (some d) z) →
      f'.descriptions =
        Function.update f.descriptions d (some { desc with refCount := desc.refCount + 1 }) →
      f'.nextDescription = f.nextDescription → f'.world = f.world → Move vclose closes f f'
  | close {x : Nat × Nat} {d : Nat} {desc : FileDescription V} : closes x → f.slot x = some d →
      f.descriptions d = some desc →
      (∀ z, f'.slot z = Function.update f.slot x none z) →
      f'.descriptions =
        Function.update f.descriptions d (some { desc with refCount := desc.refCount - 1 }) →
      f'.nextDescription = f.nextDescription →
      f'.world = (if desc.refCount - 1 = 0 then
        vclose { desc with refCount := desc.refCount - 1 } f.world else f.world) → Move vclose closes f f'

def Call.Closes (f : Files V W) : Call → Nat × Nat → Prop
  | .close pid fd, x => x.1 = pid ∧ (x.2 : Int) = fd
  | .closeRange pid first last cloexec, x => cloexec = false ∧ x.1 = pid ∧ first ≤ x.2 ∧ x.2 ≤ last
  | .dup3 pid oldfd newfd _, x => oldfd ≠ newfd ∧ ((f.processes pid).lookup oldfd).isSome ∧
      x.1 = pid ∧ (x.2 : Int) = newfd ∧ newfd ≤ 1023
  | .exec pid, x => x.1 = pid ∧ ((f.processes pid).descriptor x.2).cloexec = true
  | .exit pid, x => x.1 = pid
  | .dupfd .., _ | .setfd .., _ | .setfl .., _ | .fork .., _ => False

abbrev Moves (vclose : FileDescription V → W → W) (closes : Nat × Nat → Prop) :
    Files V W → Files V W → Prop :=
  Relation.ReflTransGen (Move vclose closes)

theorem Moves.slot_kept (h : Moves vclose closes f f') {x : Nat × Nat} (hx : f.slot x = some d)
    (hc : ¬closes x) : f'.slot x = some d := by
  induction h with
  | refl => exact hx
  | tail _ hm ih =>
    cases hm with
    | tables hslot => rw [hslot,ih]
    | flags hd hslot => rw [hslot,ih]
    | @dup y z e desc hy hz hd hslot =>
      rw [hslot,Function.update_of_ne,ih]
      rintro rfl
      cases ih.symm.trans hy
    | @close y e desc hcy hy hd hslot =>
      rw [hslot,Function.update_of_ne,ih]
      rintro rfl
      exact hc hcy

theorem Moves.world_kept (h : Moves vclose closes f f') (hv : ∀ desc w, vclose desc w = w) :
    f'.world = f.world := by
  induction h with
  | refl => rfl
  | tail _ hm ih =>
    cases hm with
    | tables hslot hdesc hnext hworld => rw [hworld,ih]
    | flags hd hslot hdesc hnext hworld => rw [hworld,ih]
    | dup hx hy hd hslot hdesc hnext hworld => rw [hworld,ih]
    | close hc hx hd hslot hdesc hnext hworld => rw [hworld,hv,ite_self,ih]

theorem refCount_of {desc : FileDescription V} (hd : f.descriptions d = some desc) : f.refCount d = desc.refCount := by
  rw [refCount,hd]
  rfl

theorem refCount_update {desc : FileDescription V} {n : Nat} (hn : desc.refCount = n)
    (hd : f'.descriptions = Function.update f.descriptions d (some desc)) :
    f'.refCount = Function.update f.refCount d n := by
  funext e
  rw [refCount,hd]
  rcases eq_or_ne e d with rfl | hne
  · rw [Function.update_self,Function.update_self]
    exact hn
  · rw [Function.update_of_ne hne,Function.update_of_ne hne]
    rfl

namespace Sound

variable (hf : f.Sound)

include hf

theorem description {x : Nat × Nat} (hx : f.slot x = some d) :
    ∃ desc, f.descriptions d = some desc ∧ 0 < desc.refCount := by
  obtain ⟨desc,hd⟩ := Option.isSome_iff_exists.mp (hf.known x d hx)
  exact ⟨desc,hd,(refCount_of hd).symm.trans_gt (hf.held.pos_iff.mpr ⟨x,hx⟩)⟩

theorem live_iff : 0 < f.refCount d ↔ ∃ x, f.slot x = some d := hf.held.pos_iff

theorem updated {desc : FileDescription V} (hd : (f.descriptions d).isSome)
    (hdesc : f'.descriptions = Function.update f.descriptions d (some desc))
    (hnext : f'.nextDescription = f.nextDescription) :
    (∀ e, (f.descriptions e).isSome → (f'.descriptions e).isSome) ∧
      ∀ e, f'.nextDescription ≤ e → f'.descriptions e = none := by
  have hdlt : d < f.nextDescription := by
    by_contra hge
    rw [hf.fresh d (Nat.le_of_not_lt hge)] at hd
    cases hd
  rw [hdesc,hnext]
  refine ⟨fun e he => ?_,fun e he => ?_⟩
  · rcases eq_or_ne e d with rfl | hne
    · rw [Function.update_self]
      rfl
    · rw [Function.update_of_ne hne]
      exact he
  · rw [Function.update_of_ne (by omega)]
    exact hf.fresh e he

theorem move (h : Move vclose closes f f') : f'.Sound := by
  cases h with
  | tables hslot hdesc hnext hworld =>
    have hcount : f'.refCount = f.refCount := by
      funext e
      rw [refCount,refCount,hdesc]
    refine ⟨hcount ▸ hf.held.congr hslot,?_,?_⟩
    · intro x e hx
      rw [hdesc]
      exact hf.known x e ((hslot x).symm.trans hx)
    · intro e he
      rw [hdesc]
      exact hf.fresh e (hnext ▸ he)
  | @flags d desc arg hd hslot hdesc hnext hworld =>
    obtain ⟨hknown,hfresh⟩ := hf.updated (by rw [hd]; rfl) hdesc hnext
    have hcount : f'.refCount = f.refCount := by
      have hsame : (desc.setfl arg).refCount = desc.refCount := rfl
      rw [refCount_update hsame hdesc,← refCount_of hd,Function.update_eq_self]
    refine ⟨hcount ▸ hf.held.congr hslot,?_,hfresh⟩
    intro x e hx
    exact hknown e (hf.known x e ((hslot x).symm.trans hx))
  | @dup x y d desc hx hy hd hslot hdesc hnext hworld =>
    obtain ⟨hknown,hfresh⟩ := hf.updated (by rw [hd]; rfl) hdesc hnext
    refine ⟨?_,?_,hfresh⟩
    · rw [refCount_update (n := f.refCount d + 1) (by rw [refCount_of hd]) hdesc]
      exact (hf.held.assign hx).congr hslot
    · intro z e hz
      rw [hslot z] at hz
      rcases eq_or_ne z x with rfl | hne
      · rw [Function.update_self] at hz
        obtain rfl := Option.some.inj hz
        exact hknown d (by rw [hd]; rfl)
      · rw [Function.update_of_ne hne] at hz
        exact hknown e (hf.known z e hz)
  | @close x d desc hc hx hd hslot hdesc hnext hworld =>
    obtain ⟨hknown,hfresh⟩ := hf.updated (by rw [hd]; rfl) hdesc hnext
    refine ⟨?_,?_,hfresh⟩
    · rw [refCount_update (n := f.refCount d - 1) (by rw [refCount_of hd]) hdesc]
      exact (hf.held.clear hx).congr hslot
    · intro z e hz
      rw [hslot z] at hz
      rcases eq_or_ne z x with rfl | hne
      · rw [Function.update_self] at hz
        cases hz
      · rw [Function.update_of_ne hne] at hz
        exact hknown e (hf.known z e hz)

theorem moves (h : Moves vclose closes f f') : f'.Sound := by
  induction h with
  | refl => exact hf
  | tail _ hm ih => exact ih.move hm

end Sound

section Slots

variable {p : Process} {descriptor : FileDescriptor}

theorem slot_setProcess (x : Nat × Nat) : (f.setProcess pid p).slot x =
    if x.1 = pid then (p.descriptor x.2).description else f.slot x := by
  simp only [slot,setProcess]
  split_ifs with h
  · rw [h,Function.update_self]
  · rw [Function.update_of_ne h]

@[simp] theorem setProcess_self : (f.setProcess pid p).processes pid = p :=
  Function.update_self _ _ _

theorem slot_same (h : ∀ i, (p.descriptor i).description = f.slot (pid,i)) (x : Nat × Nat) :
    (f.setProcess pid p).slot x = f.slot x := by
  rw [slot_setProcess]
  split_ifs with hx
  · rw [h,← hx]
  · rfl

theorem length_of_slot (h : f.slot (pid,fdnum) = some d) :
    fdnum < (f.processes pid).fileDescriptors.length := by
  by_contra hge
  rw [slot,Process.descriptor,List.getD_eq_default _ _ (Nat.le_of_not_lt hge)] at h
  cases h

theorem slot_setDescriptor (h : fdnum < (f.processes pid).fileDescriptors.length) (x : Nat × Nat) :
    (f.setDescriptor pid fdnum descriptor).slot x =
      Function.update f.slot (pid,fdnum) descriptor.description x := by
  rw [setDescriptor,slot_setProcess,Function.update_apply]
  simp only [Process.descriptor,List.getD_eq_getElem?_getD,List.getElem?_set,Prod.ext_iff]
  by_cases hx : x.1 = pid
  · rw [if_pos hx]
    by_cases hy : x.2 = fdnum
    · simp [hx,hy,h]
    · simp [hx,hy,Ne.symm hy,slot,Process.descriptor,List.getD_eq_getElem?_getD]
  · simp [hx]

theorem setCloexec_slot (cloexec : Bool) (x : Nat × Nat) :
    (f.setCloexec pid fdnum cloexec).slot x = f.slot x := by
  refine slot_same (fun i => ?_) x
  simp only [slot,Process.descriptor,List.getD_eq_getElem?_getD,List.getElem?_set]
  split_ifs with h h'
  · rw [h]
    rfl
  · rw [← h,List.getElem?_eq_none (Nat.le_of_not_lt h')]
  · rfl

theorem descriptor_append (more : List FileDescriptor) (hmore : ∀ m ∈ more, m.description = none)
    (i : Nat) : (Process.descriptor ⟨(f.processes pid).fileDescriptors ++ more,n⟩ i).description =
      f.slot (pid,i) := by
  simp only [slot,Process.descriptor,List.getD_eq_getElem?_getD,List.getElem?_append]
  split_ifs with h
  · rfl
  · rw [List.getElem?_eq_none (Nat.le_of_not_lt h)]
    cases hm : more[i - (f.processes pid).fileDescriptors.length]? with
    | none => rfl
    | some m => exact hmore m (List.mem_of_getElem? hm)

theorem lookup_fst {p : Process} {fd : Int} {i d : Nat} (h : p.lookup fd = some (i,d)) : (i : Int) = fd := by
  rw [Process.lookup] at h
  split_ifs at h with hrange
  obtain ⟨e,-,he⟩ := Option.map_eq_some_iff.mp h
  cases he
  omega

theorem lookup_some {fd : Int} {x : Nat × Nat} (h : (f.processes pid).lookup fd = some x) :
    f.slot (pid,x.1) = some x.2 := by
  rw [Process.lookup] at h
  split_ifs at h
  obtain ⟨e,he,rfl⟩ := Option.map_eq_some_iff.mp h
  exact he

end Slots

section Allocate

variable {p : Process} {minFdnum : Int}

theorem slot_appended (f : Files V W) (pid : Nat) (more : List FileDescriptor) (n : Int)
    (hmore : ∀ m ∈ more, m.description = none) (x : Nat × Nat) :
    (f.setProcess pid ⟨(f.processes pid).fileDescriptors ++ more,n⟩).slot x = f.slot x :=
  slot_same (fun i => descriptor_append more hmore i) x

theorem allocateFdnum_spec (f : Files V W) (pid : Nat) (minFdnum : Int) :
    (∀ x, (f.allocateFdnum pid minFdnum).1.slot x = f.slot x) ∧
      f.slot (pid,(f.allocateFdnum pid minFdnum).2) = none ∧
      (f.allocateFdnum pid minFdnum).2 <
        ((f.allocateFdnum pid minFdnum).1.processes pid).fileDescriptors.length := by
  rw [allocateFdnum,Process.allocateFdnum]
  dsimp only
  generalize ((if minFdnum < (f.processes pid).firstFreeFdnum then (f.processes pid).firstFreeFdnum
    else minFdnum).toNat) = first
  cases hfind : (List.range' first ((f.processes pid).fileDescriptors.length - first)).find?
      fun i => ((f.processes pid).descriptor i).description.isNone with
  | some i =>
    have hfree := List.find?_some hfind
    have hi := List.mem_range'_1.mp (List.mem_of_find?_eq_some hfind)
    refine ⟨fun x => slot_same (fun _ => rfl) x,Option.isNone_iff_eq_none.mp hfree,?_⟩
    simp only [setProcess,Function.update_self]
    omega
  | none =>
    refine ⟨fun x => slot_appended _ _ _ _ (by simp [FileDescriptor.empty]) x,?_,?_⟩
    · simp only [slot,Process.descriptor]
      rw [List.getD_eq_default _ _ (Nat.le_refl _)]
      rfl
    · simp only [setProcess,Function.update_self,List.length_append,List.length_singleton]
      exact Nat.lt_succ_self _

end Allocate

section Calls

variable (vclose) {descriptor : FileDescriptor} {desc : FileDescription V}

theorem decrementRefCount_spec (hd : f.descriptions d = some desc) :
    (f.decrementRefCount vclose d).processes = f.processes ∧
      (f.decrementRefCount vclose d).descriptions =
        Function.update f.descriptions d (some { desc with refCount := desc.refCount - 1 }) ∧
      (f.decrementRefCount vclose d).nextDescription = f.nextDescription ∧
      (f.decrementRefCount vclose d).world = (if desc.refCount - 1 = 0 then
        vclose { desc with refCount := desc.refCount - 1 } f.world else f.world) := by
  simp only [decrementRefCount,hd]
  split_ifs <;> exact ⟨rfl,rfl,rfl,rfl⟩

theorem slot_of_processes (h : f'.processes = f.processes) : f'.slot = f.slot := by
  funext x
  rw [slot,slot,h]

theorem closeDescriptor_none (h : f.slot (pid,fdnum) = none) :
    f.closeDescriptor vclose pid fdnum = f := by
  simp only [slot] at h
  rw [closeDescriptor,h]

theorem closeDescriptor_spec (hs : f.slot (pid,fdnum) = some d) (hd : f.descriptions d = some desc) :
    (∀ z, (f.closeDescriptor vclose pid fdnum).slot z = Function.update f.slot (pid,fdnum) none z) ∧
      (f.closeDescriptor vclose pid fdnum).descriptions =
        Function.update f.descriptions d (some { desc with refCount := desc.refCount - 1 }) ∧
      (f.closeDescriptor vclose pid fdnum).nextDescription = f.nextDescription ∧
      (f.closeDescriptor vclose pid fdnum).world = (if desc.refCount - 1 = 0 then
        vclose { desc with refCount := desc.refCount - 1 } f.world else f.world) := by
  obtain ⟨hproc,hdesc,hnext,hworld⟩ := decrementRefCount_spec vclose hd
  have hlen := length_of_slot hs
  have heq : f.closeDescriptor vclose pid fdnum =
      ((f.decrementRefCount vclose d).setDescriptor pid fdnum .empty).setProcess pid
        ⟨(((f.decrementRefCount vclose d).setDescriptor pid fdnum .empty).processes pid).fileDescriptors,
          if (((f.decrementRefCount vclose d).setDescriptor pid fdnum .empty).processes pid).firstFreeFdnum
            > fdnum then fdnum else (((f.decrementRefCount vclose d).setDescriptor pid fdnum
              .empty).processes pid).firstFreeFdnum⟩ := by
    rw [closeDescriptor]
    simp only [slot] at hs
    rw [hs]
  refine ⟨?_,heq ▸ hdesc,heq ▸ hnext,heq ▸ hworld⟩
  intro z
  rw [heq,slot_same fun _ => rfl,slot_setDescriptor (by rw [hproc]; exact hlen),
    slot_of_processes hproc]
  rfl

theorem closeDescriptor_move (hc : closes (pid,fdnum)) (hs : f.slot (pid,fdnum) = some d) (hd : f.descriptions d = some desc) :
    Move vclose closes f (f.closeDescriptor vclose pid fdnum) := by
  obtain ⟨hslot,hdesc,hnext,hworld⟩ := closeDescriptor_spec vclose hs hd
  exact .close hc hs hd hslot hdesc hnext hworld

theorem closeDescriptor_moves (hf : f.Sound) (hc : closes (pid,fdnum)) :
    Moves vclose closes f (f.closeDescriptor vclose pid fdnum) := by
  cases hs : f.slot (pid,fdnum) with
  | none =>
    rw [closeDescriptor_none vclose hs]
  | some d =>
    obtain ⟨desc,hd,-⟩ := hf.description hs
    exact .single (closeDescriptor_move vclose hc hs hd)

theorem incrementRefCount_spec (hd : f.descriptions d = some desc) : f.incrementRefCount d =
    f.setDescription d { desc with refCount := desc.refCount + 1 } := by
  rw [incrementRefCount,hd]

theorem Move.same (hslot : ∀ x, f'.slot x = f.slot x) (hdesc : f'.descriptions = f.descriptions)
    (hnext : f'.nextDescription = f.nextDescription) (hworld : f'.world = f.world) :
    Moves vclose closes f f' :=
  .single (.tables hslot hdesc hnext hworld)

theorem closeDescriptor_slot (hf : f.Sound) (pid fdnum : Nat) (x : Nat × Nat) :
    (f.closeDescriptor vclose pid fdnum).slot x = Function.update f.slot (pid,fdnum) none x := by
  cases hs : f.slot (pid,fdnum) with
  | none => rw [closeDescriptor_none vclose hs,Function.update_eq_self_iff.mpr hs.symm]
  | some d =>
    obtain ⟨desc,hd,-⟩ := hf.description hs
    obtain ⟨hproc,-⟩ := decrementRefCount_spec vclose hd
    have hlen := length_of_slot hs
    have hlen' : fdnum < ((f.decrementRefCount vclose d).processes pid).fileDescriptors.length := by
      rw [hproc]
      exact hlen
    simp only [slot] at hs
    simp only [closeDescriptor,hs]
    rw [slot_same fun _ => rfl,slot_setDescriptor hlen',slot_of_processes hproc]
    rfl

theorem closeDescriptor_length (hf : f.Sound) (pid fdnum other : Nat) :
    ((f.closeDescriptor vclose pid fdnum).processes other).fileDescriptors.length =
      (f.processes other).fileDescriptors.length := by
  cases hs : f.slot (pid,fdnum) with
  | none => rw [closeDescriptor_none vclose hs]
  | some d =>
    obtain ⟨desc,hd,-⟩ := hf.description hs
    obtain ⟨hproc,-⟩ := decrementRefCount_spec vclose hd
    simp only [slot] at hs
    simp only [closeDescriptor,hs,setProcess,setDescriptor,hproc]
    rcases eq_or_ne other pid with rfl | hne
    · simp
    · simp [Function.update_of_ne hne]

theorem closeDescriptor_descriptor (hf : f.Sound) (pid fdnum i : Nat) :
    ((f.closeDescriptor vclose pid fdnum).processes pid).descriptor i = .empty ∨
      ((f.closeDescriptor vclose pid fdnum).processes pid).descriptor i =
        (f.processes pid).descriptor i := by
  cases hs : f.slot (pid,fdnum) with
  | none =>
    rw [closeDescriptor_none vclose hs]
    exact .inr rfl
  | some d =>
    obtain ⟨desc,hd,-⟩ := hf.description hs
    obtain ⟨hproc,-⟩ := decrementRefCount_spec vclose hd
    simp only [slot] at hs
    simp only [closeDescriptor,hs,setProcess,setDescriptor,hproc,Function.update_self]
    simp only [Process.descriptor,List.getD_eq_getElem?_getD,List.getElem?_set]
    split_ifs
    · exact .inl rfl
    · exact .inl rfl
    · exact .inr rfl

theorem closeAll_moves (hf : f.Sound) {pid : Nat} {fdnums : List Nat} (which : FileDescriptor → Bool)
    (hempty : which .empty = false)
    (hc : ∀ i ∈ fdnums, which ((f.processes pid).descriptor i) = true → closes (pid,i)) :
    Moves vclose closes f (f.closeAll vclose pid fdnums which) := by
  induction fdnums generalizing f with
  | nil => exact .refl
  | cons fdnum fdnums ih =>
    rw [closeAll,List.foldl_cons]
    split_ifs with hwhich
    · have hclose := closeDescriptor_moves vclose hf (hc fdnum List.mem_cons_self hwhich)
      refine hclose.trans (ih (hf.moves hclose) fun i hi hw => hc i (List.mem_cons_of_mem _ hi) ?_)
      rcases closeDescriptor_descriptor vclose hf pid fdnum i with heq | heq
      · rw [heq,hempty] at hw
        cases hw
      · rwa [heq] at hw
    · exact ih hf fun i hi => hc i (List.mem_cons_of_mem _ hi)

theorem assign_move (y : Nat × Nat) {cloexec : Bool} (hx : f.slot (pid,fdnum) = none)
    (hlen : fdnum < (f.processes pid).fileDescriptors.length) (hy : f.slot y = some d)
    (hd : f.descriptions d = some desc) :
    Move vclose closes f ((f.incrementRefCount d).setDescriptor pid fdnum ⟨some d,cloexec⟩) := by
  rw [incrementRefCount_spec hd]
  exact .dup hx hy hd (fun z => slot_setDescriptor hlen z) rfl rfl rfl

theorem duplicate_eq {g : Files V W} {keepFlags : Bool} (hs : f.slot (pid,fdnum) = some d) :
    g.duplicate ((f.processes pid).descriptor fdnum) keepFlags = (g.incrementRefCount d,
      ⟨some d,keepFlags && ((f.processes pid).descriptor fdnum).cloexec⟩) := by
  simp only [slot] at hs
  rw [duplicate,hs]

theorem dupfd_moves (hf : f.Sound) (fd arg : Int) (cloexec : Bool) :
    Moves vclose closes f (f.dupfd pid fd arg cloexec).1 := by
  rw [dupfd]
  cases hl : (f.processes pid).lookup fd with
  | none => exact .refl
  | some x =>
    have hs := lookup_some hl
    obtain ⟨desc,hd,-⟩ := hf.description hs
    obtain ⟨hslot,hfree,hlen⟩ := allocateFdnum_spec f pid arg
    simp only [duplicate_eq hs]
    refine .tail (.single (.tables hslot rfl rfl rfl)) (assign_move vclose (pid,x.1) ?_ hlen ?_ hd)
    · rw [hslot,hfree]
    · rw [hslot,hs]

theorem setCloexec_moves (cloexec : Bool) : Moves vclose closes f (f.setCloexec pid fdnum cloexec) :=
  Move.same vclose (setCloexec_slot cloexec) rfl rfl rfl

theorem setCloexecAll_moves (fdnums : List Nat) : Moves vclose closes f (fdnums.foldl (fun f fdnum =>
    if ((f.processes pid).descriptor fdnum).description.isNone then f
    else f.setCloexec pid fdnum true) f) := by
  induction fdnums generalizing f with
  | nil => exact .refl
  | cons fdnum fdnums ih =>
    rw [List.foldl_cons]
    split_ifs
    · exact ih
    · exact (setCloexec_moves vclose true).trans ih

theorem close_moves (hf : f.Sound) {fd : Int} (hc : ∀ i : Nat, (i : Int) = fd → closes (pid,i)) :
    Moves vclose closes f (f.close vclose pid fd).1 := by
  rw [close]
  split
  · exact .refl
  · rename_i hl
    exact closeDescriptor_moves vclose hf (hc _ (lookup_fst hl))

theorem closeRange_moves (hf : f.Sound) {first last : Nat} {cloexec : Bool}
    (hc : ∀ i, cloexec = false → first ≤ i → i ≤ last → closes (pid,i)) :
    Moves vclose closes f (f.closeRange vclose pid first last cloexec).1 := by
  rw [closeRange]
  split_ifs with hrange hcloexec
  · exact .refl
  · exact setCloexecAll_moves vclose _
  · refine closeAll_moves vclose hf (·.description.isSome) rfl fun i hi _ =>
      hc i (Bool.eq_false_iff.mpr hcloexec) ?_ ?_
    · exact (List.mem_range'_1.mp hi).1
    · have hlt := (List.mem_range'_1.mp hi).2
      omega

theorem setfd_moves (fd : Int) (cloexec : Bool) : Moves vclose closes f (f.setfd pid fd cloexec).1 := by
  rw [setfd]
  split
  · exact .refl
  · exact setCloexec_moves vclose cloexec

theorem setfl_moves (fd : Int) (arg : UInt64) : Moves vclose closes f (f.setfl pid fd arg).1 := by
  rw [setfl]
  split
  · exact .refl
  · split
    · exact .refl
    · rename_i desc hd
      exact .single (.flags hd (fun _ => rfl) rfl rfl rfl)

theorem dup3_moves (hf : f.Sound) {oldfd newfd : Int} (cloexec : Bool)
    (hc : ∀ i : Nat, oldfd ≠ newfd → ((f.processes pid).lookup oldfd).isSome → (i : Int) = newfd →
      newfd ≤ 1023 → closes (pid,i)) :
    Moves vclose closes f (f.dup3 vclose pid oldfd newfd cloexec).1 := by
  rw [dup3]
  by_cases hrange : newfd > 1023 ∨ newfd < 0
  · rw [if_pos hrange]
  rw [if_neg hrange]
  cases hl : (f.processes pid).lookup oldfd with
  | none => exact .refl
  | some x =>
    by_cases heq : oldfd = newfd
    · simp only [if_pos heq]
      exact .refl
    simp only [if_neg heq]
    have hs := lookup_some hl
    obtain ⟨desc,hd,-⟩ := hf.description hs
    have hne : x.1 ≠ newfd.toNat := by
      rw [Process.lookup] at hl
      split_ifs at hl
      obtain ⟨e,he,rfl⟩ := Option.map_eq_some_iff.mp hl
      dsimp only
      omega
    have hempty : ∀ m ∈ List.replicate (newfd.toNat + 1 - (f.processes pid).fileDescriptors.length)
        FileDescriptor.empty, m.description = none := by
      intro m hm
      rw [List.eq_of_mem_replicate hm]
      rfl
    have hlong : newfd.toNat < ((f.processes pid).fileDescriptors ++ List.replicate
        (newfd.toNat + 1 - (f.processes pid).fileDescriptors.length) FileDescriptor.empty).length := by
      rw [List.length_append,List.length_replicate]
      omega
    have hgrown := slot_appended f pid _ (f.processes pid).firstFreeFdnum hempty
    generalize (f.processes pid).fileDescriptors ++ List.replicate
      (newfd.toNat + 1 - (f.processes pid).fileDescriptors.length) FileDescriptor.empty = fds at *
    have hmove : Moves vclose closes f (f.setProcess pid ⟨fds,(f.processes pid).firstFreeFdnum⟩) :=
      Move.same vclose hgrown rfl rfl rfl
    have hfds : ((f.setProcess pid ⟨fds,(f.processes pid).firstFreeFdnum⟩).processes pid).fileDescriptors
        = fds := by
      rw [setProcess_self]
    have hf' := hf.moves hmove
    generalize f.setProcess pid ⟨fds,(f.processes pid).firstFreeFdnum⟩ = g at *
    have hclose := closeDescriptor_moves vclose hf'
      (hc newfd.toNat heq (by rw [hl]; rfl) (by omega) (by omega))
    have hslot := closeDescriptor_slot vclose hf' pid newfd.toNat
    have hlen := closeDescriptor_length vclose hf' pid newfd.toNat pid
    have hold : (g.closeDescriptor vclose pid newfd.toNat).slot (pid,x.1) = some x.2 := by
      rw [hslot,Function.update_of_ne (by simpa using hne),hgrown,hs]
    obtain ⟨desc',hd',-⟩ := (hf'.moves hclose).description hold
    simp only [duplicate_eq hs]
    refine (hmove.trans hclose).tail (assign_move vclose (pid,x.1) ?_ ?_ hold hd')
    · rw [hslot,Function.update_self]
    · rw [hlen,hfds]
      exact hlong

theorem pushDescriptor_slot (x : Nat × Nat) : (f.pushDescriptor pid descriptor).slot x =
    Function.update f.slot (pid,(f.processes pid).fileDescriptors.length) descriptor.description x := by
  rw [pushDescriptor,slot_setProcess,Function.update_apply]
  simp only [Process.descriptor,List.getD_eq_getElem?_getD,List.getElem?_append,Prod.ext_iff]
  by_cases hx : x.1 = pid
  · rw [if_pos hx]
    rcases Nat.lt_trichotomy x.2 (f.processes pid).fileDescriptors.length with hlt | heq | hgt
    · simp [hx,hlt,Nat.ne_of_lt hlt,slot,Process.descriptor,List.getD_eq_getElem?_getD]
    · simp [hx,heq]
    · have hnone : [descriptor][x.2 - (f.processes pid).fileDescriptors.length]? = none :=
        List.getElem?_eq_none (by simp; omega)
      rw [if_neg (by omega),hnone,if_neg (by omega),slot,hx,Process.descriptor,
        List.getD_eq_default _ _ hgt.le]
      rfl
  · simp [hx]

theorem push_free : f.slot (pid,(f.processes pid).fileDescriptors.length) = none := by
  rw [slot,Process.descriptor,List.getD_eq_default _ _ (Nat.le_refl _)]
  rfl

theorem forkAll_moves (hf : f.Sound) {child : Nat} (fds : List FileDescriptor)
    (hfds : ∀ m ∈ fds, ∀ d, m.description = some d → ∃ y, y.1 ≠ child ∧ f.slot y = some d) :
    Moves vclose closes f (fds.foldl (fun f descriptor =>
      (f.duplicate descriptor true).1.pushDescriptor child (f.duplicate descriptor true).2) f) := by
  induction fds generalizing f with
  | nil => exact .refl
  | cons m fds ih =>
    rw [List.foldl_cons]
    rcases m with ⟨_ | d,cloexec⟩
    · have hslot : ∀ x, (f.pushDescriptor child ⟨none,cloexec⟩).slot x = f.slot x := by
        intro x
        rw [pushDescriptor_slot,Function.update_eq_self_iff.mpr push_free.symm]
      have hmove : Moves vclose closes f (f.pushDescriptor child ⟨none,cloexec⟩) :=
        Move.same vclose hslot rfl rfl rfl
      refine hmove.trans (ih (hf.moves hmove) ?_)
      intro m' hm' d hd
      simp only [hslot]
      exact hfds m' (List.mem_cons_of_mem _ hm') d hd
    · obtain ⟨y,hy,hyd⟩ := hfds _ List.mem_cons_self d rfl
      obtain ⟨desc,hd,-⟩ := hf.description hyd
      have hinc := incrementRefCount_spec hd
      have hslot : ∀ x, ((f.incrementRefCount d).pushDescriptor child ⟨some d,cloexec⟩).slot x =
          Function.update f.slot (child,(f.processes child).fileDescriptors.length) (some d) x := by
        intro x
        rw [pushDescriptor_slot,hinc]
        rfl
      have hmove : Moves vclose closes f ((f.incrementRefCount d).pushDescriptor child ⟨some d,cloexec⟩) :=
        .single (.dup push_free hyd hd hslot (by rw [hinc]; rfl) (by rw [hinc]; rfl) (by rw [hinc]; rfl))
      refine hmove.trans (ih (hf.moves hmove) ?_)
      intro m' hm' e he
      obtain ⟨z,hz,hze⟩ := hfds m' (List.mem_cons_of_mem _ hm') e he
      refine ⟨z,hz,?_⟩
      rw [hslot,Function.update_of_ne (fun h => hz (congrArg Prod.fst h)),hze]

theorem fork_moves (hf : f.Sound) {child : Nat} (hchild : f.processes child = {}) (hne : child ≠ pid) :
    Moves vclose closes f (f.fork pid child) := by
  have hempty : ∀ x : Nat × Nat, x.1 = child → f.slot x = none := by
    rintro x rfl
    rw [slot,hchild]
    rfl
  have hsame : f.setProcess child {} = f := by
    rw [setProcess,← hchild,Function.update_eq_self]
  rw [fork]
  dsimp only
  rw [hsame]
  refine (forkAll_moves vclose hf (f.processes pid).fileDescriptors ?_).trans
    (Move.same vclose (fun x => slot_same (fun _ => rfl) x) rfl rfl rfl)
  intro m hm d hd
  obtain ⟨i,hi⟩ := List.getElem?_of_mem hm
  refine ⟨(pid,i),hne.symm,?_⟩
  rw [slot,Process.descriptor,List.getD_eq_getElem?_getD,hi]
  exact hd

theorem exec_moves (hf : f.Sound)
    (hc : ∀ i, ((f.processes pid).descriptor i).cloexec = true → closes (pid,i)) :
    Moves vclose closes f (f.exec vclose pid) :=
  closeAll_moves vclose hf (·.cloexec) rfl fun i _ => hc i

theorem exit_moves (hf : f.Sound) (hc : ∀ i, closes (pid,i)) : Moves vclose closes f (f.exit vclose pid) :=
  closeAll_moves vclose hf (·.description.isSome) rfl fun i _ _ => hc i

theorem run_moves (hf : f.Sound) (call : Call) : Moves vclose (call.Closes f) f (f.run vclose call) := by
  cases call with
  | close pid fd => exact close_moves vclose hf fun i hi => ⟨rfl,hi⟩
  | closeRange pid first last cloexec =>
    exact closeRange_moves vclose hf fun i hcloexec hfirst hlast => ⟨hcloexec,rfl,hfirst,hlast⟩
  | dupfd pid fd arg cloexec => exact dupfd_moves vclose hf fd arg cloexec
  | dup3 pid oldfd newfd cloexec =>
    exact dup3_moves vclose hf cloexec fun i hne hold hi hmax => ⟨hne,hold,rfl,hi,hmax⟩
  | setfd pid fd cloexec => exact setfd_moves vclose fd cloexec
  | setfl pid fd arg => exact setfl_moves vclose fd arg
  | fork pid child =>
    rw [run]
    split_ifs with h
    · exact fork_moves vclose hf h.1 h.2
    · exact .refl
  | exec pid => exact exec_moves vclose hf fun i hi => ⟨rfl,hi⟩
  | exit pid => exact exit_moves vclose hf fun _ => rfl

end Calls

section Open

variable {vnode : V} {flags : UInt64} {cloexec : Bool}

theorem openDescription_rest (f : Files V W) (pid : Nat) (vnode : V) (flags : UInt64) (cloexec : Bool) :
    (f.openDescription pid vnode flags cloexec).1.descriptions =
      Function.update f.descriptions f.nextDescription (some ⟨vnode,flags,1⟩) ∧
    (f.openDescription pid vnode flags cloexec).1.nextDescription = f.nextDescription + 1 ∧
    (f.openDescription pid vnode flags cloexec).1.world = f.world := ⟨rfl,rfl,rfl⟩

theorem openDescription_slot (f : Files V W) (pid : Nat) (vnode : V) (flags : UInt64) (cloexec : Bool) :
    f.slot (pid,(f.openDescription pid vnode flags cloexec).2) = none ∧
      ∀ x, (f.openDescription pid vnode flags cloexec).1.slot x = Function.update f.slot
        (pid,(f.openDescription pid vnode flags cloexec).2) (some f.nextDescription) x := by
  obtain ⟨hslot,hfree,hlen⟩ := allocateFdnum_spec f pid 0
  refine ⟨hfree,fun x => ?_⟩
  refine (slot_setDescriptor ?_ x).trans ?_
  · exact hlen
  · exact congrFun (congrArg (fun s => Function.update s _ _) (funext hslot)) x

theorem Sound.openDescription (hf : f.Sound) :
    (f.openDescription pid vnode flags cloexec).1.Sound := by
  obtain ⟨hdesc,hnext,-⟩ := openDescription_rest f pid vnode flags cloexec
  obtain ⟨hfree,hslot⟩ := openDescription_slot f pid vnode flags cloexec
  have hnew : f.refCount f.nextDescription = 0 := by
    rw [refCount,hf.fresh _ (Nat.le_refl _)]
    rfl
  refine ⟨?_,?_,?_⟩
  · rw [refCount_update (n := f.refCount f.nextDescription + 1) (by rw [hnew]) hdesc]
    exact (hf.held.assign hfree).congr hslot
  · intro x e hx
    rw [hslot] at hx
    rw [hdesc]
    rcases eq_or_ne e f.nextDescription with rfl | hne
    · rw [Function.update_self]
      rfl
    · rw [Function.update_of_ne hne]
      rcases eq_or_ne x (pid,(f.openDescription pid vnode flags cloexec).2) with rfl | hx'
      · rw [Function.update_self] at hx
        exact absurd (Option.some.inj hx).symm hne
      · rw [Function.update_of_ne hx'] at hx
        exact hf.known x e hx
  · intro e he
    rw [hnext] at he
    rw [hdesc,Function.update_of_ne (by omega)]
    exact hf.fresh e (by omega)

end Open

end SabaOS.Fs.Files
