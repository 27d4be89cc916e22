import Mathlib.Order.Bounds.Defs
import SabaOS.Fs.DescriptorMoves

namespace SabaOS.Fs.Files

open SabaOS.Lib

variable {V W : Type} {vclose : FileDescription V → W → W} {f f' : Files V W} {pid fdnum d : Nat}

def Cursor (f : Files V W) : Prop :=
  ∀ pid, ∀ i : Nat, (i : Int) < (f.processes pid).firstFreeFdnum → f.slot (pid,i) ≠ none

def free (f : Files V W) (pid minFdnum : Nat) : Set Nat :=
  {n | minFdnum ≤ n ∧ f.slot (pid,n) = none}

inductive Uses (vclose : FileDescription V → W → W) : Files V W → Files V W → Prop
  | opened {f : Files V W} (pid : Nat) (vnode : V) (flags : UInt64) (cloexec : Bool) :
      Uses vclose f (f.openDescription pid vnode flags cloexec).1
  | called {f : Files V W} (call : Call) : Uses vclose f (f.run vclose call)

section Allocate

-- Where the scan of `allocate_fdnum` begins.
def scanStart (f : Files V W) (pid : Nat) (minFdnum : Int) : Nat :=
  (if minFdnum < (f.processes pid).firstFreeFdnum then (f.processes pid).firstFreeFdnum
    else minFdnum).toNat

theorem allocateFdnum_scan (f : Files V W) (pid : Nat) (minFdnum : Int) :
    (∀ j, f.scanStart pid minFdnum ≤ j → j < (f.allocateFdnum pid minFdnum).2 →
      f.slot (pid,j) ≠ none) ∧
    (f.scanStart pid minFdnum ≤ (f.allocateFdnum pid minFdnum).2 ∨
      (f.allocateFdnum pid minFdnum).2 = (f.processes pid).fileDescriptors.length) ∧
    (f.allocateFdnum pid minFdnum).2 ≤ (f.processes pid).fileDescriptors.length := by
  rw [allocateFdnum,Process.allocateFdnum,scanStart]
  dsimp only
  generalize ((if minFdnum < (f.processes pid).firstFreeFdnum then (f.processes pid).firstFreeFdnum
    else minFdnum).toNat) = first
  cases hfind : (List.range' first ((f.processes pid).fileDescriptors.length - first)).find?
      fun i => ((f.processes pid).descriptor i).description.isNone with
  | some i =>
    obtain ⟨-,hmem,hscan⟩ := List.find?_range'_eq_some.mp hfind
    have hi := List.mem_range'_1.mp hmem
    refine ⟨fun j hj hlt hfree => ?_,.inl hi.1,by dsimp only; omega⟩
    have := hscan j hj hlt
    simp only [slot] at hfree
    simp [hfree] at this
  | none =>
    refine ⟨fun j hj hlt hfree => ?_,.inr rfl,Nat.le_refl _⟩
    have := List.find?_range'_eq_none.mp hfind j hj (by dsimp only at hlt; omega)
    simp only [slot] at hfree
    simp [hfree] at this

theorem allocateFdnum_cursor (f : Files V W) (pid : Nat) (minFdnum : Int) (other : Nat) :
    ((f.allocateFdnum pid minFdnum).1.processes other).firstFreeFdnum ≤
      (f.processes other).firstFreeFdnum ∨
    other = pid ∧ minFdnum < (f.processes pid).firstFreeFdnum ∧
      ((f.allocateFdnum pid minFdnum).1.processes other).firstFreeFdnum ≤
        (f.allocateFdnum pid minFdnum).2 + 1 := by
  rcases eq_or_ne other pid with rfl | hne
  · rw [allocateFdnum,Process.allocateFdnum]
    dsimp only
    generalize ((if minFdnum < (f.processes other).firstFreeFdnum then
      (f.processes other).firstFreeFdnum else minFdnum).toNat) = first
    by_cases hmin : minFdnum < (f.processes other).firstFreeFdnum
    · refine .inr ⟨rfl,hmin,?_⟩
      simp only [if_pos hmin]
      split
      · simp
      · simp
    · simp only [if_neg hmin]
      refine .inl ?_
      split
      · simp
      · simp
  · refine .inl ?_
    rw [allocateFdnum]
    simp [setProcess,Function.update_of_ne hne]

variable (hf : f.Cursor)

include hf

theorem Cursor.scanned {minFdnum : Int} {j : Nat} (hlow : minFdnum ≤ j)
    (hj : j < (f.allocateFdnum pid minFdnum).2) : f.slot (pid,j) ≠ none := by
  by_cases hcursor : (j : Int) < (f.processes pid).firstFreeFdnum
  · exact hf pid j hcursor
  · refine (allocateFdnum_scan f pid minFdnum).1 j ?_ hj
    rw [scanStart]
    split_ifs
    · omega
    · omega

theorem Cursor.allocate_least_iff (minFdnum : Nat) :
    IsLeast (f.free pid minFdnum) (f.allocateFdnum pid minFdnum).2 ↔
      minFdnum ≤ (f.processes pid).fileDescriptors.length := by
  obtain ⟨-,hlow,hsize⟩ := allocateFdnum_scan f pid minFdnum
  obtain ⟨-,hfree,-⟩ := allocateFdnum_spec f pid minFdnum
  refine ⟨fun h => Nat.le_trans h.1.1 hsize,fun hmin => ⟨⟨?_,hfree⟩,?_⟩⟩
  · have hstart : minFdnum ≤ f.scanStart pid minFdnum := by
      rw [scanStart]
      split_ifs
      · omega
      · omega
    rcases hlow with h | h
    · exact Nat.le_trans hstart h
    · exact h ▸ hmin
  · intro n hn
    by_contra hlt
    exact hf.scanned (Int.ofNat_le.mpr hn.1) (Nat.lt_of_not_le hlt) hn.2

theorem Cursor.taken_below (minFdnum : Int) {i : Nat}
    (hi : (i : Int) < ((f.allocateFdnum pid minFdnum).1.processes pid).firstFreeFdnum)
    (hne : i ≠ (f.allocateFdnum pid minFdnum).2) : f.slot (pid,i) ≠ none := by
  rcases allocateFdnum_cursor f pid minFdnum pid with hle | ⟨-,hmin,hle⟩
  · exact hf pid i (by omega)
  · by_cases hcursor : (i : Int) < (f.processes pid).firstFreeFdnum
    · exact hf pid i hcursor
    · exact @Cursor.scanned _ _ _ _ hf minFdnum i (by omega) (by omega)

end Allocate

section Kept

def first (f : Files V W) (pid : Nat) : Int := (f.processes pid).firstFreeFdnum

theorem first_setProcess {p : Process} {other : Nat} : (f.setProcess pid p).first other =
    if other = pid then p.firstFreeFdnum else f.first other := by
  simp only [first,setProcess,Function.update_apply]
  split_ifs
  · rfl
  · rfl

@[simp]
theorem first_setDescriptor {descriptor : FileDescriptor} {other : Nat} :
    (f.setDescriptor pid fdnum descriptor).first other = f.first other := by
  rw [setDescriptor,first_setProcess]
  split_ifs with h
  · rw [h]
    rfl
  · rfl

theorem incrementRefCount_processes : (f.incrementRefCount d).processes = f.processes := by
  rw [incrementRefCount]
  cases f.descriptions d with
  | none => rfl
  | some desc => rfl

theorem Cursor.congr (hf : f.Cursor) (hslot : ∀ x, f'.slot x = f.slot x)
    (hfirst : ∀ pid, f'.first pid ≤ f.first pid) : f'.Cursor := by
  intro pid i hi
  rw [hslot]
  exact hf pid i (Int.lt_of_lt_of_le hi (hfirst pid))

theorem Cursor.fill (hslot : ∀ x, f'.slot x = Function.update f.slot (pid,fdnum) (some d) x)
    (hfirst : ∀ other, ∀ i : Nat, (i : Int) < f'.first other → (other,i) ≠ (pid,fdnum) →
      f.slot (other,i) ≠ none) : f'.Cursor := by
  intro other i hi
  rw [hslot,Function.update_apply]
  split_ifs with h
  · simp
  · exact hfirst other i hi h

theorem Cursor.allocated (hf : f.Cursor) (minFdnum : Int)
    (hslot : ∀ x, f'.slot x =
      Function.update f.slot (pid,(f.allocateFdnum pid minFdnum).2) (some d) x)
    (hfirst : ∀ other, f'.first other = (f.allocateFdnum pid minFdnum).1.first other) :
    f'.Cursor := by
  refine .fill hslot fun other i hi hne => ?_
  rw [hfirst] at hi
  rcases eq_or_ne other pid with rfl | hother
  · exact hf.taken_below minFdnum hi (by simpa using hne)
  · rcases allocateFdnum_cursor f pid minFdnum other with hle | ⟨heq,-⟩
    · exact hf other i (Int.lt_of_lt_of_le hi hle)
    · exact absurd heq hother

theorem Cursor.openDescription (hf : f.Cursor) (pid : Nat) (vnode : V) (flags : UInt64)
    (cloexec : Bool) : (f.openDescription pid vnode flags cloexec).1.Cursor :=
  hf.allocated 0 (openDescription_slot f pid vnode flags cloexec).2 fun _ => first_setDescriptor

theorem Cursor.closeDescriptor (hf : f.Cursor) (hs : f.Sound) (pid fdnum : Nat) :
    (f.closeDescriptor vclose pid fdnum).Cursor := by
  cases hd : f.slot (pid,fdnum) with
  | none => rwa [closeDescriptor_none vclose hd]
  | some d =>
    obtain ⟨desc,hdesc,-⟩ := hs.description hd
    obtain ⟨hproc,-⟩ := decrementRefCount_spec vclose hdesc
    have hfirst : ∀ other, (f.closeDescriptor vclose pid fdnum).first other =
        if other = pid then min (f.first pid) fdnum else f.first other := by
      intro other
      have hsame : (((f.decrementRefCount vclose d).setDescriptor pid fdnum .empty).processes
          pid).firstFreeFdnum = f.first pid := by
        simp [first,setDescriptor,setProcess,hproc]
      simp only [slot] at hd
      simp only [Files.closeDescriptor,hd,first_setProcess,first_setDescriptor,hsame]
      split_ifs with h
      · omega
      · omega
      · rw [first,first,hproc]
    intro other i hi
    rw [closeDescriptor_slot vclose hs,Function.update_apply]
    have hi' : (i : Int) < if other = pid then min (f.first pid) fdnum else f.first other :=
      hfirst other ▸ hi
    split_ifs at hi' with h
    · subst h
      rw [if_neg (by simp; omega)]
      exact hf other i (show (i : Int) < f.first other by omega)
    · rw [if_neg (by simp [h])]
      exact hf other i hi'

theorem Cursor.closeAll (hf : f.Cursor) (hs : f.Sound) (pid : Nat) (fdnums : List Nat)
    (which : FileDescriptor → Bool) : (f.closeAll vclose pid fdnums which).Cursor := by
  induction fdnums generalizing f with
  | nil => exact hf
  | cons fdnum fdnums ih =>
    rw [Files.closeAll,List.foldl_cons]
    split_ifs
    · have hmoves : Moves vclose (fun _ => True) f (f.closeDescriptor vclose pid fdnum) :=
        closeDescriptor_moves vclose hs trivial
      exact ih (hf.closeDescriptor hs pid fdnum) (hs.moves hmoves)
    · exact ih hf hs

theorem Cursor.setCloexec (hf : f.Cursor) (cloexec : Bool) : (f.setCloexec pid fdnum cloexec).Cursor :=
  hf.congr (setCloexec_slot cloexec) fun _ => Int.le_of_eq first_setDescriptor

theorem Cursor.setCloexecAll (hf : f.Cursor) (fdnums : List Nat) : (fdnums.foldl (fun f fdnum =>
    if ((f.processes pid).descriptor fdnum).description.isNone then f
    else f.setCloexec pid fdnum true) f).Cursor := by
  induction fdnums generalizing f with
  | nil => exact hf
  | cons fdnum fdnums ih =>
    rw [List.foldl_cons]
    split_ifs
    · exact ih hf
    · exact ih (hf.setCloexec true)

theorem assigned_slot {cloexec : Bool} (hlen : fdnum < (f.processes pid).fileDescriptors.length)
    (x : Nat × Nat) : ((f.incrementRefCount d).setDescriptor pid fdnum ⟨some d,cloexec⟩).slot x =
      Function.update f.slot (pid,fdnum) (some d) x := by
  rw [slot_setDescriptor (by rwa [incrementRefCount_processes]),
    slot_of_processes incrementRefCount_processes]

theorem assigned_first {descriptor : FileDescriptor} {other : Nat} :
    ((f.incrementRefCount d).setDescriptor pid fdnum descriptor).first other = f.first other := by
  rw [first_setDescriptor,first,incrementRefCount_processes]
  rfl

theorem Cursor.dupfd (hf : f.Cursor) (fd arg : Int) (cloexec : Bool) :
    (f.dupfd pid fd arg cloexec).1.Cursor := by
  rw [Files.dupfd]
  cases hl : (f.processes pid).lookup fd with
  | none => exact hf
  | some x =>
    obtain ⟨hslot,-,hlen⟩ := allocateFdnum_spec f pid arg
    simp only [duplicate_eq (lookup_some hl)]
    refine hf.allocated arg (d := x.2) (fun z => ?_) fun _ => assigned_first
    rw [assigned_slot hlen,funext hslot]

theorem Cursor.dup3 (hf : f.Cursor) (hs : f.Sound) (oldfd newfd : Int) (cloexec : Bool) :
    (f.dup3 vclose pid oldfd newfd cloexec).1.Cursor := by
  rw [Files.dup3]
  by_cases hrange : newfd > 1023 ∨ newfd < 0
  · rw [if_pos hrange]
    exact hf
  rw [if_neg hrange]
  cases hl : (f.processes pid).lookup oldfd with
  | none => exact hf
  | some x =>
    by_cases heq : oldfd = newfd
    · simp only [if_pos heq]
      exact hf
    simp only [if_neg heq]
    have hempty : ∀ m ∈ List.replicate (newfd.toNat + 1 - (f.processes pid).fileDescriptors.length)
        FileDescriptor.empty, m.description = none := by
      intro m hm
      rw [List.eq_of_mem_replicate hm]
      rfl
    have hgrown := slot_appended f pid _ (f.processes pid).firstFreeFdnum hempty
    simp only [duplicate_eq (lookup_some hl)]
    have hlong : newfd.toNat < ((f.processes pid).fileDescriptors ++ List.replicate
        (newfd.toNat + 1 - (f.processes pid).fileDescriptors.length) FileDescriptor.empty).length := by
      rw [List.length_append,List.length_replicate]
      omega
    generalize (f.processes pid).fileDescriptors ++ List.replicate
      (newfd.toNat + 1 - (f.processes pid).fileDescriptors.length) FileDescriptor.empty = fds at *
    have hmove : Move vclose (fun _ => True) f
        (f.setProcess pid ⟨fds,(f.processes pid).firstFreeFdnum⟩) := .tables hgrown rfl rfl rfl
    have hgs := hs.move hmove
    have hg : (f.setProcess pid ⟨fds,(f.processes pid).firstFreeFdnum⟩).Cursor := by
      refine hf.congr hgrown fun other => ?_
      rw [first_setProcess]
      split_ifs with h
      · rw [h]
        exact Int.le_refl _
      · exact Int.le_refl _
    have hfds : ((f.setProcess pid ⟨fds,(f.processes pid).firstFreeFdnum⟩).processes
        pid).fileDescriptors = fds := by
      rw [setProcess_self]
    generalize f.setProcess pid ⟨fds,(f.processes pid).firstFreeFdnum⟩ = g at *
    have hclosed : (g.closeDescriptor vclose pid newfd.toNat).Cursor := hg.closeDescriptor hgs pid _
    have hlen := closeDescriptor_length vclose hgs pid newfd.toNat pid
    refine .fill (assigned_slot (by rw [hlen,hfds]; exact hlong)) fun other i hi _ => ?_
    rw [assigned_first] at hi
    exact hclosed other i hi

theorem duplicate_spec (descriptor : FileDescriptor) (keepFlags : Bool) :
    (f.duplicate descriptor keepFlags).1.processes = f.processes ∧
      (f.duplicate descriptor keepFlags).2.description = descriptor.description := by
  rw [duplicate]
  cases hd : descriptor.description with
  | none => exact ⟨rfl,hd⟩
  | some d => exact ⟨incrementRefCount_processes,rfl⟩

theorem forkAll_table (child : Nat) (fds : List FileDescriptor) (f : Files V W) :
    let g := fds.foldl (fun f descriptor =>
      (f.duplicate descriptor true).1.pushDescriptor child (f.duplicate descriptor true).2) f
    (∀ other, other ≠ child → g.processes other = f.processes other) ∧
      (g.processes child).fileDescriptors.map (·.description) =
        (f.processes child).fileDescriptors.map (·.description) ++ fds.map (·.description) := by
  induction fds generalizing f with
  | nil => exact ⟨fun _ _ => rfl,by simp⟩
  | cons descriptor fds ih =>
    obtain ⟨hproc,hdesc⟩ := duplicate_spec (f := f) descriptor true
    obtain ⟨hrest,htable⟩ :=
      ih ((f.duplicate descriptor true).1.pushDescriptor child (f.duplicate descriptor true).2)
    refine ⟨fun other hother => ?_,?_⟩
    · rw [List.foldl_cons,hrest other hother]
      simp [pushDescriptor,setProcess,hother,hproc]
    · rw [List.foldl_cons,htable]
      simp [pushDescriptor,hproc,hdesc]

theorem slot_map (x : Nat × Nat) : f.slot x =
    (((f.processes x.1).fileDescriptors.map (·.description))[x.2]?).join := by
  rw [slot,Process.descriptor,List.getD_eq_getElem?_getD,List.getElem?_map]
  cases (f.processes x.1).fileDescriptors[x.2]? with
  | none => rfl
  | some m => rfl

theorem Cursor.fork (hf : f.Cursor) {child : Nat} (hchild : f.processes child = {})
    (hne : child ≠ pid) : (f.fork pid child).Cursor := by
  have hsame : f.setProcess child {} = f := by
    rw [setProcess,← hchild,Function.update_eq_self]
  rw [Files.fork]
  dsimp only
  rw [hsame]
  obtain ⟨hrest,htable⟩ := forkAll_table child (f.processes pid).fileDescriptors f
  generalize (f.processes pid).fileDescriptors.foldl (fun f descriptor =>
    (f.duplicate descriptor true).1.pushDescriptor child (f.duplicate descriptor true).2) f = g at *
  intro other i hi
  rw [slot_same (fun _ => rfl)]
  change (i : Int) < (g.setProcess child ⟨_,f.first pid⟩).first other at hi
  rw [first_setProcess] at hi
  split_ifs at hi with h
  · subst h
    have hslot : g.slot (other,i) = f.slot (pid,i) := by
      rw [slot_map,slot_map,htable,hchild]
      rfl
    rw [hslot]
    exact hf pid i hi
  · rw [first,hrest other h] at hi
    rw [slot,hrest other h]
    exact hf other i hi

theorem Cursor.run (hf : f.Cursor) (hs : f.Sound) (call : Call) : (f.run vclose call).Cursor := by
  cases call with
  | close pid fd =>
    rw [Files.run,Files.close]
    cases (f.processes pid).lookup fd with
    | none => exact hf
    | some x => exact hf.closeDescriptor hs pid x.1
  | closeRange pid first last cloexec =>
    rw [Files.run,Files.closeRange]
    split_ifs
    · exact hf
    · exact hf.setCloexecAll _
    · exact hf.closeAll hs pid _ _
  | dupfd pid fd arg cloexec => exact hf.dupfd fd arg cloexec
  | dup3 pid oldfd newfd cloexec => exact hf.dup3 hs oldfd newfd cloexec
  | setfd pid fd cloexec =>
    rw [Files.run,Files.setfd]
    cases (f.processes pid).lookup fd with
    | none => exact hf
    | some x => exact hf.setCloexec cloexec
  | setfl pid fd arg =>
    rw [Files.run,Files.setfl]
    cases (f.processes pid).lookup fd with
    | none => exact hf
    | some x =>
      dsimp only
      cases f.descriptions x.2 with
      | none => exact hf
      | some desc => exact hf.congr (fun _ => rfl) fun _ => Int.le_refl _
  | fork pid child =>
    rw [Files.run]
    split_ifs with h
    · exact hf.fork h.1 h.2
    · exact hf
  | exec pid => exact hf.closeAll hs pid _ _
  | exit pid => exact hf.closeAll hs pid _ _

end Kept

def boot (console : V) (world : W) : Files V W where
  descriptions := fun d => if d = 0 then some ⟨console,oRdonly,1⟩
    else if d = 1 ∨ d = 2 then some ⟨console,oWronly,1⟩ else none
  nextDescription := 3
  processes := fun pid => if pid = 1 then ⟨[⟨some 0,false⟩,⟨some 1,false⟩,⟨some 2,false⟩],3⟩ else {}
  world := world

theorem boot_slot (console : V) (world : W) (x : Nat × Nat) :
    (boot console world).slot x = if x.1 = 1 ∧ x.2 < 3 then some x.2 else none := by
  obtain ⟨pid,i⟩ := x
  simp only [slot,boot]
  by_cases hpid : pid = 1
  · rcases i with _ | _ | _ | i
    · simp [hpid,Process.descriptor]
    · simp [hpid,Process.descriptor]
    · simp [hpid,Process.descriptor]
    · simp [hpid,Process.descriptor,FileDescriptor.empty]
  · simp [hpid,Process.descriptor,FileDescriptor.empty]

theorem Sound.boot (console : V) (world : W) : (boot console world).Sound := by
  refine ⟨fun d => ?_,?_,?_⟩
  · refine ⟨if d < 3 then {(1,d)} else ∅,fun x => ?_,?_⟩
    · rw [boot_slot]
      split_ifs with hd hx hx
      · simp only [Finset.mem_singleton,Prod.ext_iff,Option.some.injEq]
        omega
      · simp only [Finset.mem_singleton,Prod.ext_iff]
        refine iff_of_false (fun h => hx ⟨h.1,h.2 ▸ hd⟩) (by simp)
      · simp only [Finset.notMem_empty,Option.some.injEq,false_iff]
        omega
      · simp
    · simp only [refCount,Files.boot]
      split_ifs with h₀ h₁ h₂ h₂
      · rfl
      · omega
      · rfl
      · omega
      · omega
      · rfl
  · intro x d hx
    rw [boot_slot] at hx
    split_ifs at hx with h
    cases hx
    simp only [Files.boot]
    split_ifs
    · rfl
    · rfl
    · omega
  · intro d hd
    have : 3 ≤ d := hd
    simp only [Files.boot]
    rw [if_neg (by omega),if_neg (by omega)]

theorem Cursor.boot (console : V) (world : W) : (boot console world).Cursor := by
  intro pid i hi
  rw [boot_slot]
  simp only [Files.boot] at hi
  split_ifs at hi with hpid
  · rw [if_pos ⟨hpid,by dsimp only at hi ⊢; omega⟩]
    simp
  · dsimp only at hi
    omega

abbrev Reached (vclose : FileDescription V → W → W) (console : V) (world : W) : Files V W → Prop :=
  Relation.ReflTransGen (Uses vclose) (Files.boot console world)

theorem Reached.cursor {console : V} {world : W} (h : Reached vclose console world f) :
    f.Sound ∧ f.Cursor := by
  induction h with
  | refl => exact ⟨.boot console world,.boot console world⟩
  | tail _ hstep ih =>
    obtain ⟨hs,hf⟩ := ih
    cases hstep with
    | opened pid vnode flags cloexec => exact ⟨hs.openDescription,hf.openDescription pid vnode flags cloexec⟩
    | called call => exact ⟨hs.moves (run_moves vclose hs call),hf.run hs call⟩

-- `F_DUPFD` with a minimum above the size of the table gets a number below the minimum.
theorem lowest_descriptor_iff {console : V} {world : W} (h : Reached vclose console world f)
    (pid minFdnum : Nat) : IsLeast (f.free pid minFdnum) (f.allocateFdnum pid minFdnum).2 ↔
      minFdnum ≤ (f.processes pid).fileDescriptors.length :=
  h.cursor.2.allocate_least_iff minFdnum

theorem lowest_descriptor_closed : IsLeast (((boot () ()).run (fun _ w => w) (.close 1 1)).free 1 0) 1 ∧
    IsLeast (((boot () ()).run (fun _ w => w) (.close 1 1)).free 1 2) 3 := by
  have hreached : Reached (fun _ w => w) () () ((boot () ()).run (fun _ w => w) (.close 1 1)) :=
    .single (.called (.close 1 1))
  exact ⟨(lowest_descriptor_iff hreached 1 0).mpr (by decide),
    (lowest_descriptor_iff hreached 1 2).mpr (by decide)⟩

-- `fcntl(0, F_DUPFD, 10)` in the init process
theorem minimum_skipped : Reached (fun _ w => w) () () (boot () ()) ∧
    ((boot () ()).dupfd 1 0 10 false).2 = 3 ∧
    ¬IsLeast ((boot () ()).free 1 10) ((boot () ()).allocateFdnum 1 10).2 := by
  refine ⟨.refl,by decide,fun h => ?_⟩
  have hle : 10 ≤ ((boot () ()).allocateFdnum 1 10).2 := h.1.1
  exact absurd hle (by decide)

end SabaOS.Fs.Files
