import SabaOS.Fs.Slashes
import SabaOS.Sched.UserExec

namespace SabaOS.Sched

open SabaOS.Klib SabaOS.Lib SabaOS.Elf SabaOS.Fs

open SabaOS.Vfs (cstr)

def programFrom (env : ExecEnv) (s : ExecState) (node : Node) : Option (Node × Option Shebang) :=
  if (readHeader node.file).accepted then some (node,none)
  else match parseShebang node.file with
    | none => none
    | some shebang =>
      match env.pathToEntry (shebang.interpreterPath.bytes ++ [0]) (some s.cwd) with
      | none => none
      | some interpreter =>
        if interpreter.nodeType = .regular ∧ (readHeader interpreter.file).accepted then
          some (interpreter,some shebang)
        else none

def programOf (env : ExecEnv) (s : ExecState) (path : CString) : Option (Node × Option Shebang) :=
  match env.pathToEntry (path.bytes ++ [0]) (s.startingPoint path.bytes) with
  | none => none
  | some node =>
    if node.nodeType ≠ .regular then none else programFrom env s node

def imageEnd (env : ExecEnv) (file : File) : UInt64 :=
  match Elf.load file env.heap {} userBinaryBase true 0 with
  | some (.ok loaded) => loaded.firstFreeVirt
  | _ => 0

def Restorable (env : ExecEnv) (s : ExecState) (path : CString) : Prop :=
  ∀ node shebang, programOf env s path = some (node,shebang) →
    shebang = none ∧ s.brk = imageEnd env node.file + 0x30000000

structure ArgvValid (s : ExecState) : Prop where
  nonempty : s.argv ≠ []
  allocated : ∀ ptr, some ptr ∈ s.argv → ptr < s.nextString

structure Unchanged (s s' : ExecState) : Prop where
  pagemap : s'.pagemap = s.pagemap
  mmapAnonBase : s'.mmapAnonBase = s.mmapAnonBase
  brk : s'.brk = s.brk
  name : cstr s'.name.bytes = cstr s.name.bytes
  exe : s'.exe = s.exe
  fileDescriptors : s'.fileDescriptors = s.fileDescriptors ∧
    s'.numFileDescriptors = s.numFileDescriptors ∧ s'.firstFreeFdnum = s.firstFreeFdnum
  signalActions : s'.signalActions = s.signalActions
  signalAltStack : s'.signalAltStack = s.signalAltStack
  argv : s'.argv = s.argv
  strings : ∀ ptr, some ptr ∈ s.argv → s'.strings ptr = s.strings ptr

structure Loads (s s' : ExecState) : Prop where
  same : s' = { s with pagemap := s'.pagemap, mmapAnonBase := s'.mmapAnonBase }

namespace Loads

variable {s s' s'' : ExecState} {env : ExecEnv}

theorem refl (s : ExecState) : Loads s s := ⟨rfl⟩

end Loads

section Load

variable {s s' : ExecState} {env : ExecEnv} {file : File} {loadBase : UInt64} {withLdPath : Bool}
variable {heap : Nat → List UInt8} {image : Image} {firstFree : UInt64} {err : Int}
variable {loaded : Loaded} {node : Node} {binary : Binary}

theorem elf_error (h : Elf.load file heap image loadBase withLdPath firstFree = some (.error err)) :
    (readHeader file).accepted = false := by
  cases ha : (readHeader file).accepted with
  | false => rfl
  | true =>
    simp only [Elf.load,ha,if_true,Option.bind_eq_bind,Option.bind_eq_some_iff,
      Option.pure_def] at h
    obtain ⟨l,-,h⟩ := h
    cases h

theorem elf_ok (h : Elf.load file heap image loadBase withLdPath firstFree = some (.ok loaded)) :
    (readHeader file).accepted = true := by
  cases ha : (readHeader file).accepted with
  | true => rfl
  | false =>
    simp [Elf.load,ha] at h

theorem load_error (h : s.load env file loadBase withLdPath = some (s',.error err)) :
    s' = s ∧ (readHeader file).accepted = false := by
  simp only [ExecState.load,Option.bind_eq_bind,Option.bind_eq_some_iff,Option.pure_def] at h
  obtain ⟨r,hr,h⟩ := h
  cases r with
  | error e =>
    cases h
    exact ⟨rfl,elf_error hr⟩
  | ok loaded => cases h

theorem load_ok (h : s.load env file loadBase withLdPath = some (s',.ok loaded)) :
    Loads s s' ∧ s'.mmapAnonBase = loaded.firstFreeVirt ∧
      Elf.load file env.heap s.pagemap.image loadBase withLdPath s.mmapAnonBase =
        some (.ok loaded) := by
  simp only [ExecState.load,Option.bind_eq_bind,Option.bind_eq_some_iff,Option.pure_def] at h
  obtain ⟨r,hr,h⟩ := h
  cases r with
  | error e => cases h
  | ok loaded =>
    cases h
    exact ⟨⟨rfl⟩,rfl,hr⟩

structure Program.Loaded (env : ExecEnv) (s s' : ExecState) (binary : Binary) : Prop where
  loads : Loads s s'
  base : s'.mmapAnonBase = binary.loaded.firstFreeVirt
  image : Elf.load binary.node.file env.heap s.pagemap.image userBinaryBase true s.mmapAnonBase =
    some (.ok binary.loaded)

theorem programFrom_script (ha : (readHeader node.file).accepted = false) {shebang : Shebang}
    (hs : parseShebang node.file = some shebang) {interpreter : Node}
    (hp : env.pathToEntry (shebang.interpreterPath.bytes ++ [0]) (some s.cwd) = some interpreter) :
    programFrom env s node =
      if interpreter.nodeType = .regular ∧ (readHeader interpreter.file).accepted then
        some (interpreter,some shebang)
      else none := by
  simp [programFrom,ha,hs,hp]

theorem loadInterpreter_error {e : Int} (ha : (readHeader node.file).accepted = false)
    (h : s.loadInterpreter env e node = some (s',.error err)) :
    Loads s s' ∧ programFrom env s node = none := by
  unfold ExecState.loadInterpreter at h
  cases hs : parseShebang node.file with
  | none =>
    rw [hs] at h
    cases h
    exact ⟨.refl s,by simp [programFrom,ha,hs]⟩
  | some shebang =>
    rw [hs] at h
    cases hp : env.pathToEntry (shebang.interpreterPath.bytes ++ [0]) (some s.cwd) with
    | none =>
      simp only [hp,Option.some.injEq,Prod.mk.injEq] at h
      exact ⟨h.1 ▸ .refl s,by simp [programFrom,ha,hs,hp]⟩
    | some interpreter =>
      rw [programFrom_script ha hs hp]
      simp only [hp] at h
      split_ifs at h with hr
      · cases h
        exact ⟨.refl s,if_neg fun hc => hr hc.1⟩
      · simp only [Option.bind_eq_bind,Option.bind_eq_some_iff,Option.pure_def] at h
        obtain ⟨⟨s₁,r⟩,hl,h⟩ := h
        cases r with
        | error e =>
          cases h
          obtain ⟨rfl,hrej⟩ := load_error hl
          exact ⟨.refl _,if_neg fun hc => Bool.noConfusion (hrej.symm.trans hc.2)⟩
        | ok loaded => cases h

theorem loadInterpreter_ok {e : Int} (ha : (readHeader node.file).accepted = false)
    (h : s.loadInterpreter env e node = some (s',.ok binary)) :
    Program.Loaded env s s' binary ∧ programFrom env s node = some (binary.node,binary.shebang) := by
  unfold ExecState.loadInterpreter at h
  cases hs : parseShebang node.file with
  | none =>
    rw [hs] at h
    cases h
  | some shebang =>
    rw [hs] at h
    cases hp : env.pathToEntry (shebang.interpreterPath.bytes ++ [0]) (some s.cwd) with
    | none =>
      simp only [hp,Option.some.injEq,Prod.mk.injEq] at h
      cases h.2
    | some interpreter =>
      rw [programFrom_script ha hs hp]
      simp only [hp] at h
      split_ifs at h with hr
      · cases h
      · simp only [Option.bind_eq_bind,Option.bind_eq_some_iff,Option.pure_def] at h
        obtain ⟨⟨s₁,r⟩,hl,h⟩ := h
        cases r with
        | error e => cases h
        | ok loaded =>
          cases h
          obtain ⟨hloads,hbase,himage⟩ := load_ok hl
          exact ⟨⟨hloads,hbase,himage⟩,if_pos ⟨not_not.mp hr,elf_ok himage⟩⟩

theorem loadBinary_error (h : s.loadBinary env node = some (s',.error err)) :
    Loads s s' ∧ programFrom env s node = none := by
  simp only [ExecState.loadBinary,Option.bind_eq_bind,Option.bind_eq_some_iff,
    Option.pure_def] at h
  obtain ⟨⟨s₁,r⟩,hl,h⟩ := h
  cases r with
  | error e =>
    obtain ⟨rfl,ha⟩ := load_error hl
    exact loadInterpreter_error ha h
  | ok loaded => cases h

theorem loadBinary_ok (h : s.loadBinary env node = some (s',.ok binary)) :
    Program.Loaded env s s' binary ∧ programFrom env s node = some (binary.node,binary.shebang) := by
  simp only [ExecState.loadBinary,Option.bind_eq_bind,Option.bind_eq_some_iff,
    Option.pure_def] at h
  obtain ⟨⟨s₁,r⟩,hl,h⟩ := h
  cases r with
  | error e =>
    obtain ⟨rfl,ha⟩ := load_error hl
    exact loadInterpreter_ok ha h
  | ok loaded =>
    cases h
    obtain ⟨hloads,hbase,himage⟩ := load_ok hl
    have hacc := elf_ok himage
    exact ⟨⟨hloads,hbase,himage⟩,by simp [programFrom,hacc]⟩

theorem loadLinker_error {ldPath : Option (List UInt8)}
    (h : s.loadLinker env ldPath = some (s',.error err)) : s' = s := by
  unfold ExecState.loadLinker at h
  split at h
  · cases h
  · split at h
    · cases h
      rfl
    · split_ifs at h
      · cases h
        rfl
      · simp only [Option.bind_eq_bind,Option.bind_eq_some_iff,Option.pure_def] at h
        obtain ⟨⟨s₁,r⟩,hl,h⟩ := h
        cases r with
        | error e =>
          cases h
          exact (load_error hl).1
        | ok loaded => cases h

end Load

namespace ExecState

def leave (s : ExecState) (binary : Binary) (target : Nat) : ExecState :=
  if binary.shebang.isSome then s.deleteString target else s

section Errors

variable {env : ExecEnv} {old s s₁ s₂ s' : ExecState} {path : CString} {argvLen : Nat}
variable {envp : List CString} {node : Node} {binary : Binary} {err : Int}

theorem execBinary_error (herr : err < 0)
    (h : old.execBinary env s path argvLen envp node = some (s',err)) :
    ∃ s₁, (Loads s s₁ ∧ programFrom env s node = none ∧ s' = old.rollback s₁) ∨
      ∃ binary, Program.Loaded env s s₁ binary ∧
        programFrom env s node = some (binary.node,binary.shebang) ∧
        s' = old.rollback ((s₁.prepare path binary).leave binary s₁.nextString) := by
  simp only [execBinary,Option.bind_eq_bind,Option.bind_eq_some_iff,Option.pure_def] at h
  obtain ⟨⟨s₁,r⟩,hb,h⟩ := h
  cases r with
  | error e =>
    cases h
    obtain ⟨hloads,hnone⟩ := loadBinary_error hb
    exact ⟨s₁,.inl ⟨hloads,hnone,rfl⟩⟩
  | ok binary =>
    obtain ⟨hloaded,hsome⟩ := loadBinary_ok hb
    refine ⟨s₁,.inr ⟨binary,hloaded,hsome,?_⟩⟩
    simp only [Option.bind_eq_some_iff] at h
    obtain ⟨⟨s₂,r⟩,hl,h⟩ := h
    cases r with
    | error e =>
      cases h
      rw [loadLinker_error hl]
      rfl
    | ok linker =>
      cases h
      exact absurd herr (Int.lt_irrefl 0)

theorem rollback_loads (hpid : s.pid ≠ 1) (h : Loads s s₁) : old.rollback s₁ = old.rollback s := by
  obtain ⟨h⟩ := h
  have hpid₁ : s₁.pid ≠ 1 := by
    rw [h]
    exact hpid
  rw [rollback,rollback,if_pos hpid₁,if_pos hpid,h]

theorem prepare_script {shebang : Shebang} (hs : binary.shebang = some shebang) (s : ExecState)
    (path : CString) (target : Nat) :
    ∃ brk, (s.prepare path binary).leave binary target =
      ((s.setTarget path).setBrk brk).deleteString target := by
  unfold leave prepare
  rw [hs]
  exact ⟨_,rfl⟩

theorem prepare_own (hs : binary.shebang = none) (s : ExecState) (path : CString) (target : Nat) :
    ∃ brk, brk = s.mmapAnonBase + 0x30000000 ∧
      (s.prepare path binary).leave binary target = s.setBrk brk := by
  unfold leave prepare
  rw [hs]
  exact ⟨_,rfl,rfl⟩

theorem rollback_argv (s₀ s : ExecState) : (rollback s₀ s).argv = s.argv := by
  unfold rollback
  split_ifs
  · rfl
  · rfl

end Errors

end ExecState

section Names

theorem cstr_zeros (n : Nat) : cstr (List.replicate n 0) = [] := by
  cases n with
  | zero => rfl
  | succ n => rfl

theorem cstr_strncpy (src : List UInt8) (n : Nat) : cstr (strncpy src n) = (cstr src).take n := by
  have hnul : 0 ∉ (cstr src).take n := fun h => cstr_noNul src (List.mem_of_mem_take h)
  rw [strncpy,Vfs.cstr_append hnul,cstr_zeros,List.append_nil]

theorem cstr_restored (old name : ThreadName) :
    cstr (name.assign (strncpy old.bytes 64) 64 (Nat.le_refl _)).bytes = cstr old.bytes := by
  have hlen : (cstr old.bytes).length ≤ 64 :=
    old.length ▸ (List.takeWhile_sublist _).length_le
  have hrest : name.bytes.drop 64 = [] := List.drop_of_length_le (Nat.le_of_eq name.length)
  simp only [ThreadName.assign,hrest,List.append_nil]
  rw [cstr_strncpy,cstr_strncpy,List.take_take,List.take_of_length_le (by omega)]

end Names

section Atomic

variable {env : ExecEnv} {s s₁ s' : ExecState} {path : CString} {argvLen : Nat}
variable {envp : List CString} {node : Node} {err : Int}

theorem ArgvValid.set_ne (hv : ArgvValid s) : s.argv.set 0 (some s.nextString) ≠ s.argv := by
  intro h
  obtain ⟨ptr,rest,hl⟩ := List.exists_cons_of_ne_nil hv.nonempty
  have hptr : ptr = some s.nextString := by
    rw [hl] at h
    exact (List.cons.inj h).1.symm
  have hlt := hv.allocated s.nextString (by simp [hl,hptr])
  exact Nat.lt_irrefl _ hlt

theorem Unchanged.refl (s : ExecState) : Unchanged s s :=
  ⟨rfl,rfl,rfl,rfl,rfl,⟨rfl,rfl,rfl⟩,rfl,rfl,rfl,fun _ _ => rfl⟩

def entered (s : ExecState) (node : Node) : ExecState := (s.rename node).newPagemap

theorem rollback_entered (hpid : s.pid ≠ 1) (node : Node) (brk : UInt64) :
    s.rollback ((entered s node).setBrk brk) =
      { s with
        brk := brk
        activePagemap := s.pagemap.ptr
        nextPagemap := s.nextPagemap + 1
        name := (s.name.assign node.name 16 (by decide)).assign
          (strncpy s.name.bytes 64) 64 (Nat.le_refl _) } := by
  have hpid' : ((entered s node).setBrk brk).pid ≠ 1 := hpid
  rw [ExecState.rollback,if_pos hpid']
  rfl

theorem unchanged_rollback (hpid : s.pid ≠ 1) (node : Node) (brk : UInt64) :
    Unchanged s (s.rollback ((entered s node).setBrk brk)) ↔ brk = s.brk := by
  rw [rollback_entered hpid]
  constructor
  · intro h
    exact h.brk
  · rintro rfl
    exact ⟨rfl,rfl,rfl,cstr_restored _ _,rfl,⟨rfl,rfl,rfl⟩,rfl,rfl,rfl,fun _ _ => rfl⟩

theorem exec_atomic_entered (hpid : s.pid ≠ 1) (hv : ArgvValid s) (herr : err < 0)
    (h : s.execBinary env (entered s node) path argvLen envp node = some (s',err)) :
    Unchanged s s' ↔ ∀ program shebang, programFrom env s node = some (program,shebang) →
      shebang = none ∧ s.brk = imageEnd env program.file + 0x30000000 := by
  have hfrom : programFrom env (entered s node) node = programFrom env s node := rfl
  obtain ⟨s₁,⟨hloads,hnone,rfl⟩ | ⟨binary,hloaded,hsome,rfl⟩⟩ := ExecState.execBinary_error herr h
  · rw [hfrom] at hnone
    rw [ExecState.rollback_loads (s := entered s node) hpid hloads,hnone]
    exact ⟨fun _ => nofun,fun _ => (unchanged_rollback hpid node s.brk).mpr rfl⟩
  · rw [hfrom] at hsome
    have hend : imageEnd env binary.node.file = s₁.mmapAnonBase := by
      rw [imageEnd,hloaded.base]
      rw [show Elf.load binary.node.file env.heap {} userBinaryBase true 0 = _ from hloaded.image]
    have hcond : (∀ program shebang, programFrom env s node = some (program,shebang) →
        shebang = none ∧ s.brk = imageEnd env program.file + 0x30000000) ↔
        binary.shebang = none ∧ s.brk = s₁.mmapAnonBase + 0x30000000 := by
      rw [hsome,← hend]
      constructor
      · intro hall
        exact hall _ _ rfl
      · rintro hb program shebang heq
        cases heq
        exact hb
    rw [hcond]
    cases hs : binary.shebang with
    | none =>
      obtain ⟨brk,hbrk,hleave⟩ := ExecState.prepare_own hs s₁ path s₁.nextString
      have hloads : Loads ((entered s node).setBrk brk) (s₁.setBrk brk) := by
        refine ⟨?_⟩
        rw [hloaded.loads.same]
        rfl
      rw [hleave,ExecState.rollback_loads (s := (entered s node).setBrk brk) hpid hloads,unchanged_rollback hpid,← hbrk]
      simp [eq_comm]
    | some shebang =>
      obtain ⟨brk,hleave⟩ := ExecState.prepare_script hs s₁ path s₁.nextString
      rw [hleave]
      have hchanged : ¬Unchanged s (s.rollback (((s₁.setTarget path).setBrk brk).deleteString
          s₁.nextString)) := by
        intro hu
        have hargv := hu.argv
        rw [ExecState.rollback_argv] at hargv
        change s₁.argv.set 0 (some s₁.nextString) = s.argv at hargv
        rw [hloaded.loads.same] at hargv
        exact hv.set_ne hargv
      simp [hchanged]

theorem exec_atomic_iff (hpid : s.pid ≠ 1) (hv : ArgvValid s) (herr : err < 0)
    (h : s.userExec env path argvLen envp = some (s',err)) :
    Unchanged s s' ↔ Restorable env s path := by
  unfold ExecState.userExec at h
  unfold Restorable programOf
  cases hp : env.pathToEntry (path.bytes ++ [0]) (s.startingPoint path.bytes) with
  | none =>
    rw [hp] at h
    cases h
    exact ⟨fun _ => nofun,fun _ => .refl s⟩
  | some node =>
    rw [hp] at h
    dsimp only at h ⊢
    split_ifs at h ⊢ with hr
    · cases h
      exact ⟨fun _ => nofun,fun _ => .refl s⟩
    · exact exec_atomic_entered hpid hv herr h

end Atomic

def fileOf (bytes : List UInt8) : File where
  read count offset := (bytes.drop offset.toNat).take count.toNat
  read_length _ _ := List.length_take_le _ _

def dynamicFile : File := fileOf
  (elfMagic ++ [2,1,1,0] ++ leBytes 8 0 ++ leBytes 2 3 ++ leBytes 2 62 ++ leBytes 4 1 ++
    words [0,64,0] ++ leBytes 4 0 ++ leBytes 2 64 ++ leBytes 2 56 ++ leBytes 2 1 ++ leBytes 6 0 ++
    leBytes 4 3 ++ leBytes 4 4 ++ words [120,0,0,4,4,1] ++ [47,108,100,0])

def dynamicPath : CString := ⟨[47,97],by decide⟩

def dynamicEnv : ExecEnv where
  pathToEntry path _ := if path = [47,97,0] then some ⟨7,[97],.regular,dynamicFile⟩ else none
  heap n := List.replicate n 0

def shellProcess : ExecState where
  pid := 2
  cwd := 0
  pagemap := ⟨0,{}⟩
  activePagemap := 0
  nextPagemap := 1
  mmapAnonBase := 0x7f0000810000
  brk := 0x560030000000
  name := ⟨List.replicate 64 0,by decide⟩
  exe := 3
  argStart := 0
  argEnd := 0
  envStart := 0
  envEnd := 0
  fileDescriptors := []
  numFileDescriptors := 0
  firstFreeFdnum := 0
  signalActions _ := {}
  signalAltStack := {}
  hasPerformedExecve := true
  gprState := {}
  userStack := 0
  cred := {}
  argv := [some 0,none]
  strings ptr := if ptr = 0 then some dynamicPath else none
  nextString := 1

theorem shellProcess_argv : ArgvValid shellProcess := by
  refine ⟨by decide,?_⟩
  intro ptr hptr
  simp [shellProcess] at hptr ⊢
  exact hptr

theorem dynamicExec_returns :
    (shellProcess.userExec dynamicEnv dynamicPath 1 []).isSome := by decide +kernel

def dynamicExec : ExecState × Int :=
  (shellProcess.userExec dynamicEnv dynamicPath 1 []).get dynamicExec_returns

theorem dynamicExec_error : dynamicExec.2 = -enoent := by decide +kernel

theorem dynamicExec_run : shellProcess.userExec dynamicEnv dynamicPath 1 [] =
    some (dynamicExec.1,-enoent) := by
  rw [← dynamicExec_error]
  exact (Option.some_get dynamicExec_returns).symm

theorem exec_atomic_iff_linker : dynamicExec.2 = -enoent ∧
    (Unchanged shellProcess dynamicExec.1 ↔ Restorable dynamicEnv shellProcess dynamicPath) :=
  ⟨dynamicExec_error,exec_atomic_iff (by decide) shellProcess_argv (by decide) dynamicExec_run⟩

theorem exec_keeps_new_break :
    ¬∀ (env : ExecEnv) (s s' : ExecState) (path : CString) (argvLen : Nat) (envp : List CString)
      (err : Int), s.pid ≠ 1 → ArgvValid s → err < 0 →
      s.userExec env path argvLen envp = some (s',err) → Unchanged s s' := by
  intro hall
  have hu := hall dynamicEnv shellProcess dynamicExec.1 dynamicPath 1 [] (-enoent) (by decide)
    shellProcess_argv (by decide) dynamicExec_run
  have hbrk := hu.brk
  revert hbrk
  decide +kernel

end SabaOS.Sched
