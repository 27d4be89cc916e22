import SabaOS.Fs.Resolve
import SabaOS.Sched.InitialStack

namespace SabaOS.Sched

open SabaOS.Klib SabaOS.Lib SabaOS.Elf SabaOS.Fs

open SabaOS.Vfs (cstr)

def enoent : Int := 2

def eacces : Int := 13

def eisdir : Int := 21

def elibbad : Int := 80

def userBinaryBase : UInt64 := 0x560000000000

def userLinkerBase : UInt64 := 0x7e0000000000

def stackFlags : UInt64 := 0x8000000000000007

theorem cstr_noNul (bytes : List UInt8) : 0 ∉ cstr bytes := by
  intro h
  simpa using List.mem_takeWhile_imp h

def CString.ofBytes (bytes : List UInt8) : CString := ⟨cstr bytes,cstr_noNul bytes⟩

def strncpy (src : List UInt8) (n : Nat) : List UInt8 :=
  let s := (cstr src).take n
  s ++ List.replicate (n - s.length) 0

theorem strncpy_length (src : List UInt8) (n : Nat) : (strncpy src n).length = n := by
  have : ((cstr src).take n).length ≤ n := List.length_take_le _ _
  simp only [strncpy,List.length_append,List.length_replicate]
  omega

-- `char name[64]`
structure ThreadName where
  bytes : List UInt8
  length : bytes.length = 64

def ThreadName.assign (name : ThreadName) (src : List UInt8) (n : Nat) (h : n ≤ 64) : ThreadName where
  bytes := strncpy src n ++ name.bytes.drop n
  length := by
    rw [List.length_append,strncpy_length,List.length_drop,name.length]
    omega

structure Node where
  entry : Nat
  name : List UInt8
  nodeType : NodeType
  file : File

structure ExecEnv where
  -- `path_to_entry`, from a starting point; `none` is an entry without a vnode
  pathToEntry : List UInt8 → Option Nat → Option Node
  -- what a new block of kernel memory holds
  heap : Nat → List UInt8

structure Pagemap where
  ptr : Nat
  image : Image

structure FileDescriptor where
  description : Nat
  cloexec : Bool
deriving DecidableEq, Repr

structure ExecState where
  pid : Nat
  cwd : Nat
  pagemap : Pagemap
  activePagemap : Nat
  nextPagemap : Nat
  mmapAnonBase : UInt64
  brk : UInt64
  name : ThreadName
  exe : Nat
  argStart : Nat
  argEnd : Nat
  envStart : Nat
  envEnd : Nat
  fileDescriptors : List (Option FileDescriptor)
  numFileDescriptors : Nat
  firstFreeFdnum : Nat
  signalActions : Nat → KernelSigaction
  signalAltStack : AltStack
  hasPerformedExecve : Bool
  gprState : InterruptState
  userStack : Nat
  cred : Cred
  -- the caller's array, which a null pointer ends, and the strings in kernel memory
  argv : List (Option Nat)
  strings : Nat → Option CString
  nextString : Nat

namespace ExecState

def newPagemap (s : ExecState) : ExecState :=
  { s with
    pagemap := ⟨s.nextPagemap,{}⟩
    activePagemap := s.nextPagemap
    nextPagemap := s.nextPagemap + 1
    mmapAnonBase := 0 }

def rename (s : ExecState) (node : Node) : ExecState :=
  { s with name := s.name.assign node.name 16 (by decide) }

-- what is deferred: `old` is the state in which the pagemap was still the old one
def rollback (old s : ExecState) : ExecState :=
  if s.pid ≠ 1 then
    { s with
      pagemap := old.pagemap
      mmapAnonBase := old.mmapAnonBase
      activePagemap := old.pagemap.ptr
      name := s.name.assign (strncpy old.name.bytes 64) 64 (Nat.le_refl _) }
  else s

def load (env : ExecEnv) (s : ExecState) (file : File) (loadBase : UInt64) (withLdPath : Bool) :
    Option (ExecState × Except Int Loaded) := do
  match ← Elf.load file env.heap s.pagemap.image loadBase withLdPath s.mmapAnonBase with
  | .error err => return (s,.error err)
  | .ok loaded =>
    let s := { s with
      pagemap := { s.pagemap with image := loaded.image }
      mmapAnonBase := loaded.firstFreeVirt }
    return (s,.ok loaded)

end ExecState

structure Shebang where
  interpreterPath : CString
  interpreterArg : Option CString

def space : UInt8 := 32

def newline : UInt8 := 10

def parseShebang (file : File) : Option Shebang :=
  let buf := file.readInto (List.replicate 256 0) 0
  let line := buf.takeWhile (· ≠ newline)
  if newline ∉ buf ∨ (buf.getD 0 0 ≠ 35 ∨ buf.getD 1 0 ≠ 33) then none
  else
    let text := (cstr (line.drop 2)).dropWhile (· = space)
    if text = [] then none
    else
      let path := text.takeWhile (· ≠ space)
      let arg := (text.dropWhile (· ≠ space)).takeWhile (· ≠ space)
      if path = [] then none
      else some ⟨.ofBytes path,if arg = [] then none else some (.ofBytes arg)⟩

structure Binary where
  node : Node
  loaded : Loaded
  shebang : Option Shebang

namespace ExecState

def loadInterpreter (env : ExecEnv) (s : ExecState) (err : Int) (script : Node) :
    Option (ExecState × Except Int Binary) :=
  match parseShebang script.file with
  | none => some (s,.error err)
  | some shebang =>
    match env.pathToEntry (shebang.interpreterPath.bytes ++ [0]) (some s.cwd) with
    | none => some (s,.error (-enoent))
    | some node =>
      if node.nodeType ≠ .regular then some (s,.error (-eacces))
      else do
        match ← s.load env node.file userBinaryBase true with
        | (s,.error err) => return (s,.error err)
        | (s,.ok loaded) => return (s,.ok ⟨node,loaded,some shebang⟩)

def loadBinary (env : ExecEnv) (s : ExecState) (node : Node) :
    Option (ExecState × Except Int Binary) := do
  match ← s.load env node.file userBinaryBase true with
  | (s,.error err) => s.loadInterpreter env err node
  | (s,.ok loaded) => return (s,.ok ⟨node,loaded,none⟩)

-- `argv[0] = interpreter_target_path`, and the `delete[]` of it when the function returns
def setTarget (s : ExecState) (path : CString) : ExecState :=
  { s with
    argv := s.argv.set 0 (some s.nextString)
    strings := Function.update s.strings s.nextString (some path)
    nextString := s.nextString + 1 }

def deleteString (s : ExecState) (ptr : Nat) : ExecState :=
  { s with strings := Function.update s.strings ptr none }

def setBrk (s : ExecState) (brk : UInt64) : ExecState := { s with brk := brk }

def prepare (s : ExecState) (path : CString) (binary : Binary) : ExecState :=
  let s := if binary.shebang.isSome then s.setTarget path else s
  s.setBrk (s.mmapAnonBase + 0x30000000)

def startingPoint (s : ExecState) (path : List UInt8) : Option Nat :=
  if path.getD 0 0 ≠ 47 then some s.cwd else none

def loadLinker (env : ExecEnv) (s : ExecState) (ldPath : Option (List UInt8)) :
    Option (ExecState × Except Int (Option Auxval)) :=
  match ldPath with
  | none => some (s,.ok none)
  | some path =>
    match env.pathToEntry path (s.startingPoint path) with
    | none => some (s,.error (-enoent))
    | some node =>
      if node.nodeType = .directory then some (s,.error (-eisdir))
      else do
        match ← s.load env node.file userLinkerBase false with
        | (s,.error err) => return (s,.error (if err = -enoexec then -elibbad else err))
        | (s,.ok loaded) => return (s,.ok (some loaded.auxv))

def closeOnExec (s : ExecState) : Nat → ExecState
  | 0 => s
  | i + 1 =>
    let s := s.closeOnExec i
    match s.fileDescriptors.getD i none with
    | none => s
    | some descriptor =>
      if descriptor.cloexec then
        { s with
          fileDescriptors := s.fileDescriptors.set i none
          numFileDescriptors := s.numFileDescriptors - 1
          firstFreeFdnum := min s.firstFreeFdnum i }
      else s

def program (s : ExecState) (path : CString) (argvLen : Nat) (envp : List CString)
    (binary : Binary) : Program where
  path := path
  argv := (s.argv.take argvLen).filterMap fun ptr => ptr.bind s.strings
  envp := envp
  interpreterPath := binary.shebang.map (·.interpreterPath)
  interpreterArg := binary.shebang.bind (·.interpreterArg)
  auxv := binary.loaded.auxv
  cred := s.cred

def initUser (s : ExecState) (entry : UInt64) : ExecState :=
  { s with gprState :=
    { cs := 0x23, ds := 0x1b, es := 0x1b, ss := 0x1b, rflags := 0x202, rip := entry } }

def mapStack (s : ExecState) : ExecState :=
  let image := s.pagemap.image.mapAnonymous userMmapBase.toUInt64 userStackSize.toUInt64 stackFlags
  let bytes := memset image.bytes userMmapBase 0 userStackSize
  { s with
    pagemap := { s.pagemap with image := { image with bytes := bytes } }
    mmapAnonBase := (userMmapBase + userStackSize + 0x10000).toUInt64
    userStack := userMmapBase + userStackSize }

def commit (s : ExecState) (path : CString) (argvLen : Nat) (envp : List CString)
    (binary : Binary) (linker : Option Auxval) : ExecState :=
  let s := s.mapStack
  let s := { s with exe := binary.node.entry }
  let s := s.initUser (linker.getD binary.loaded.auxv).atEntry
  let image := s.pagemap.image
  let built := buildStack image.bytes s.userStack (s.program path argvLen envp binary)
  let s := { s with
    pagemap := { s.pagemap with image := { image with bytes := built.stack.bytes } }
    argStart := built.argStart
    argEnd := built.argEnd
    envStart := built.envStart
    envEnd := built.envEnd
    userStack := built.stack.sp
    gprState := { s.gprState with rsp := built.stack.sp.toUInt64 } }
  let s := s.closeOnExec s.fileDescriptors.length
  { s with
    signalActions := fun _ => {}
    signalAltStack := { ssSp := 0, ssFlags := ssDisable, ssSize := 0 }
    hasPerformedExecve := true }

def execBinary (env : ExecEnv) (old s : ExecState) (path : CString) (argvLen : Nat)
    (envp : List CString) (node : Node) : Option (ExecState × Int) := do
  match ← s.loadBinary env node with
  | (s,.error err) => return (old.rollback s,err)
  | (s,.ok binary) =>
    let target := s.nextString
    let leave (s : ExecState) : ExecState :=
      if binary.shebang.isSome then s.deleteString target else s
    match ← (s.prepare path binary).loadLinker env binary.loaded.ldPath with
    | (s,.error err) => return (old.rollback (leave s),err)
    | (s,.ok linker) => return (leave (s.commit path argvLen envp binary linker),0)

def userExec (env : ExecEnv) (s : ExecState) (path : CString) (argvLen : Nat)
    (envp : List CString) : Option (ExecState × Int) :=
  match env.pathToEntry (path.bytes ++ [0]) (s.startingPoint path.bytes) with
  | none => some (s,-enoent)
  | some node =>
    if node.nodeType ≠ .regular then some (s,-eacces)
    else s.execBinary env (s.rename node).newPagemap path argvLen envp node

end ExecState

end SabaOS.Sched
