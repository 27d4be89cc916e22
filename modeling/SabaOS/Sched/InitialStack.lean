import SabaOS.Klib.Memory
import SabaOS.Klib.Word
import SabaOS.Lib.LittleEndian
import SabaOS.Userland.Elf

namespace SabaOS.Klib

open SabaOS.Lib

structure DownStack where
  bytes : Bytes
  sp : Nat

namespace DownStack

def reserve (s : DownStack) (n : Nat) : DownStack := { s with sp := s.sp - n }

def put (s : DownStack) (offset : Nat) (buf : List UInt8) : DownStack :=
  { s with bytes := copyIn s.bytes (s.sp + offset) buf }

def putWord (s : DownStack) (index value : Nat) : DownStack := s.put (8 * index) (leBytes 8 value)

def pushWord (s : DownStack) (value : Nat) : DownStack := (s.reserve 8).putWord 0 value

structure Holds (base top : Nat) (s : DownStack) (l : List UInt8) : Prop where
  length : s.sp + l.length = top
  contents : copyOut s.bytes s.sp l.length = l
  zero : ∀ a, base ≤ a → a < s.sp → s.bytes a = 0

end DownStack

namespace DownStack

variable {base top : Nat} {s : DownStack} {l : List UInt8}

theorem put_nil (s : DownStack) (offset : Nat) : s.put offset [] = s := by
  rw [put,copyIn_nil]

theorem put_put (s : DownStack) (offset : Nat) (buf rest : List UInt8) :
    (s.put offset buf).put (offset + buf.length) rest = s.put offset (buf ++ rest) := by
  simp only [put,← Nat.add_assoc,copyIn_append]

theorem putWord_put (s : DownStack) (index value : Nat) (ws : List Nat) :
    (s.putWord index value).put (8 * (index + 1)) (words ws) =
      s.put (8 * index) (words (value :: ws)) := by
  have h := put_put s (8 * index) (leBytes 8 value) (words ws)
  rw [leBytes_length] at h
  exact h

namespace Holds

theorem room (h : Holds base top s l) (hn : base + n + l.length ≤ top) : base + n ≤ s.sp := by
  have := h.length
  omega

theorem push (h : Holds base top s l) (buf : List UInt8) (hn : base + n ≤ s.sp)
    (hb : buf.length ≤ n) :
    Holds base top ((s.reserve n).put 0 buf) (buf ++ List.replicate (n - buf.length) 0 ++ l) := by
  have hsp : ((s.reserve n).put 0 buf).sp = s.sp - n := rfl
  have hbytes : ((s.reserve n).put 0 buf).bytes = copyIn s.bytes (s.sp - n) buf := rfl
  have hlen : (buf ++ List.replicate (n - buf.length) 0 ++ l).length = buf.length +
      (n - buf.length) + l.length := by simp [Nat.add_assoc]
  have htop := h.length
  refine ⟨by rw [hsp,hlen]; omega,?_,?_⟩
  · have hold : s.sp - n + (buf.length + (n - buf.length)) = s.sp := by omega
    rw [hsp,hbytes,hlen,copyOut_add,copyOut_add,copyOut_copyIn,hold]
    congr 1
    · congr 1
      refine copyOut_zero fun i hi => ?_
      rw [copyIn_outside (by omega)]
      exact h.zero _ (by omega) (by omega)
    · refine (copyOut_congr fun i hi => ?_).trans h.contents
      exact copyIn_outside (by omega)
  · intro a ha hlt
    rw [hsp] at hlt
    rw [hbytes,copyIn_outside (by omega)]
    exact h.zero a ha (by omega)

theorem reserve (h : Holds base top s l) (hn : base + n ≤ s.sp) :
    Holds base top (s.reserve n) (List.replicate n 0 ++ l) := by
  have := h.push [] hn (Nat.zero_le n)
  rw [put_nil] at this
  exact this

theorem pushWord (h : Holds base top s l) (value : Nat) (hn : base + 8 ≤ s.sp) :
    Holds base top (s.pushWord value) (words [value] ++ l) := by
  have hlen := leBytes_length 8 value
  have := h.push (leBytes 8 value) hn (by omega)
  rw [hlen] at this
  simpa [words,DownStack.pushWord,putWord] using this

theorem part (h : Holds base top s l) (pre mid post : List UInt8) (hl : l = pre ++ (mid ++ post))
    (ha : a + (mid.length + post.length) = top) : copyOut s.bytes a mid.length = mid := by
  subst hl
  have hlen := h.length
  have hc := h.contents
  simp only [List.length_append] at hlen hc
  rw [copyOut_add,copyOut_add] at hc
  have hrest := List.append_inj_right hc (by simp [copyOut_length])
  have hmid := List.append_inj_left hrest (by simp [copyOut_length])
  have hstart : s.sp + pre.length = a := by omega
  rw [← hstart]
  exact hmid

end Holds

end DownStack

end SabaOS.Klib

namespace SabaOS.Sched

open SabaOS.Klib SabaOS.Lib SabaOS.Elf

structure CString where
  bytes : List UInt8
  noNul : 0 ∉ bytes

def CString.length (s : CString) : Nat := s.bytes.length

structure Ids where
  rid : UInt32 := 0
  eid : UInt32 := 0
deriving DecidableEq, Repr

structure Cred where
  uids : Ids := {}
  gids : Ids := {}
deriving DecidableEq, Repr

def userMmapBase : Nat := 0x7f0000000000

def userStackSize : Nat := 8 * 1024 * 1024

def atNull : Nat := 0

def atPhdr : Nat := 3

def atPhent : Nat := 4

def atPhnum : Nat := 5

def atPagesz : Nat := 6

def atFlags : Nat := 8

def atEntry : Nat := 9

def atUid : Nat := 11

def atEuid : Nat := 12

def atGid : Nat := 13

def atEgid : Nat := 14

def atSecure : Nat := 23

def atRandom : Nat := 25

def atExecfn : Nat := 31

structure Program where
  path : CString
  argv : List CString
  envp : List CString
  interpreterPath : Option CString
  interpreterArg : Option CString
  auxv : Auxval
  cred : Cred

def Program.numInterpreterArgs (p : Program) : Nat :=
  (if p.interpreterPath.isSome then 1 else 0) + (if p.interpreterArg.isSome then 1 else 0)

def pushString (s : DownStack) (str : CString) : DownStack :=
  (s.reserve (str.length + 1)).put 0 str.bytes

def pushStrings (s : DownStack) (strs : List CString) : DownStack :=
  strs.foldr (fun str s => pushString s str) s

def pushPair (s : DownStack) (key value : Nat) : DownStack :=
  ((s.reserve 16).putWord 0 key).putWord 1 value

def putPointers : List CString → DownStack × Nat × Nat → DownStack × Nat × Nat
  | [], l => l
  | str :: strs, (s,index,current) =>
    putPointers strs (s.putWord index current,index + 1,current + str.length + 1)

structure StackStrings where
  stack : DownStack
  randomData : Nat
  execfn : Nat
  argStart : Nat
  argEnd : Nat
  envStart : Nat
  envEnd : Nat

def pushProgram (s : DownStack) (p : Program) : StackStrings :=
  let random := (s.reserve 16).put 0 (List.replicate 16 0xaf)
  let execfn := pushString random p.path
  let env := pushStrings execfn p.envp
  let args := pushStrings env p.argv
  let args := pushStrings args p.interpreterArg.toList
  let args := pushStrings args p.interpreterPath.toList
  { stack := args, randomData := random.sp, execfn := execfn.sp, argStart := args.sp,
    argEnd := env.sp, envStart := env.sp, envEnd := execfn.sp }

def alignStack (s : DownStack) (p : Program) : DownStack :=
  let s := { s with sp := alignDown s.sp 16 }
  if (p.argv.length + p.envp.length + p.numInterpreterArgs + 1) % 2 ≠ 0 then s.reserve 8 else s

def pushAuxv (s : DownStack) (p : Program) (execfn randomData : Nat) : DownStack :=
  let s := (s.pushWord 0).pushWord 0
  let s := pushPair s atExecfn execfn
  let s := pushPair s atRandom randomData
  let s := pushPair s atSecure 0
  let s := pushPair s atEgid p.cred.gids.eid.toNat
  let s := pushPair s atGid p.cred.gids.rid.toNat
  let s := pushPair s atEuid p.cred.uids.eid.toNat
  let s := pushPair s atUid p.cred.uids.rid.toNat
  let s := pushPair s atEntry p.auxv.atEntry.toNat
  let s := pushPair s atFlags 0
  let s := pushPair s atPhnum p.auxv.atPhnum.toNat
  let s := pushPair s atPhent p.auxv.atPhent.toNat
  let s := pushPair s atPhdr p.auxv.atPhdr.toNat
  pushPair s atPagesz 4096

def pushEnvp (s : DownStack) (p : Program) (envStart : Nat) : DownStack :=
  let s := s.pushWord 0
  (putPointers p.envp (s.reserve (8 * p.envp.length),0,envStart)).1

def pushArgv (s : DownStack) (p : Program) (argStart : Nat) : DownStack :=
  let s := s.pushWord 0
  let l := (s.reserve (8 * (p.argv.length + p.numInterpreterArgs)),0,argStart)
  let l := putPointers p.interpreterPath.toList l
  let l := putPointers p.interpreterArg.toList l
  (putPointers p.argv l).1

def pushVectors (s : DownStack) (p : Program) (strings : StackStrings) : DownStack :=
  let s := pushAuxv s p strings.execfn strings.randomData
  let s := pushEnvp s p strings.envStart
  let s := pushArgv s p strings.argStart
  s.pushWord (p.argv.length + p.numInterpreterArgs)

def buildStack (bytes : Bytes) (userStack : Nat) (p : Program) : StackStrings :=
  let strings := pushProgram ⟨bytes,userStack⟩ p
  { strings with stack := pushVectors (alignStack strings.stack p) p strings }

open SabaOS.Klib SabaOS.Lib

def area (strs : List CString) : List UInt8 := (strs.map fun s => s.bytes ++ [0]).flatten

def addresses : Nat → List CString → List Nat
  | _, [] => []
  | a, s :: strs => a :: addresses (a + s.length + 1) strs

def Program.args (p : Program) : List CString :=
  p.interpreterPath.toList ++ (p.interpreterArg.toList ++ p.argv)

def Program.stringBytes (p : Program) : Nat :=
  (area p.args).length + (area p.envp).length + (p.path.length + 1) + 16

def Program.numWords (p : Program) : Nat := 31 + p.args.length + p.envp.length

def Program.stackSize (p : Program) : Nat :=
  (p.stringBytes + 15) / 16 * 16 + (p.numWords + p.numWords % 2) * 8

def auxPairs (p : Program) (execfn randomData : Nat) : List (Nat × Nat) :=
  [(atPagesz,4096),(atPhdr,p.auxv.atPhdr.toNat),(atPhent,p.auxv.atPhent.toNat),
    (atPhnum,p.auxv.atPhnum.toNat),(atFlags,0),(atEntry,p.auxv.atEntry.toNat),
    (atUid,p.cred.uids.rid.toNat),(atEuid,p.cred.uids.eid.toNat),
    (atGid,p.cred.gids.rid.toNat),(atEgid,p.cred.gids.eid.toNat),(atSecure,0),
    (atRandom,randomData),(atExecfn,execfn)]

def flatPairs (pairs : List (Nat × Nat)) : List Nat := pairs.flatMap fun e => [e.1,e.2]

def pushPairs (s : DownStack) (pairs : List (Nat × Nat)) : DownStack :=
  pairs.foldr (fun e s => pushPair s e.1 e.2) s

theorem area_cons (s : CString) (strs : List CString) :
    area (s :: strs) = s.bytes ++ [0] ++ area strs := by
  simp [area]

theorem area_cons_length (s : CString) (strs : List CString) :
    (area (s :: strs)).length = s.length + 1 + (area strs).length := by
  simp [area_cons,CString.length]
  omega

theorem args_length (p : Program) : p.args.length = p.argv.length + p.numInterpreterArgs := by
  unfold Program.args Program.numInterpreterArgs
  cases p.interpreterPath with
  | none =>
    cases p.interpreterArg with
    | none => simp
    | some a => simp
  | some i =>
    cases p.interpreterArg with
    | none => simp
    | some a => simp

@[simp]
theorem addresses_length (a : Nat) (strs : List CString) :
    (addresses a strs).length = strs.length := by
  induction strs generalizing a with
  | nil => rfl
  | cons s strs ih => rw [addresses,List.length_cons,ih,List.length_cons]

@[simp]
theorem auxPairs_length (p : Program) (execfn randomData : Nat) :
    (auxPairs p execfn randomData).length = 13 := rfl

theorem putPointers_append (xs ys : List CString) (l : DownStack × Nat × Nat) :
    putPointers (xs ++ ys) l = putPointers ys (putPointers xs l) := by
  induction xs generalizing l with
  | nil => rfl
  | cons s xs ih => exact ih _

theorem putPointers_eq (strs : List CString) (s : DownStack) (index current : Nat) :
    (putPointers strs (s,index,current)).1 =
      s.put (8 * index) (words (addresses current strs)) := by
  induction strs generalizing s index current with
  | nil => exact (DownStack.put_nil s _).symm
  | cons str strs ih =>
    rw [putPointers,ih,addresses]
    exact DownStack.putWord_put s index current _

theorem pushPair_eq (s : DownStack) (key value : Nat) :
    pushPair s key value = (s.reserve 16).put 0 (words [key,value]) := by
  have h := DownStack.putWord_put (s.reserve 16) 0 key [value]
  rw [words_cons value,words_nil,List.append_nil] at h
  exact h

theorem pushAuxv_eq (s : DownStack) (p : Program) (execfn randomData : Nat) :
    pushAuxv s p execfn randomData =
      pushPairs ((s.pushWord 0).pushWord 0) (auxPairs p execfn randomData) := by
  simp only [pushAuxv,pushPairs,auxPairs,List.foldr_cons,List.foldr_nil]

@[simp]
theorem flatPairs_length (pairs : List (Nat × Nat)) :
    (flatPairs pairs).length = 2 * pairs.length := by
  induction pairs with
  | nil => rfl
  | cons e pairs ih =>
    simp only [flatPairs,List.flatMap_cons,List.length_append] at ih ⊢
    simp only [ih,List.length_cons,List.length_nil]
    omega

section Pushes

variable {base top : Nat} {s : DownStack} {l : List UInt8}

theorem pushString_holds (h : s.Holds base top l) (str : CString)
    (hn : base + (str.length + 1) ≤ s.sp) :
    (pushString s str).Holds base top (str.bytes ++ [0] ++ l) := by
  have := h.push str.bytes hn (by simp [CString.length])
  have hone : str.length + 1 - str.bytes.length = 1 := by simp [CString.length]
  rw [hone] at this
  exact this

theorem pushStrings_holds (h : s.Holds base top l) (strs : List CString)
    (hn : base + (area strs).length ≤ s.sp) :
    (pushStrings s strs).Holds base top (area strs ++ l) := by
  induction strs with
  | nil => exact h
  | cons str strs ih =>
    rw [area_cons_length] at hn
    have hs := ih (by omega)
    have hroom : base + (str.length + 1) ≤ (pushStrings s strs).sp := by
      have hnew := hs.length
      have hold := h.length
      rw [List.length_append] at hnew
      omega
    have := pushString_holds hs str hroom
    rwa [← List.append_assoc,← area_cons] at this

theorem pushPairs_holds (h : s.Holds base top l) (pairs : List (Nat × Nat))
    (hn : base + 16 * pairs.length ≤ s.sp) :
    (pushPairs s pairs).Holds base top (words (flatPairs pairs) ++ l) := by
  induction pairs with
  | nil => exact h
  | cons e pairs ih =>
    rw [List.length_cons] at hn
    have hs := ih (by omega)
    have hroom : base + 16 ≤ (pushPairs s pairs).sp := by
      have hnew := hs.length
      have hold := h.length
      rw [List.length_append,words_length,flatPairs_length] at hnew
      omega
    have := hs.push (words [e.1,e.2]) hroom (by simp [words_length])
    have hfull : 16 - (words [e.1,e.2]).length = 0 := by simp [words_length]
    rw [← pushPair_eq,hfull,List.replicate_zero,List.append_nil,← List.append_assoc,
      ← words_append] at this
    exact this

theorem pushAuxv_holds (h : s.Holds base top l) (p : Program) (execfn randomData : Nat)
    (hn : base + 224 ≤ s.sp) :
    (pushAuxv s p execfn randomData).Holds base top
      (words (flatPairs (auxPairs p execfn randomData ++ [(atNull,0)])) ++ l) := by
  have h₁ := h.pushWord 0 (by omega)
  have hlen := h.length
  have hlen₁ := h₁.length
  rw [List.length_append,words_length] at hlen₁
  have h₂ := h₁.pushWord 0 (by simp at hlen₁; omega)
  have hlen₂ := h₂.length
  simp only [List.length_append,words_length,List.length_singleton] at hlen₁ hlen₂
  have h₃ := pushPairs_holds h₂ (auxPairs p execfn randomData) (by simp [auxPairs]; omega)
  rw [pushAuxv_eq]
  simpa [flatPairs,words,atNull] using h₃

theorem putWords_holds (h : s.Holds base top l) (ws : List Nat) {n : Nat} (hw : ws.length = n)
    (hn : base + 8 * n ≤ s.sp) :
    ((s.reserve (8 * n)).put 0 (words ws)).Holds base top (words ws ++ l) := by
  subst hw
  have := h.push (words ws) hn (by rw [words_length])
  simpa [words_length] using this

theorem pushEnvp_holds (h : s.Holds base top l) (p : Program) (envStart : Nat)
    (hn : base + 8 * (p.envp.length + 1) ≤ s.sp) :
    (pushEnvp s p envStart).Holds base top (words (addresses envStart p.envp ++ [0]) ++ l) := by
  have h₁ := h.pushWord 0 (by omega)
  have hlen := h.length
  have hlen₁ := h₁.length
  simp only [List.length_append,words_length,List.length_singleton] at hlen₁
  have h₂ := putWords_holds h₁ (addresses envStart p.envp) (addresses_length _ _) (by omega)
  unfold pushEnvp
  rw [putPointers_eq,words_append,List.append_assoc]
  exact h₂

theorem pushArgv_holds (h : s.Holds base top l) (p : Program) (argStart : Nat)
    (hn : base + 8 * (p.args.length + 1) ≤ s.sp) :
    (pushArgv s p argStart).Holds base top (words (addresses argStart p.args ++ [0]) ++ l) := by
  have h₁ := h.pushWord 0 (by omega)
  have hlen := h.length
  have hlen₁ := h₁.length
  simp only [List.length_append,words_length,List.length_singleton] at hlen₁
  have h₂ := putWords_holds h₁ (addresses argStart p.args) (addresses_length _ _) (by omega)
  unfold pushArgv
  dsimp only
  rw [← putPointers_append,← putPointers_append,← args_length,words_append,List.append_assoc]
  change (putPointers p.args _).1.Holds _ _ _
  rw [putPointers_eq]
  exact h₂

end Pushes

def randomBytes : List UInt8 := List.replicate 16 0xaf

def Program.strings (p : Program) : List UInt8 :=
  area p.args ++ (area p.envp ++ (p.path.bytes ++ [0] ++ randomBytes))

theorem pushStrings_append (s : DownStack) (xs ys : List CString) :
    pushStrings s (xs ++ ys) = pushStrings (pushStrings s ys) xs :=
  List.foldr_append

@[simp]
theorem strings_length (p : Program) : p.strings.length = p.stringBytes := by
  simp [Program.strings,Program.stringBytes,randomBytes,CString.length]
  omega

section Layout

variable {base top : Nat} {s : DownStack} {p : Program}

structure Laid (top : Nat) (p : Program) (b : StackStrings) : Prop where
  randomData : b.randomData + 16 = top
  execfn : b.execfn + (p.path.length + 1 + 16) = top
  envEnd : b.envEnd = b.execfn
  envStart : b.envStart + (area p.envp).length = b.envEnd
  argEnd : b.argEnd = b.envStart
  argStart : b.argStart + (area p.args).length = b.argEnd

theorem pushProgram_stack (s : DownStack) (p : Program) :
    (pushProgram s p).stack = pushStrings (pushStrings (pushString
      ((s.reserve 16).put 0 randomBytes) p.path) p.envp) p.args := by
  rw [Program.args,pushStrings_append,pushStrings_append]
  rfl

theorem pushProgram_holds (h : s.Holds base top []) (hp : base + p.stringBytes ≤ top) :
    (pushProgram s p).stack.Holds base top p.strings ∧ Laid top p (pushProgram s p) := by
  unfold Program.stringBytes at hp
  have hlen := h.length
  rw [List.length_nil,Nat.add_zero] at hlen
  have hrandom : randomBytes.length = 16 := rfl
  have h₁ := h.push randomBytes (by omega) (Nat.le_refl 16)
  have hpad : 16 - randomBytes.length = 0 := rfl
  rw [hpad,List.replicate_zero,List.append_nil,List.append_nil] at h₁
  have hlen₁ := h₁.length
  rw [hrandom] at hlen₁
  have h₂ := pushString_holds h₁ p.path (by omega)
  have hlen₂ := h₂.length
  simp only [List.length_append,List.length_singleton,hrandom,← CString.length.eq_1] at hlen₂
  have h₃ := pushStrings_holds h₂ p.envp (by omega)
  have hlen₃ := h₃.length
  simp only [List.length_append,List.length_singleton,hrandom,← CString.length.eq_1] at hlen₃
  have h₄ := pushStrings_holds h₃ p.args (by omega)
  have hlen₄ := h₄.length
  simp only [List.length_append,List.length_singleton,hrandom,← CString.length.eq_1] at hlen₄
  rw [← pushProgram_stack] at h₄ hlen₄
  have hexec : (pushProgram s p).envEnd + (p.path.length + 1 + 16) = top := hlen₂
  have henv : (pushProgram s p).envStart +
      ((area p.envp).length + (p.path.length + 1 + 16)) = top := hlen₃
  have hend : (pushProgram s p).argEnd = (pushProgram s p).envStart := rfl
  have hargs : (pushProgram s p).argStart + ((area p.args).length +
      ((area p.envp).length + (p.path.length + 1 + 16))) = top := hlen₄
  exact ⟨h₄,hlen₁,hexec,rfl,by omega,hend,by omega⟩

theorem alignDown_sub (i : Nat) : alignDown i 16 = i - i % 16 := by
  unfold alignDown
  have := Nat.div_add_mod i 16
  split_ifs
  · omega
  · omega

def Program.padding (p : Program) : Nat := p.numWords % 2 * 8

theorem alignStack_eq (s : DownStack) (p : Program) :
    alignStack s p = (s.reserve (s.sp % 16)).reserve p.padding := by
  have hargs := args_length p
  unfold alignStack Program.padding Program.numWords
  rw [alignDown_sub]
  split_ifs with hodd
  · have hp : (31 + p.args.length + p.envp.length) % 2 * 8 = 8 := by omega
    rw [hp]
    rfl
  · have hp : (31 + p.args.length + p.envp.length) % 2 * 8 = 0 := by omega
    rw [hp]
    rfl

theorem alignStack_holds {l : List UInt8} (h : s.Holds base top l) (p : Program)
    (hn : base + s.sp % 16 + p.padding ≤ s.sp) :
    (alignStack s p).Holds base top
      (List.replicate p.padding 0 ++ (List.replicate (s.sp % 16) 0 ++ l)) := by
  rw [alignStack_eq]
  have h₁ := h.reserve (n := s.sp % 16) (by omega)
  exact h₁.reserve (by simp only [DownStack.reserve]; omega)

def Program.words (p : Program) (b : StackStrings) : List Nat :=
  p.args.length :: (addresses b.argStart p.args ++ [0] ++ (addresses b.envStart p.envp ++ [0] ++
    flatPairs (auxPairs p b.execfn b.randomData ++ [(atNull,0)])))

theorem words_count (p : Program) (b : StackStrings) : (p.words b).length = p.numWords := by
  simp [Program.words,Program.numWords,addresses_length,flatPairs_length,auxPairs]
  omega

theorem pushVectors_holds {l : List UInt8} (h : s.Holds base top l) (p : Program)
    (b : StackStrings) (hn : base + 8 * p.numWords ≤ s.sp) :
    (pushVectors s p b).Holds base top (Lib.words (p.words b) ++ l) := by
  have hcount : p.numWords = 31 + p.args.length + p.envp.length := rfl
  have hlen := h.length
  have h₁ := pushAuxv_holds h p b.execfn b.randomData (by omega)
  have h₂ := pushEnvp_holds h₁ p b.envStart (h₁.room (by simp; omega))
  have h₃ := pushArgv_holds h₂ p b.argStart (h₂.room (by simp; omega))
  have h₄ := h₃.pushWord p.args.length (h₃.room (by simp; omega))
  rw [args_length] at h₄
  unfold pushVectors
  rw [Program.words,args_length,← List.singleton_append]
  simpa only [words_append,List.append_assoc] using h₄

structure Final (base top gap : Nat) (p : Program) (b : StackStrings) : Prop where
  aligned : top % 16 = 0
  holds : b.stack.Holds base top (Lib.words (p.words b) ++ (List.replicate gap 0 ++ p.strings))
  size : b.stack.sp + p.stackSize = top
  laid : Laid top p b

theorem buildStack_final {bytes : Bytes} (hz : ∀ a, base ≤ a → a < top → bytes a = 0)
    (ht : top % 16 = 0) (hp : base + p.stackSize ≤ top) :
    ∃ gap, Final base top gap p (buildStack bytes top p) := by
  have hpad : p.padding = p.numWords % 2 * 8 := rfl
  have hsize : p.stackSize =
    (p.stringBytes + 15) / 16 * 16 + (p.numWords + p.numWords % 2) * 8 := rfl
  have h₀ : DownStack.Holds base top ⟨bytes,top⟩ [] := ⟨rfl,rfl,hz⟩
  obtain ⟨h₁,hlaid⟩ := pushProgram_holds (p := p) h₀ (by omega)
  have hlen₁ := h₁.length
  rw [strings_length] at hlen₁
  have h₂ := alignStack_holds h₁ p (by omega)
  have h₃ := pushVectors_holds h₂ p (pushProgram ⟨bytes,top⟩ p) (h₂.room (by simp; omega))
  have hlen₃ := h₃.length
  simp only [List.length_append,words_length,words_count,List.length_replicate,
    strings_length] at hlen₃
  rw [← List.append_assoc (List.replicate _ _),← List.replicate_add] at h₃
  refine ⟨_,ht,h₃,?_,hlaid.randomData,hlaid.execfn,hlaid.envEnd,hlaid.envStart,hlaid.argEnd,
    hlaid.argStart⟩
  change (pushVectors _ p _).sp + _ = top
  omega

end Layout

def wordsAt (m : Bytes) : Nat → Nat → List Nat
  | _, 0 => []
  | a, n + 1 => ofLe (copyOut m a 8) :: wordsAt m (a + 8) n

def CopyAt (m : Bytes) (a : Nat) (s : CString) : Prop :=
  copyOut m a (s.length + 1) = s.bytes ++ [0]

def stringAreas (addrs : List Nat) (strs : List CString) : List (Nat × Nat) :=
  List.zipWith (fun a s => (a,s.length + 1)) addrs strs

structure InitialStack (p : Program) (b : StackStrings) (argv envp : List Nat)
    (auxv : List (Nat × Nat)) (execfn : Nat) : Prop where
  aligned : b.stack.sp % 16 = 0
  words : wordsAt b.stack.bytes b.stack.sp (3 + argv.length + envp.length + 2 * auxv.length) =
    p.args.length :: (argv ++ [0] ++ (envp ++ [0] ++ flatPairs auxv))
  args : List.Forall₂ (CopyAt b.stack.bytes) argv p.args
  envs : List.Forall₂ (CopyAt b.stack.bytes) envp p.envp
  terminated : ∃ pairs, auxv = pairs ++ [(atNull,0)] ∧ ∀ e ∈ pairs, e.1 ≠ atNull
  named : auxv.lookup atExecfn = some execfn ∧ CopyAt b.stack.bytes execfn p.path
  disjoint : List.Pairwise (fun x y => x.1 + x.2 ≤ y.1)
    ((b.stack.sp,8 * (3 + argv.length + envp.length + 2 * auxv.length)) ::
      (stringAreas argv p.args ++ stringAreas envp p.envp ++ [(execfn,p.path.length + 1)]))
  argRange : b.argStart ≤ b.argEnd ∧
    copyOut b.stack.bytes b.argStart (b.argEnd - b.argStart) = area p.args
  envRange : b.envStart ≤ b.envEnd ∧
    copyOut b.stack.bytes b.envStart (b.envEnd - b.envStart) = area p.envp

theorem wordsAt_eq {m : Bytes} {a : Nat} {ws : List Nat}
    (h : copyOut m a (8 * ws.length) = Lib.words ws) (hb : ∀ w ∈ ws, w < 2 ^ 64) :
    wordsAt m a ws.length = ws := by
  induction ws generalizing a with
  | nil => rfl
  | cons w ws ih =>
    have hsplit : 8 * (w :: ws).length = 8 + 8 * ws.length := by
      rw [List.length_cons]
      omega
    rw [hsplit,copyOut_add,words_cons] at h
    have hw := List.append_inj_left h (by simp [copyOut_length])
    have hws := List.append_inj_right h (by simp [copyOut_length])
    rw [List.length_cons,wordsAt,hw,ofLe_leBytes (hb w List.mem_cons_self)]
    rw [ih hws fun v hv => hb v (List.mem_cons_of_mem _ hv)]

theorem copies_of_area {m : Bytes} {a : Nat} {strs : List CString}
    (h : copyOut m a (area strs).length = area strs) :
    List.Forall₂ (CopyAt m) (addresses a strs) strs := by
  induction strs generalizing a with
  | nil => exact .nil
  | cons s strs ih =>
    rw [area_cons_length,copyOut_add,area_cons] at h
    have hs := List.append_inj_left h (by simp [copyOut_length,CString.length])
    have hrest := List.append_inj_right h (by simp [copyOut_length,CString.length])
    exact .cons hs (ih hrest)

theorem stringAreas_bounds {a : Nat} {strs : List CString} {x : Nat × Nat}
    (h : x ∈ stringAreas (addresses a strs) strs) :
    a ≤ x.1 ∧ x.1 + x.2 ≤ a + (area strs).length := by
  induction strs generalizing a with
  | nil => cases h
  | cons s strs ih =>
    rw [area_cons_length]
    rcases List.mem_cons.mp h with rfl | h
    · dsimp only
      omega
    · have := ih h
      omega

theorem stringAreas_pairwise (a : Nat) (strs : List CString) :
    (stringAreas (addresses a strs) strs).Pairwise fun x y => x.1 + x.2 ≤ y.1 := by
  induction strs generalizing a with
  | nil => exact .nil
  | cons s strs ih =>
    refine .cons (fun y hy => ?_) (ih _)
    have := stringAreas_bounds hy
    dsimp only
    omega

theorem addresses_le {a x : Nat} {strs : List CString} (h : x ∈ addresses a strs) :
    x ≤ a + (area strs).length := by
  induction strs generalizing a with
  | nil => cases h
  | cons s strs ih =>
    rw [area_cons_length]
    rcases List.mem_cons.mp h with rfl | h
    · omega
    · have := ih h
      omega

section Final

variable {base top gap : Nat} {p : Program} {b : StackStrings}

theorem Final.argArea (h : Final base top gap p b) :
    copyOut b.stack.bytes b.argStart (area p.args).length = area p.args := by
  have h₁ := h.laid.argStart
  have h₂ := h.laid.argEnd
  have h₃ := h.laid.envStart
  have h₄ := h.laid.envEnd
  have h₅ := h.laid.execfn
  refine h.holds.part (Lib.words (p.words b) ++ List.replicate gap 0) (area p.args)
    (area p.envp ++ (p.path.bytes ++ [0] ++ randomBytes)) ?_ ?_
  · simp only [Program.strings,List.append_assoc]
  · simp only [List.length_append,randomBytes,List.length_replicate,List.length_singleton,
      ← CString.length.eq_1]
    omega

theorem Final.envArea (h : Final base top gap p b) :
    copyOut b.stack.bytes b.envStart (area p.envp).length = area p.envp := by
  have h₁ := h.laid.envStart
  have h₂ := h.laid.envEnd
  have h₃ := h.laid.execfn
  refine h.holds.part (Lib.words (p.words b) ++ (List.replicate gap 0 ++ area p.args)) (area p.envp)
    (p.path.bytes ++ [0] ++ randomBytes) ?_ ?_
  · simp only [Program.strings,List.append_assoc]
  · simp only [List.length_append,randomBytes,List.length_replicate,List.length_singleton,
      ← CString.length.eq_1]
    omega

theorem Final.pathCopy (h : Final base top gap p b) :
    CopyAt b.stack.bytes b.execfn p.path := by
  have h₁ := h.laid.execfn
  have := h.holds.part
    (Lib.words (p.words b) ++ (List.replicate gap 0 ++ (area p.args ++ area p.envp)))
    (p.path.bytes ++ [0]) randomBytes
    (by simp only [Program.strings,List.append_assoc])
    (by
      simp only [List.length_append,randomBytes,List.length_replicate,List.length_singleton,
        ← CString.length.eq_1]
      exact h₁)
  rwa [List.length_append] at this

theorem Final.wordsCopy (h : Final base top gap p b) :
    copyOut b.stack.bytes b.stack.sp (8 * (p.words b).length) = Lib.words (p.words b) := by
  have := h.holds.part [] (Lib.words (p.words b)) (List.replicate gap 0 ++ p.strings) rfl
    (by simpa using h.holds.length)
  rwa [words_length] at this

theorem flatPairs_lt {pairs : List (Nat × Nat)} (h : ∀ e ∈ pairs, e.1 < 2 ^ 64 ∧ e.2 < 2 ^ 64) :
    ∀ w ∈ flatPairs pairs, w < 2 ^ 64 := by
  intro w hw
  obtain ⟨e,he,hw⟩ := List.mem_flatMap.mp hw
  rcases List.mem_cons.mp hw with rfl | hw
  · exact (h e he).1
  · rw [List.mem_singleton.mp hw]
    exact (h e he).2

theorem auxPairs_lt {execfn randomData : Nat} (he : execfn < 2 ^ 64) (hr : randomData < 2 ^ 64)
    (p : Program) : ∀ e ∈ auxPairs p execfn randomData, e.1 < 2 ^ 64 ∧ e.2 < 2 ^ 64 := by
  have hword : ∀ x : UInt64, x.toNat < 2 ^ 64 := UInt64.toNat_lt
  have hid : ∀ x : UInt32, x.toNat < 2 ^ 64 := fun x => Nat.lt_trans x.toNat_lt (by decide)
  simp [auxPairs,atPagesz,atPhdr,atPhent,atPhnum,atFlags,atEntry,atUid,atEuid,atGid,atEgid,
    atSecure,atRandom,atExecfn]
  exact ⟨hword _,hword _,hword _,hword _,hid _,hid _,hid _,hid _,hr,he⟩

theorem Final.words_lt (h : Final base top gap p b) (hmax : top < 2 ^ 64) :
    ∀ w ∈ p.words b, w < 2 ^ 64 := by
  have h₁ := h.laid.argStart
  have h₂ := h.laid.argEnd
  have h₃ := h.laid.envStart
  have h₄ := h.laid.envEnd
  have h₅ := h.laid.execfn
  have h₆ := h.laid.randomData
  have hsize := h.size
  have hnum : p.numWords = 31 + p.args.length + p.envp.length := rfl
  intro w hw
  simp only [Program.words,List.mem_cons,List.mem_append,List.not_mem_nil,or_false] at hw
  rcases hw with rfl | (hw | rfl) | (hw | rfl) | hw
  · simp only [Program.stackSize] at hsize
    omega
  · have := addresses_le hw
    omega
  · omega
  · have := addresses_le hw
    omega
  · omega
  · refine flatPairs_lt ?_ w hw
    intro e he
    rcases List.mem_append.mp he with he | he
    · exact auxPairs_lt (by omega) (by omega) p e he
    · rw [List.mem_singleton.mp he]
      exact ⟨by decide,by decide⟩

theorem Final.areas (h : Final base top gap p b) :
    ((b.stack.sp,8 * p.numWords) ::
      (stringAreas (addresses b.argStart p.args) p.args ++
        stringAreas (addresses b.envStart p.envp) p.envp ++
        [(b.execfn,p.path.length + 1)])).Pairwise fun x y => x.1 + x.2 ≤ y.1 := by
  have h₁ := h.laid.argStart
  have h₂ := h.laid.argEnd
  have h₃ := h.laid.envStart
  have h₄ := h.laid.envEnd
  have h₅ := h.laid.execfn
  have hlen := h.holds.length
  simp only [List.length_append,words_length,words_count,List.length_replicate,
    strings_length,Program.stringBytes] at hlen
  refine .cons ?_ ?_
  · intro y hy
    simp only [List.mem_append,List.mem_singleton] at hy
    rcases hy with (hy | hy) | rfl
    · have := stringAreas_bounds hy
      dsimp only
      omega
    · have := stringAreas_bounds hy
      dsimp only
      omega
    · dsimp only
      omega
  · refine List.pairwise_append.mpr ⟨?_,List.pairwise_singleton _ _,?_⟩
    · refine List.pairwise_append.mpr
        ⟨stringAreas_pairwise _ _,stringAreas_pairwise _ _,fun x hx y hy => ?_⟩
      have hxb := stringAreas_bounds hx
      have hyb := stringAreas_bounds hy
      omega
    · intro x hx y hy
      rw [List.mem_singleton.mp hy]
      dsimp only
      rcases List.mem_append.mp hx with hx | hx
      · have := stringAreas_bounds hx
        omega
      · have := stringAreas_bounds hx
        omega

theorem Final.initialStack (h : Final base top gap p b) (hmax : top < 2 ^ 64) :
    InitialStack p b (addresses b.argStart p.args) (addresses b.envStart p.envp)
      (auxPairs p b.execfn b.randomData ++ [(atNull,0)]) b.execfn := by
  have hn : 3 + (addresses b.argStart p.args).length + (addresses b.envStart p.envp).length +
      2 * (auxPairs p b.execfn b.randomData ++ [(atNull,0)]).length = p.numWords := by
    simp [Program.numWords]
    omega
  have harg : b.argEnd - b.argStart = (area p.args).length := by
    rw [← h.laid.argStart,Nat.add_sub_cancel_left]
  have henv : b.envEnd - b.envStart = (area p.envp).length := by
    rw [← h.laid.envStart,Nat.add_sub_cancel_left]
  have haligned : b.stack.sp % 16 = 0 := by
    have hsize := h.size
    have ht := h.aligned
    simp only [Program.stackSize] at hsize
    omega
  refine ⟨haligned,?_,copies_of_area h.argArea,copies_of_area h.envArea,⟨_,rfl,?_⟩,
    ⟨rfl,h.pathCopy⟩,?_,?_,?_⟩
  · rw [hn,← words_count p b]
    exact wordsAt_eq h.wordsCopy (h.words_lt hmax)
  · simp [auxPairs,atNull,atPagesz,atPhdr,atPhent,atPhnum,atFlags,atEntry,atUid,atEuid,atGid,
      atEgid,atSecure,atRandom,atExecfn]
  · rw [hn]
    exact h.areas
  · exact ⟨by rw [← h.laid.argStart]; omega,harg ▸ h.argArea⟩
  · exact ⟨by rw [← h.laid.envStart]; omega,henv ▸ h.envArea⟩

end Final

theorem initial_stack {bytes : Bytes} {p : Program}
    (hz : ∀ a, userMmapBase ≤ a → a < userMmapBase + userStackSize → bytes a = 0)
    (hfit : p.stackSize ≤ userStackSize) :
    ∃ argv envp auxv execfn,
      InitialStack p (buildStack bytes (userMmapBase + userStackSize) p) argv envp auxv execfn := by
  obtain ⟨gap,hfinal⟩ := buildStack_final (p := p) hz (by decide) (Nat.add_le_add_left hfit _)
  exact ⟨_,_,_,_,hfinal.initialStack (by decide)⟩

def scriptProgram : Program where
  path := ⟨[47,120,46,115,104],by decide⟩
  argv := [⟨[47,120,46,115,104],by decide⟩,⟨[97],by decide⟩]
  envp := [⟨[65,61,49],by decide⟩]
  interpreterPath := some ⟨[47,98,105,110,47,115,104],by decide⟩
  interpreterArg := some ⟨[45,101],by decide⟩
  auxv := {}
  cred := {}

theorem initial_stack_script : scriptProgram.stackSize ≤ userStackSize ∧
    ∃ argv envp auxv execfn, InitialStack scriptProgram
      (buildStack (fun _ => 0) (userMmapBase + userStackSize) scriptProgram)
      argv envp auxv execfn :=
  ⟨by decide,initial_stack (fun _ _ _ => rfl) (by decide)⟩

end SabaOS.Sched
