import Mathlib.Tactic.SplitIfs
import SabaOS.Mem.Range

namespace SabaOS.Mem
open SabaOS.Klib SabaOS.Lib

inductive Errno where
  | einval
  | enomem
  | ebadf
  | eacces
  | enodev
  | efault
  deriving DecidableEq, Repr

inductive Owner where
  | own
  | kernel
  deriving DecidableEq, Repr

structure Space where
  rangeList : List MappedRange
  nextId : Nat
  cachedRangeLookup : Option (Owner × Nat)
  mmapAnonBase : Nat
  brk : Nat

inductive Node where
  | tmpfs
  | memfd (address : Nat)
  | framebuffer (phy : Nat)
  | other
  deriving DecidableEq, Repr

structure FileDescription where
  id : Nat
  canRead : Bool
  canWrite : Bool
  vnode : Node

def protWrite : Nat := 2
def protExec : Nat := 4
def mapShared : Nat := 1
def mapPrivate : Nat := 2
def mapFixed : Nat := 16
def mapAnonymous : Nat := 32

def flagSet (flags bit : Nat) : Bool := flags &&& bit ≠ 0

def mmapProtToPageFlags (prot : Nat) : UInt64 :=
  let flags := pagePresent ||| pageUser
  let flags := if flagSet prot protWrite then flags ||| pageWritable else flags
  if flagSet prot protExec then flags else flags ||| pageNoExecute

def anonymousRequest (base length : Nat) (pageFlags : UInt64) (keepPages : Bool) : Request :=
  ⟨base,length,pageFlags,.anonymous,0,none,0,true,true,keepPages⟩

def directRequest (base length : Nat) (pageFlags : UInt64) (phyBase : Nat) : Request :=
  ⟨base,length,pageFlags,.direct,phyBase,none,0,false,true,false⟩

def fileRequest (base length : Nat) (pageFlags : UInt64) (file offset : Nat) : Request :=
  ⟨base,length,pageFlags,.file,0,some file,offset,false,true,false⟩

def mirrorRequest (base length : Nat) (pageFlags : UInt64) (address : Nat) : Request :=
  ⟨base,length,pageFlags,.directVirtual,address,none,0,false,true,false⟩

def unmapRequest (base length : Nat) : Request :=
  ⟨base,length,0,.none,0,none,0,false,true,false⟩

def FileDescription.mmap (fd : FileDescription) (addr length offset prot flags : Nat) :
    Except Errno Request :=
  let pageFlags := mmapProtToPageFlags prot
  match fd.vnode with
  | .tmpfs => .ok (fileRequest addr length pageFlags fd.id offset)
  | .memfd address =>
      if flagSet flags mapShared then .ok (mirrorRequest addr length pageFlags address)
      else if flagSet flags mapPrivate then .ok (fileRequest addr length pageFlags fd.id offset)
      else .error .einval
  | .framebuffer phy => .ok (directRequest addr length (pageFlags ||| pageWriteCombining) phy)
  | .other => .error .enodev

structure Reply (α : Type) where
  space : Space
  effects : List Effect
  result : α

namespace Space

def addRange (sp : Space) (q : Request) : Reply (Option MappedRange) :=
  let out := Mem.addRange q sp.rangeList sp.nextId
  ⟨{ sp with rangeList := out.1.rangeList, nextId := out.1.nextId, cachedRangeLookup := none },
    out.1.effects,out.2⟩

-- `delete` fills a range with 0xAE bytes, whose wrapped end lies below its base:
-- a cached pointer to a deleted range never matches.
def cachedRange (sp : Space) (kernel : List MappedRange) : Option (Owner × MappedRange) :=
  match sp.cachedRangeLookup with
  | none => none
  | some (.own,id) => (Keyed.lookup MappedRange.id sp.rangeList id).map (Owner.own,·)
  | some (.kernel,id) => (Keyed.lookup MappedRange.id kernel id).map (Owner.kernel,·)

def searchRange (sp : Space) (kernel : List MappedRange) (virt : Nat) :
    Option (Owner × MappedRange) :=
  match sp.rangeList.find? fun r => r.covers virt with
  | some r => some (.own,r)
  | none => (kernel.find? fun r => r.covers virt).map (Owner.kernel,·)

def addrToRange (sp : Space) (kernel : List MappedRange) (virt : Nat) :
    Space × Option (Owner × MappedRange) :=
  match (sp.cachedRange kernel).filter fun r => r.2.covers virt with
  | some r => (sp,some r)
  | none =>
      match sp.searchRange kernel virt with
      | some r => ({ sp with cachedRangeLookup := some (r.1,r.2.id) },some r)
      | none => (sp,none)

def placeMmap (sp : Space) (addr alignedSize flags : Nat) : Space × Nat :=
  if flagSet flags mapFixed then
    ({ sp with mmapAnonBase := alignUp (max sp.mmapAnonBase (uadd addr alignedSize)) pageSize },addr)
  else ({ sp with mmapAnonBase := uadd sp.mmapAnonBase alignedSize },sp.mmapAnonBase)

def mmapRequest (base alignedSize prot flags offset : Nat) (fd : Option FileDescription) :
    Except Errno Request :=
  if flagSet flags mapAnonymous then
    .ok (anonymousRequest base alignedSize (mmapProtToPageFlags prot) (!flagSet flags mapFixed))
  else
    match fd with
    | none => .error .ebadf
    | some fd =>
        if !fd.canRead then .error .eacces
        else if flagSet flags mapShared && flagSet prot protWrite && !fd.canWrite then .error .eacces
        else fd.mmap base alignedSize offset prot flags

def syscallMmap (sp : Space) (addr length prot flags : Nat) (fd : Option FileDescription)
    (offset : Nat) : Reply (Except Errno Nat) :=
  if length = 0 then ⟨sp,[],.error .einval⟩
  else
    let alignedSize := alignUp length pageSize
    let (sp,base) := sp.placeMmap addr alignedSize flags
    match mmapRequest base alignedSize prot flags offset fd with
    | .error e => ⟨sp,[],.error e⟩
    | .ok q => ⟨(sp.addRange q).space,(sp.addRange q).effects,.ok base⟩

def syscallMunmap (sp : Space) (addr length : Nat) : Reply (Except Errno Nat) :=
  if addr % pageSize ≠ 0 then ⟨sp,[],.error .einval⟩
  else
    let length := alignUp length pageSize
    let out := sp.addRange (unmapRequest addr length)
    let sp := out.space
    ⟨if sp.mmapAnonBase = uadd addr length then { sp with mmapAnonBase := addr } else sp,
      out.effects,.ok 0⟩

def protectRequest (existing : MappedRange) (current rangeLen prot : Nat) : Request :=
  { base := current, length := rangeLen, pageFlags := mmapProtToPageFlags prot,
    type := existing.type,
    phyBase := if existing.phyBase ≠ 0 then uadd existing.phyBase (usub current existing.base)
      else 0,
    file := existing.file,
    fileOffset := uadd existing.fileOffset (usub current existing.base),
    merge := true, resolveOverlap := true, keepPages := true }

def protectLen (existing : MappedRange) (current stop : Nat) : Nat :=
  let rangeLen := usub existing.endAddr current
  if uadd current rangeLen > stop then usub stop current else rangeLen

def protectLoop (kernel : List MappedRange) (stop prot : Nat) :
    Nat → Nat → Space → List Effect → Reply (Except Errno Nat)
  | 0, _, sp, effects => ⟨sp,effects,.ok 0⟩
  | fuel + 1, current, sp, effects =>
      if current < stop then
        match sp.addrToRange kernel current with
        | (sp,none) => ⟨sp,effects,.error .enomem⟩
        | (sp,some (_,existing)) =>
            let rangeLen := protectLen existing current stop
            let out := sp.addRange (protectRequest existing current rangeLen prot)
            protectLoop kernel stop prot fuel (uadd current rangeLen) out.space
              (effects ++ out.effects)
      else ⟨sp,effects,.ok 0⟩

-- Every iteration moves `current` forward, so one unit of fuel for each byte is enough.
def syscallMprotect (kernel : List MappedRange) (sp : Space) (addr length prot : Nat) :
    Reply (Except Errno Nat) :=
  if addr % pageSize ≠ 0 then ⟨sp,[],.error .einval⟩
  else
    let length := alignUp length pageSize
    protectLoop kernel (uadd addr length) prot (length + 1) addr sp []

inductive Advice where
  | ignored
  | dontfork
  | dontneed
  | unsupported
  deriving DecidableEq, Repr

def Advice.decode (advice : Int) : Advice :=
  if advice ∈ [0,1,2,3,16,17,14,15,12,13] then .ignored
  else if advice = 10 then .dontfork
  else if advice = 8 ∨ advice = 4 then .dontneed
  else .unsupported

def syscallMadvise (sp : Space) (addr length : Nat) (advice : Int) : Reply (Except Errno Nat) :=
  if addr % pageSize ≠ 0 then ⟨sp,[],.error .einval⟩
  else
    let length := alignUp length pageSize
    match Advice.decode advice with
    | .ignored | .dontfork => ⟨sp,[],.ok 0⟩
    | .dontneed => ⟨sp,[.invalidatePages addr length none],.ok 0⟩
    | .unsupported => ⟨sp,[],.error .einval⟩

def syscallBrk (sp : Space) (addr : Nat) : Reply Nat :=
  if addr = 0 then ⟨sp,[],sp.brk⟩
  else
    let oldPageBrk := alignUp sp.brk pageSize
    let newPageBrk := alignUp addr pageSize
    let out : Reply (Option MappedRange) :=
      if newPageBrk > oldPageBrk then
        sp.addRange (anonymousRequest oldPageBrk (usub newPageBrk oldPageBrk)
          (mmapProtToPageFlags (1 ||| protWrite)) true)
      else if newPageBrk < oldPageBrk then
        sp.addRange (unmapRequest newPageBrk (usub oldPageBrk newPageBrk))
      else ⟨sp,[],none⟩
    ⟨{ out.space with brk := addr },out.effects,addr⟩

end Space

inductive Call where
  | mmap (addr length prot flags : Nat) (fd : Option FileDescription) (offset : Nat)
  | munmap (addr length : Nat)
  | mprotect (addr length prot : Nat)
  | madvise (addr length : Nat) (advice : Int)
  | brk (addr : Nat)

namespace Space

def syscall (kernel : List MappedRange) (sp : Space) : Call → Space × List Effect
  | .mmap addr length prot flags fd offset =>
      let out := sp.syscallMmap addr length prot flags fd offset
      (out.space,out.effects)
  | .munmap addr length =>
      let out := sp.syscallMunmap addr length
      (out.space,out.effects)
  | .mprotect addr length prot =>
      let out := syscallMprotect kernel sp addr length prot
      (out.space,out.effects)
  | .madvise addr length advice =>
      let out := sp.syscallMadvise addr length advice
      (out.space,out.effects)
  | .brk addr =>
      let out := sp.syscallBrk addr
      (out.space,out.effects)

def callRequest (sp : Space) : Call → Option Request
  | .mmap addr length prot flags fd offset =>
      let alignedSize := alignUp length pageSize
      if length = 0 then none
      else (mmapRequest (sp.placeMmap addr alignedSize flags).2 alignedSize prot flags offset
        fd).toOption
  | .munmap addr length =>
      if addr % pageSize ≠ 0 then none else some (unmapRequest addr (alignUp length pageSize))
  | .mprotect _ _ _ => none
  | .madvise _ _ _ => none
  | .brk addr =>
      let oldPageBrk := alignUp sp.brk pageSize
      let newPageBrk := alignUp addr pageSize
      if addr = 0 then none
      else if newPageBrk > oldPageBrk then
        some (anonymousRequest oldPageBrk (usub newPageBrk oldPageBrk)
          (mmapProtToPageFlags (1 ||| protWrite)) true)
      else if newPageBrk < oldPageBrk then
        some (unmapRequest newPageBrk (usub oldPageBrk newPageBrk))
      else none

theorem mmapProtToPageFlags_present (prot : Nat) :
    mmapProtToPageFlags prot &&& pagePresent ≠ 0 := by
  unfold mmapProtToPageFlags
  cases flagSet prot protWrite <;> cases flagSet prot protExec <;> decide

theorem writeCombining_present (prot : Nat) :
    (mmapProtToPageFlags prot ||| pageWriteCombining) &&& pagePresent ≠ 0 := by
  unfold mmapProtToPageFlags
  cases flagSet prot protWrite <;> cases flagSet prot protExec <;> decide

theorem mmapRequest_resolves {base size prot flags offset : Nat} {fd : Option FileDescription}
    {q : Request} (h : mmapRequest base size prot flags offset fd = .ok q) :
    q.base = base ∧ q.length = size ∧ q.resolveOverlap = true ∧ q.type ≠ .none ∧
    (q.keepPages = true → q.type = .anonymous) ∧ q.pageFlags &&& pagePresent ≠ 0 := by
  unfold mmapRequest at h
  split_ifs at h
  · cases h
    exact ⟨rfl,rfl,rfl,nofun,fun _ => rfl,mmapProtToPageFlags_present prot⟩
  · cases fd with
    | none => simp at h
    | some fd =>
      simp only at h
      split_ifs at h
      unfold FileDescription.mmap at h
      cases hv : fd.vnode <;> simp only [hv] at h <;> (try split_ifs at h) <;> cases h <;>
        first
          | exact ⟨rfl,rfl,rfl,nofun,nofun,mmapProtToPageFlags_present prot⟩
          | exact ⟨rfl,rfl,rfl,nofun,nofun,writeCombining_present prot⟩

theorem callRequest_resolves {sp : Space} {c : Call} {q : Request}
    (h : sp.callRequest c = some q) :
    q.resolveOverlap = true ∧ (q.keepPages = true → q.type = .anonymous) ∧
    (q.type ≠ .none → q.pageFlags &&& pagePresent ≠ 0) := by
  cases c with
  | mmap addr length prot flags fd offset =>
    simp only [callRequest] at h
    split_ifs at h
    cases hm : mmapRequest (sp.placeMmap addr (alignUp length pageSize) flags).2
      (alignUp length pageSize) prot flags offset fd with
    | error e => simp [hm,Except.toOption] at h
    | ok q' =>
      simp only [hm,Except.toOption,Option.some.injEq] at h
      obtain ⟨_,_,hr,_,hk,hf⟩ := mmapRequest_resolves hm
      exact h ▸ ⟨hr,hk,fun _ => hf⟩
  | munmap addr length =>
    simp only [callRequest] at h
    split_ifs at h
    cases h
    exact ⟨rfl,nofun,fun h => absurd rfl h⟩
  | mprotect => simp [callRequest] at h
  | madvise => simp [callRequest] at h
  | brk addr =>
    simp only [callRequest] at h
    split_ifs at h <;> cases h
    · exact ⟨rfl,fun _ => rfl,fun _ => mmapProtToPageFlags_present _⟩
    · exact ⟨rfl,nofun,fun h => absurd rfl h⟩

theorem syscall_of_request {sp : Space} {c : Call} {q : Request} (kernel : List MappedRange)
    (h : sp.callRequest c = some q) :
    (sp.syscall kernel c).1.rangeList = (Mem.addRange q sp.rangeList sp.nextId).1.rangeList ∧
    (sp.syscall kernel c).1.nextId = (Mem.addRange q sp.rangeList sp.nextId).1.nextId ∧
    (sp.syscall kernel c).2 = (Mem.addRange q sp.rangeList sp.nextId).1.effects := by
  cases c with
  | mmap addr length prot flags fd offset =>
    simp only [callRequest] at h
    split_ifs at h with h0
    have hp : (sp.placeMmap addr (alignUp length pageSize) flags).1.rangeList = sp.rangeList ∧
        (sp.placeMmap addr (alignUp length pageSize) flags).1.nextId = sp.nextId := by
      unfold placeMmap
      split_ifs <;> exact ⟨rfl,rfl⟩
    cases hm : mmapRequest (sp.placeMmap addr (alignUp length pageSize) flags).2
      (alignUp length pageSize) prot flags offset fd with
    | error e => simp [hm,Except.toOption] at h
    | ok q' =>
      simp only [hm,Except.toOption,Option.some.injEq] at h
      subst h
      simp [syscall,syscallMmap,h0,hm,addRange,hp]
  | munmap addr length =>
    simp only [callRequest] at h
    split_ifs at h with h0
    cases h
    by_cases hb : sp.mmapAnonBase = uadd addr (alignUp length pageSize) <;>
      simp [syscall,syscallMunmap,h0,addRange,hb]
  | mprotect => simp [callRequest] at h
  | madvise => simp [callRequest] at h
  | brk addr =>
    simp only [callRequest] at h
    split_ifs at h with h0 h1 h2 <;> cases h
    · simp only [syscall,syscallBrk,if_neg h0,if_pos h1]
      exact ⟨rfl,rfl,rfl⟩
    · simp only [syscall,syscallBrk,if_neg h0,if_neg h1,if_pos h2]
      exact ⟨rfl,rfl,rfl⟩

theorem syscall_without_request (kernel : List MappedRange) {sp : Space} {c : Call}
    (h : sp.callRequest c = none) (hc : ∀ addr length prot, c ≠ .mprotect addr length prot) :
    (sp.syscall kernel c).1.rangeList = sp.rangeList ∧
    (sp.syscall kernel c).1.nextId = sp.nextId := by
  cases c with
  | mmap addr length prot flags fd offset =>
    simp only [callRequest] at h
    split_ifs at h with h0
    · simp [syscall,syscallMmap,h0]
    have hp : (sp.placeMmap addr (alignUp length pageSize) flags).1.rangeList = sp.rangeList ∧
        (sp.placeMmap addr (alignUp length pageSize) flags).1.nextId = sp.nextId := by
      unfold placeMmap
      split_ifs <;> exact ⟨rfl,rfl⟩
    cases hm : mmapRequest (sp.placeMmap addr (alignUp length pageSize) flags).2
      (alignUp length pageSize) prot flags offset fd with
    | error e => simp [syscall,syscallMmap,h0,hm,hp]
    | ok q => simp [hm,Except.toOption] at h
  | munmap addr length =>
    simp only [callRequest] at h
    split_ifs at h with h0
    simp [syscall,syscallMunmap,h0]
  | mprotect addr length prot => exact absurd rfl (hc addr length prot)
  | madvise addr length advice =>
    simp only [syscall,syscallMadvise]
    split_ifs
    · exact ⟨rfl,rfl⟩
    · split <;> exact ⟨rfl,rfl⟩
  | brk addr =>
    simp only [callRequest] at h
    split_ifs at h with h0 h1 h2
    · simp [syscall,syscallBrk,h0]
    · simp [syscall,syscallBrk,h0,h1,h2]

theorem effects_without_request {kernel : List MappedRange} {sp : Space} {c : Call}
    (h : sp.callRequest c = none) (hc : ∀ addr length prot, c ≠ .mprotect addr length prot)
    (hc' : ∀ addr length advice, c ≠ .madvise addr length advice) :
    (sp.syscall kernel c).2 = [] := by
  cases c with
  | mmap addr length prot flags fd offset =>
    simp only [callRequest] at h
    split_ifs at h with h0
    · simp [syscall,syscallMmap,h0]
    cases hm : mmapRequest (sp.placeMmap addr (alignUp length pageSize) flags).2
      (alignUp length pageSize) prot flags offset fd with
    | error e => simp [syscall,syscallMmap,h0,hm]
    | ok q => simp [hm,Except.toOption] at h
  | munmap addr length =>
    simp only [callRequest] at h
    split_ifs at h with h0
    simp [syscall,syscallMunmap,h0]
  | mprotect addr length prot => exact absurd rfl (hc addr length prot)
  | madvise addr length advice => exact absurd rfl (hc' addr length advice)
  | brk addr =>
    simp only [callRequest] at h
    split_ifs at h with h0 h1 h2
    · simp [syscall,syscallBrk,h0]
    · simp [syscall,syscallBrk,h0,h1,h2]

end Space

end SabaOS.Mem
