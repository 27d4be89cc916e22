import Mathlib.Data.List.GetD
import SabaOS.Fs.Tmpfs
import SabaOS.Fs.TmpfsRun
import SabaOS.Klib.Printf

namespace SabaOS.Fs.Procfs

open SabaOS.Klib SabaOS.Mem

def tempBufferSize : Nat := 1024

def argMax : Nat := 131072

-- What `print_contents` does: it prints characters, or has memory copied into the storage.
inductive Printed where
  | chars (text : List UInt8)
  | memory (count : Nat) (copied : List UInt8) (fits : 0 < count ∧ copied.length ≤ count)

namespace Printed

def text : Printed → List UInt8
  | chars text => text
  | memory _ copied _ => copied

def self (pid : Nat) : Printed := chars (printfD pid)

def threadSelf (pid tid : Nat) : Printed :=
  chars (printfD pid ++ "/task/".toUTF8.toList ++ printfD tid)

def area (accessMemory : Option (Nat → Nat → List UInt8)) (start stop : Nat) : Printed :=
  match accessMemory with
  | none => chars []
  | some accessMemory =>
    if h : stop ≤ start then chars []
    else if argMax < stop - start then chars []
    else memory (stop - start) ((accessMemory start (stop - start)).take (stop - start))
      ⟨by omega,List.length_take_le _ _⟩

end Printed

-- `grow_to` is word for word that of tmpfs.
structure InfoNode where
  file : Tmpfs.Node
  hasContents : Bool

structure Printing where
  file : Tmpfs.Node
  tempBuffer : List UInt8
  totalWritten : Nat

def writeContents (file : Tmpfs.Node) (buf : List UInt8) (offset : Nat) : Option Tmpfs.Node :=
  if buf.length = 0 then some file
  else do
    let file ← file.growPast (uadd offset buf.length)
    return file.setBytes (copyIn file.heap.bytes (file.data.storage + offset) buf)

namespace Printing

def flushTempBuffer (p : Printing) : Option Printing := do
  let file ← writeContents p.file p.tempBuffer p.totalWritten
  return ⟨file,[],p.totalWritten + p.tempBuffer.length⟩

def printChar (p : Printing) (c : UInt8) : Option Printing :=
  let p := { p with tempBuffer := p.tempBuffer ++ [c] }
  if p.tempBuffer.length = tempBufferSize then p.flushTempBuffer else some p

def printContents (p : Printing) : Printed → Option Printing
  | .chars text => text.foldlM printChar p
  | .memory count copied _ => do
    let file ← p.file.growTo count
    let file := file.setBytes (copyIn file.heap.bytes file.data.storage copied)
    return { p with file := file.setSize copied.length }

end Printing

namespace InfoNode

def generateContents (n : InfoNode) (printed : Printed) : Option InfoNode := do
  let p ← Printing.printContents ⟨n.file,[],0⟩ printed
  let p ← p.flushTempBuffer
  return { n with file := p.file }

def served (n : InfoNode) (count offset : Nat) : List UInt8 :=
  if n.file.data.size ≤ offset then []
  else
    let actualCount :=
      if n.file.data.size < uadd offset count then n.file.data.size - offset else count
    copyOut n.file.heap.bytes (n.file.data.storage + offset) actualCount

def read (n : InfoNode) (printed : Printed) (count offset : Nat) : Option (InfoNode × List UInt8) := do
  let n ← if ¬n.hasContents ∨ offset = 0 then
      (n.generateContents printed).map fun n => { n with hasContents := true }
    else some n
  return (n,n.served count offset)

end InfoNode

inductive Op where
  | read (printed : Printed) (count offset : Nat)
  | others

-- Any other use of the heap allocates, and writes what is not this node's storage.
inductive Step : InfoNode → Op → InfoNode → Prop
  | read {n n' : InfoNode} {printed : Printed} {count offset : Nat} {got : List UInt8} :
      n.read printed count offset = some (n',got) → Step n (.read printed count offset) n'
  | others {n : InfoNode} {heap : Bump} :
      heap.allocBase = n.file.heap.allocBase → n.file.heap.allocPtr ≤ heap.allocPtr →
      (∀ i < n.file.data.capacity,
        heap.bytes (n.file.data.storage + i) = n.file.heap.bytes (n.file.data.storage + i)) →
      Step n .others { n with file := { n.file with heap := heap } }

def fresh (nodeType : NodeType) (heap : Bump) : InfoNode := ⟨⟨nodeType,⟨0,0,0⟩,heap⟩,false⟩

open SabaOS.Klib SabaOS.Mem Tmpfs

structure Written (size : Nat) (text : List UInt8) (file : Tmpfs.Node) : Prop where
  owned : Owned file
  size : file.data.size = max size text.length
  bytes : ∀ i < text.length, file.heap.bytes (file.data.storage + i) = text.getD i 0

section WriteContents

variable {file file' : Tmpfs.Node} {buf text : List UInt8} {size : Nat}

theorem write_of_writeContents {offset : Nat} (hn : Owned file)
    (h : writeContents file buf offset = some file') :
    file.write buf offset = some (file',.ok buf.length) := by
  rw [writeContents] at h
  rw [Tmpfs.Node.write,if_neg hn.regular]
  split_ifs at h ⊢ with hb
  · rw [← Option.some.inj h,hb]
  · obtain ⟨f,hf,h⟩ := Option.bind_eq_some_iff.mp h
    rw [hf]
    cases h
    rfl

theorem Written.lt (h : Written size text file) (hb : buf.length ≤ tempBufferSize) :
    text.length + buf.length < 2 ^ 64 := by
  have hle := h.owned.size_le.trans h.owned.shape.le
  have hsize := h.size
  simp only [tempBufferSize] at hb
  omega

theorem Written.append (h : Written size text file) (hb : buf.length ≤ tempBufferSize)
    (hw : writeContents file buf text.length = some file') : Written size (text ++ buf) file' := by
  rcases eq_or_ne buf [] with rfl | hne
  · cases hw
    rwa [List.append_nil]
  · obtain ⟨howned,hsize,hbytes⟩ :=
      Tmpfs.Node.write_spec h.owned hne (h.lt hb) (write_of_writeContents h.owned hw)
    refine ⟨howned,by rw [hsize,h.size,List.length_append,Nat.max_assoc,
      Nat.max_eq_right (Nat.le_add_right text.length buf.length)],?_⟩
    intro i hi
    rw [List.length_append] at hi
    rw [hbytes i (by omega)]
    by_cases htext : text.length ≤ i
    · rw [if_pos ⟨htext,hi⟩,List.getD_append_right _ _ _ _ htext]
    · rw [if_neg (by omega),List.getD_append _ _ _ _ (by omega),
        Tmpfs.Node.exposed_kept h.owned (by rw [h.size]; omega),h.bytes i (by omega)]

theorem Written.isSome (h : Written size text file) (hb : buf.length ≤ tempBufferSize)
    (hle : text.length + buf.length ≤ size) : (writeContents file buf text.length).isSome := by
  have hsize := h.size
  have hfits : ¬file.data.size < text.length + buf.length := by omega
  rw [writeContents,uadd_of_lt (h.lt hb),Tmpfs.Node.growPast]
  split_ifs <;> rfl

end WriteContents

structure Prints (size : Nat) (text : List UInt8) (p : Printing) : Prop where
  split : ∃ flushed, text = flushed ++ p.tempBuffer ∧ p.totalWritten = flushed.length ∧
    Written size flushed p.file
  room : p.tempBuffer.length < tempBufferSize

section Printing

variable {p p' : Printing} {text : List UInt8} {size : Nat} {c : UInt8}

theorem flush_spec {p : Printing} {flushed : List UInt8} (hw : Written size flushed p.file)
    (htotal : p.totalWritten = flushed.length) (hb : p.tempBuffer.length ≤ tempBufferSize)
    (h : p.flushTempBuffer = some p') :
    Prints size (flushed ++ p.tempBuffer) p' ∧ Written size (flushed ++ p.tempBuffer) p'.file := by
  obtain ⟨file,hf,h⟩ := Option.bind_eq_some_iff.mp h
  cases h
  rw [htotal] at hf
  have happ := hw.append hb hf
  refine ⟨⟨⟨flushed ++ p.tempBuffer,?_,?_,happ⟩,Nat.zero_lt_succ 1023⟩,happ⟩
  · rw [List.append_nil]
  · rw [htotal,List.length_append]

theorem flush_isSome {flushed : List UInt8} (hw : Written size flushed p.file)
    (htotal : p.totalWritten = flushed.length) (hb : p.tempBuffer.length ≤ tempBufferSize)
    (hle : flushed.length + p.tempBuffer.length ≤ size) : p.flushTempBuffer.isSome := by
  obtain ⟨file,hf⟩ := Option.isSome_iff_exists.mp (hw.isSome hb hle)
  rw [Printing.flushTempBuffer,htotal,hf]
  rfl

theorem Prints.printChar (h : Prints size text p) (hp : p.printChar c = some p') :
    Prints size (text ++ [c]) p' := by
  obtain ⟨⟨flushed,rfl,htotal,hw⟩,hroom⟩ := h
  rw [List.append_assoc]
  have hlen : (p.tempBuffer ++ [c]).length = p.tempBuffer.length + 1 := by simp
  rw [Printing.printChar] at hp
  split_ifs at hp with hfull
  · exact (flush_spec (p := ⟨p.file,p.tempBuffer ++ [c],p.totalWritten⟩) hw htotal
      (by rw [hlen]; omega) hp).1
  · cases hp
    refine ⟨⟨flushed,rfl,htotal,hw⟩,?_⟩
    dsimp only at hfull ⊢
    omega

theorem Prints.printChar_isSome (h : Prints size text p) (hle : text.length < size) :
    (p.printChar c).isSome := by
  obtain ⟨⟨flushed,rfl,htotal,hw⟩,hroom⟩ := h
  rw [List.length_append] at hle
  have hlen : (p.tempBuffer ++ [c]).length = p.tempBuffer.length + 1 := by simp
  rw [Printing.printChar]
  split_ifs
  · exact flush_isSome (p := ⟨p.file,p.tempBuffer ++ [c],p.totalWritten⟩) hw htotal (by rw [hlen]; omega) (by rw [hlen]; omega)
  · rfl

theorem Prints.foldlM (h : Prints size text p) {cs : List UInt8}
    (hp : cs.foldlM Printing.printChar p = some p') : Prints size (text ++ cs) p' := by
  induction cs generalizing p text with
  | nil =>
    cases hp
    rwa [List.append_nil]
  | cons c cs ih =>
    rw [List.foldlM_cons] at hp
    obtain ⟨q,hq,hp⟩ := Option.bind_eq_some_iff.mp hp
    rw [List.append_cons]
    exact ih (h.printChar hq) hp

theorem Prints.foldlM_isSome (h : Prints size text p) (cs : List UInt8)
    (hle : text.length + cs.length ≤ size) : (cs.foldlM Printing.printChar p).isSome := by
  induction cs generalizing p text with
  | nil => rfl
  | cons c cs ih =>
    rw [List.length_cons] at hle
    obtain ⟨q,hq⟩ := Option.isSome_iff_exists.mp (h.printChar_isSome (c := c) (by omega))
    rw [List.foldlM_cons,hq]
    apply ih (h.printChar hq)
    rw [List.length_append,List.length_singleton]
    omega

theorem Prints.start {file : Tmpfs.Node} (hn : Owned file) :
    Prints file.data.size [] ⟨file,[],0⟩ :=
  ⟨⟨[],rfl,rfl,hn,(Nat.max_eq_left (Nat.zero_le _)).symm,fun i hi => by simp at hi⟩,Nat.zero_lt_succ 1023⟩

end Printing

structure Holds (n : InfoNode) (text : List UInt8) : Prop where
  owned : Owned n.file
  size : n.file.data.size = text.length
  bytes : ∀ i < text.length, n.file.heap.bytes (n.file.data.storage + i) = text.getD i 0

def Safe (n : InfoNode) : Printed → Prop
  | .chars text => n.file.data.size ≤ text.length
  | .memory _ _ _ => True

section Generate

variable {n n' : InfoNode} {printed : Printed} {text : List UInt8}

theorem generate_chars (hn : Owned n.file) (h : n.generateContents (.chars text) = some n') :
    Written n.file.data.size text n'.file := by
  obtain ⟨p,hp,h⟩ := Option.bind_eq_some_iff.mp h
  obtain ⟨q,hq,h⟩ := Option.bind_eq_some_iff.mp h
  cases h
  obtain ⟨⟨flushed,htext,htotal,hw⟩,hroom⟩ := (Prints.start hn).foldlM hp
  rw [List.nil_append] at htext
  rw [htext]
  exact (flush_spec hw htotal hroom.le hq).2

theorem generate_isSome (hn : Owned n.file) (hle : text.length ≤ n.file.data.size) :
    (n.generateContents (.chars text)).isSome := by
  have hstart := Prints.start hn
  obtain ⟨p,hp⟩ := Option.isSome_iff_exists.mp
    (hstart.foldlM_isSome text (by simpa using hle))
  obtain ⟨⟨flushed,htext,htotal,hw⟩,hroom⟩ := hstart.foldlM hp
  rw [List.nil_append] at htext
  obtain ⟨q,hq⟩ := Option.isSome_iff_exists.mp
    (flush_isSome hw htotal hroom.le (by rw [← List.length_append,← htext]; exact hle))
  rw [InfoNode.generateContents,Printing.printContents,hp,Option.bind_eq_bind,Option.bind_some,hq]
  rfl

theorem generate_memory {count : Nat} {fits : 0 < count ∧ text.length ≤ count} (hn : Owned n.file)
    (h : n.generateContents (.memory count text fits) = some n') : Holds n' text := by
  obtain ⟨p,hp,h⟩ := Option.bind_eq_some_iff.mp h
  obtain ⟨q,hq,h⟩ := Option.bind_eq_some_iff.mp h
  cases h
  obtain ⟨file,hf,hp⟩ := Option.bind_eq_some_iff.mp hp
  cases hp
  cases hq
  obtain ⟨howned,hsize,-⟩ := Tmpfs.Node.growTo_spec hn fits.1 hf
  have hcap : text.length ≤ file.data.capacity := fits.2.trans (hsize.symm.trans_le howned.size_le)
  refine ⟨{ howned with size_le := hcap },rfl,?_⟩
  intro i hi
  have hcopy : copyIn file.heap.bytes (file.data.storage + 0) text (file.data.storage + i) = _ :=
    copyIn_add 0
  rw [if_pos ⟨Nat.zero_le i,by omega⟩] at hcopy
  exact hcopy

theorem generate_owned (hn : Owned n.file) (h : n.generateContents printed = some n') :
    Owned n'.file := by
  cases printed with
  | chars text => exact (generate_chars hn h).owned
  | memory count copied fits => exact (generate_memory hn h).owned

theorem generate_holds (printed : Printed) (hn : Owned n.file) (hsafe : Safe n printed)
    (h : n.generateContents printed = some n') : Holds n' printed.text := by
  cases printed with
  | chars text =>
    have hw := generate_chars hn h
    exact ⟨hw.owned,hw.size.trans (Nat.max_eq_right hsafe),hw.bytes⟩
  | memory count copied fits => exact generate_memory hn h

end Generate

theorem read_start {n n' : InfoNode} {printed : Printed} {count : Nat} {got : List UInt8} :
    n.read printed count 0 = some (n',got) ↔ ∃ n₁, n.generateContents printed = some n₁ ∧
      n' = { n₁ with hasContents := true } ∧ got = n'.served count 0 := by
  rw [InfoNode.read,if_pos (.inr rfl)]
  cases n.generateContents printed with
  | none => simp
  | some n₁ =>
    simp only [Option.map_some,Option.bind_eq_bind,Option.bind_some,Option.pure_def,
      Option.some.injEq,Prod.mk.injEq]
    constructor
    · rintro ⟨rfl,rfl⟩
      exact ⟨n₁,rfl,rfl,rfl⟩
    · rintro ⟨_,rfl,rfl,rfl⟩
      exact ⟨rfl,rfl⟩

theorem read_later {n n' : InfoNode} {printed : Printed} {count offset : Nat} {got : List UInt8}
    (hc : n.hasContents) (h0 : offset ≠ 0) :
    n.read printed count offset = some (n',got) ↔ n' = n ∧ got = n.served count offset := by
  rw [InfoNode.read,if_neg (by simp [hc,h0])]
  simp only [Option.bind_eq_bind,Option.bind_some,Option.pure_def,Option.some.injEq,Prod.mk.injEq]
  constructor
  · rintro ⟨rfl,rfl⟩
    exact ⟨rfl,rfl⟩
  · rintro ⟨rfl,rfl⟩
    exact ⟨rfl,rfl⟩

namespace Holds

variable {n : InfoNode} {text : List UInt8} {count offset : Nat}

theorem lt (h : Holds n text) : text.length ≤ 2 ^ 62 :=
  (h.size.symm.trans_le h.owned.size_le).trans h.owned.shape.le

theorem copyOut_eq (h : Holds n text) (hle : offset + count ≤ text.length) :
    copyOut n.file.heap.bytes (n.file.data.storage + offset) count = (text.drop offset).take count := by
  apply List.ext_getElem
  · rw [copyOut,List.length_map,List.length_range,List.length_take,List.length_drop]
    omega
  · intro i hi hi'
    rw [copyOut,List.length_map,List.length_range] at hi
    simp only [copyOut,List.getElem_map,List.getElem_range,List.getElem_take,List.getElem_drop]
    rw [Nat.add_assoc,h.bytes (offset + i) (by omega),List.getD_eq_getElem]

theorem served_eq (h : Holds n text) (hfits : offset < text.length → offset + count < 2 ^ 64) :
    n.served count offset = (text.drop offset).take count := by
  rw [InfoNode.served,h.size]
  rcases Nat.lt_or_ge offset text.length with hoff | hend
  · rw [if_neg (Nat.not_le_of_lt hoff)]
    simp only [uadd_of_lt (hfits hoff)]
    split_ifs with hcut
    · rw [h.copyOut_eq (by omega),List.take_eq_take_iff,List.length_drop]
      omega
    · exact h.copyOut_eq (Nat.le_of_not_lt hcut)
  · rw [if_pos hend,List.drop_eq_nil_of_le hend,List.take_nil]

theorem served_wrapped (h : Holds n text) (hoff : offset < text.length) (hc : count < 2 ^ 64)
    (hwrap : 2 ^ 64 ≤ offset + count) : (n.served count offset).length = count := by
  have hlt := h.lt
  have hsum : ¬text.length < uadd offset count := by
    rw [uadd]
    omega
  rw [InfoNode.served,h.size,if_neg (Nat.not_le_of_lt hoff)]
  simp only [if_neg hsum,copyOut,List.length_map,List.length_range]

end Holds

structure Chunk where
  count : Nat
  got : List UInt8
deriving DecidableEq, Repr

def gathered (chunks : List Chunk) : List UInt8 := (chunks.map (·.got)).flatten

inductive Continues : InfoNode → Nat → List Chunk → Prop
  | nil {n : InfoNode} {pos : Nat} : Continues n pos []
  | mine {n n' : InfoNode} {pos count : Nat} {printed : Printed} {got : List UInt8}
      {chunks : List Chunk} : pos ≠ 0 → 0 < count → count < 2 ^ 64 →
      n.read printed count pos = some (n',got) → Continues n' (pos + got.length) chunks →
      Continues n pos (⟨count,got⟩ :: chunks)
  | other {n n' : InfoNode} {pos : Nat} {op : Op} {chunks : List Chunk} : Step n op n' →
      (∀ printed count, op ≠ .read printed count 0) → Continues n' pos chunks →
      Continues n pos chunks

inductive Session (n : InfoNode) (printed : Printed) : List Chunk → Prop
  | start {n' : InfoNode} {count : Nat} {got : List UInt8} {chunks : List Chunk} : 0 < count →
      count < 2 ^ 64 → n.read printed count 0 = some (n',got) → Continues n' got.length chunks →
      Session n printed (⟨count,got⟩ :: chunks)

structure Exact (text : List UInt8) (chunks : List Chunk) : Prop where
  pre : gathered chunks <+: text
  done : ∀ before chunk after, chunks = before ++ chunk :: after →
    (chunk.got = [] ↔ gathered before = text)

def Fits (text : List UInt8) : Nat → List Chunk → Prop
  | _,[] => True
  | pos,chunk :: chunks => (pos < text.length → pos + chunk.count < 2 ^ 64) ∧
      Fits text (pos + chunk.got.length) chunks

def Served (text : List UInt8) : Nat → List Chunk → Prop
  | _,[] => True
  | pos,chunk :: chunks => 0 < chunk.count ∧ chunk.got = (text.drop pos).take chunk.count ∧
      Served text (pos + chunk.got.length) chunks

section Sessions

variable {n n' : InfoNode} {printed : Printed} {text : List UInt8} {pos : Nat} {chunks : List Chunk}
  {op : Op}

theorem gathered_cons (chunk : Chunk) (chunks : List Chunk) :
    gathered (chunk :: chunks) = chunk.got ++ gathered chunks := rfl

theorem take_append_rest (text : List UInt8) (pos count : Nat) :
    (text.drop pos).take count ++ text.drop (pos + ((text.drop pos).take count).length) =
      text.drop pos := by
  rw [← List.drop_drop,List.length_take]
  nth_rewrite 1 [List.take_eq_take_min]
  exact List.take_append_drop _ _

theorem Served.exact (h : Served text pos chunks) : Exact (text.drop pos) chunks := by
  induction chunks generalizing pos with
  | nil => exact ⟨List.nil_prefix,fun before chunk after h => by simp at h⟩
  | cons chunk chunks ih =>
    obtain ⟨hpos,hgot,hrest⟩ := h
    have hsplit : chunk.got ++ text.drop (pos + chunk.got.length) = text.drop pos := by
      rw [hgot]
      exact take_append_rest text pos chunk.count
    have hih := ih hrest
    rw [← hsplit]
    refine ⟨?_,?_⟩
    · rw [gathered_cons]
      exact (List.prefix_append_right_inj _).mpr hih.pre
    · intro before c after hc
      cases before with
      | nil =>
        obtain ⟨rfl,-⟩ := List.cons.inj hc
        rw [hsplit,hgot,List.take_eq_nil_iff]
        constructor
        · exact fun h => (h.resolve_left (by omega)).symm
        · exact fun h => .inr h.symm
      | cons first before =>
        obtain ⟨rfl,hrest'⟩ := List.cons.inj hc
        rw [gathered_cons,List.append_cancel_left_eq]
        exact hih.done before c after hrest'

theorem Holds.step (h : Holds n text) (hc : n.hasContents) (hstep : Step n op n')
    (hop : ∀ printed count, op ≠ .read printed count 0) : Holds n' text ∧ n'.hasContents := by
  cases hstep with
  | @read _ printed count offset got hread =>
    have h0 : offset ≠ 0 := by
      rintro rfl
      exact hop printed count rfl
    obtain ⟨rfl,-⟩ := (read_later hc h0).mp hread
    exact ⟨h,hc⟩
  | others hbase hptr hbytes =>
    refine ⟨⟨?_,h.size,?_⟩,hc⟩
    · exact (Tmpfs.others_contents h.owned hbase hptr hbytes).1
    · intro i hi
      exact (hbytes i (hi.trans_le (h.size.symm.trans_le h.owned.size_le))).trans (h.bytes i hi)

theorem Continues.served (hcont : Continues n pos chunks) (h : Holds n text) (hc : n.hasContents)
    (hfits : Fits text pos chunks) : Served text pos chunks := by
  induction hcont with
  | nil => trivial
  | @mine n n' pos count printed got chunks hpos hcount hlt hread hrest ih =>
    obtain ⟨rfl,rfl⟩ := (read_later hc hpos).mp hread
    exact ⟨hcount,h.served_eq hfits.1,ih h hc hfits.2⟩
  | other hstep hop hrest ih =>
    obtain ⟨h',hc'⟩ := h.step hc hstep hop
    exact ih h' hc' hfits

theorem Continues.fits (hcont : Continues n pos chunks) (h : Holds n text) (hc : n.hasContents)
    (hpre : gathered chunks <+: text.drop pos) : Fits text pos chunks := by
  induction hcont with
  | nil => trivial
  | @mine n n' pos count printed got chunks hpos hcount hlt hread hrest ih =>
    obtain ⟨rfl,rfl⟩ := (read_later hc hpos).mp hread
    have hfits : pos < text.length → pos + count < 2 ^ 64 := by
      intro hoff
      by_contra hwrap
      have hlen := hpre.length_le
      rw [gathered_cons,List.length_append,h.served_wrapped hoff hlt (Nat.le_of_not_lt hwrap),
        List.length_drop] at hlen
      have := h.lt
      omega
    refine ⟨hfits,ih h hc ?_⟩
    rw [gathered_cons,h.served_eq hfits] at hpre
    rw [h.served_eq hfits]
    apply (List.prefix_append_right_inj ((text.drop pos).take count)).mp
    rw [take_append_rest]
    exact hpre
  | other hstep hop hrest ih =>
    obtain ⟨h',hc'⟩ := h.step hc hstep hop
    exact ih h' hc' hpre

theorem Session.served (hs : Session n printed chunks) (hn : Owned n.file) (hsafe : Safe n printed)
    (hfits : Fits printed.text 0 chunks) : Served printed.text 0 chunks := by
  obtain ⟨hcount,hlt,hread,hcont⟩ := hs
  obtain ⟨n₁,hgen,rfl,rfl⟩ := read_start.mp hread
  have hg := generate_holds _ hn hsafe hgen
  have hholds : Holds { n₁ with hasContents := true } printed.text := ⟨hg.owned,hg.size,hg.bytes⟩
  refine ⟨hcount,hholds.served_eq hfits.1,?_⟩
  have hrest := hfits.2
  rw [Nat.zero_add] at hrest ⊢
  exact hcont.served hholds rfl hrest

theorem Session.fits (hs : Session n printed chunks) (hn : Owned n.file) (hsafe : Safe n printed)
    (hpre : gathered chunks <+: printed.text) : Fits printed.text 0 chunks := by
  cases hs with | @start _ count _ _ hcount hlt hread hcont =>
  obtain ⟨n₁,hgen,rfl,rfl⟩ := read_start.mp hread
  have hg := generate_holds _ hn hsafe hgen
  have hholds : Holds { n₁ with hasContents := true } printed.text := ⟨hg.owned,hg.size,hg.bytes⟩
  refine ⟨fun _ => (Nat.zero_add _).trans_lt hlt,?_⟩
  have hfirst := hholds.served_eq fun _ => (Nat.zero_add count).trans_lt hlt
  rw [Nat.zero_add]
  apply hcont.fits hholds rfl
  rw [gathered_cons,hfirst] at hpre
  rw [hfirst]
  apply (List.prefix_append_right_inj ((printed.text.drop 0).take count)).mp
  rw [← Nat.zero_add ((printed.text.drop 0).take count).length,take_append_rest]
  exact hpre

theorem unsafe_read (hn : Owned n.file) (hshort : text.length < n.file.data.size) {count : Nat}
    (hcount : text.length < count) (hlt : count < 2 ^ 64) : ∃ n' got,
      n.read (.chars text) count 0 = some (n',got) ∧ text.length < got.length := by
  obtain ⟨n₁,hgen⟩ := Option.isSome_iff_exists.mp (generate_isSome hn hshort.le)
  have hw := generate_chars hn hgen
  refine ⟨_,_,read_start.mpr ⟨n₁,hgen,rfl,rfl⟩,?_⟩
  have hsize : n₁.file.data.size = n.file.data.size := hw.size.trans (Nat.max_eq_left hshort.le)
  rw [InfoNode.served,uadd,Nat.zero_add,Nat.mod_eq_of_lt hlt]
  dsimp only
  rw [hsize,if_neg (by omega)]
  simp only [copyOut,List.length_map,List.length_range]
  split_ifs <;> omega

end Sessions

theorem fresh_owned {nodeType : NodeType} {heap : Bump} (hd : nodeType ≠ .directory) :
    Owned (fresh nodeType heap).file :=
  { Tmpfs.fresh_owned heap with regular := hd }

theorem step_owned {n n' : InfoNode} {op : Op} (hn : Owned n.file) (hstep : Step n op n') :
    Owned n'.file := by
  cases hstep with
  | @read _ printed count offset got hread =>
    rw [InfoNode.read] at hread
    split_ifs at hread
    · obtain ⟨n₁,h₁,hread⟩ := Option.bind_eq_some_iff.mp hread
      obtain ⟨n₂,hgen,rfl⟩ := Option.map_eq_some_iff.mp h₁
      cases hread
      have hown : Owned n₂.file := generate_owned hn hgen
      exact hown
    · cases hread
      exact hn
  | others hbase hptr hbytes => exact (Tmpfs.others_contents hn hbase hptr hbytes).1

theorem runs_owned {n n' : InfoNode} {ops : List Op} (hn : Owned n.file)
    (hrun : Lib.Runs Step n ops n') : Owned n'.file := by
  induction ops generalizing n with
  | nil =>
    cases hrun
    exact hn
  | cons op ops ih =>
    obtain ⟨u,hu,hrun⟩ := hrun
    exact ih (step_owned hn hu) hrun

theorem exact_iff_safe {n : InfoNode} (hn : Owned n.file) (printed : Printed) :
    (∀ chunks, Session n printed chunks → Fits printed.text 0 chunks → Exact printed.text chunks) ↔
      Safe n printed := by
  constructor
  · intro h
    cases printed with
    | memory count copied fits => trivial
    | chars text =>
      by_contra hshort
      rw [Safe,Nat.not_le] at hshort
      have hle := hn.size_le.trans hn.shape.le
      obtain ⟨n',got,hread,hlen⟩ := unsafe_read hn hshort (Nat.lt_succ_self _) (by omega)
      have hexact := h [⟨text.length + 1,got⟩]
        (.start (Nat.succ_pos _) (by omega) hread .nil) ⟨fun _ => by dsimp only; omega,trivial⟩
      have hpre := hexact.pre.length_le
      rw [gathered_cons,List.length_append] at hpre
      exact absurd (Nat.le_of_add_right_le hpre) (Nat.not_le_of_lt hlen)
  · intro hsafe chunks hs hfits
    have hexact := (hs.served hn hsafe hfits).exact
    rwa [List.drop_zero] at hexact

theorem self_iff {n : InfoNode} (hn : Owned n.file) {pid count : Nat}
    (hcount : (decimal pid).length < count) (hlt : count < 2 ^ 64) :
    (∀ n' got, n.read (.self pid) count 0 = some (n',got) → got = decimal pid) ↔
      n.file.data.size ≤ (decimal pid).length := by
  have hself : Printed.self pid = .chars (decimal pid) := congrArg Printed.chars (printfD_natCast pid)
  rw [hself]
  constructor
  · intro h
    by_contra hshort
    obtain ⟨n',got,hread,hlen⟩ := unsafe_read hn (Nat.lt_of_not_le hshort) hcount hlt
    rw [h n' got hread] at hlen
    exact absurd hlen (Nat.lt_irrefl _)
  · intro hsafe n' got hread
    obtain ⟨n₁,hgen,rfl,rfl⟩ := read_start.mp hread
    have hg : Holds n₁ (decimal pid) :=
      generate_holds (.chars (decimal pid)) hn hsafe hgen
    have hholds : Holds { n₁ with hasContents := true } (decimal pid) := ⟨hg.owned,hg.size,hg.bytes⟩
    rw [hholds.served_eq fun _ => (Nat.zero_add _).trans_lt hlt,List.drop_zero]
    exact List.take_of_length_le hcount.le

theorem info_node_reads {nodeType : NodeType} {heap : Bump} {ops : List Op} {n : InfoNode}
    (hd : nodeType ≠ .directory) (hrun : Lib.Runs Step (fresh nodeType heap) ops n)
    (printed : Printed) :
    ((∀ chunks, Session n printed chunks → Fits printed.text 0 chunks → Exact printed.text chunks) ↔
        Safe n printed) ∧
      (Safe n printed → ∀ chunks, Session n printed chunks → Exact printed.text chunks →
        Fits printed.text 0 chunks) ∧
      ∀ pid count, (decimal pid).length < count → count < 2 ^ 64 →
        ((∀ n' got, n.read (.self pid) count 0 = some (n',got) → got = decimal pid) ↔
          n.file.data.size ≤ (decimal pid).length) := by
  have hn := runs_owned (fresh_owned hd) hrun
  refine ⟨exact_iff_safe hn printed,?_,fun pid count hcount hlt => self_iff hn hcount hlt⟩
  intro hsafe chunks hs hexact
  exact hs.fits hn hsafe hexact.pre

def selfNode : InfoNode := fresh .symlink Tmpfs.zeroHeap

def followed : InfoNode × List UInt8 := (selfNode.read (.chars [49,48]) 128 0).get (by decide +kernel)

theorem followed_runs : Lib.Runs Step selfNode [.read (.self 10) 128 0] followed.1 := by
  have hself : Printed.self 10 = .chars [49,48] := congrArg Printed.chars (printfD_natCast 10)
  rw [hself]
  exact ⟨followed.1,.read (Option.some_get (by decide +kernel)).symm,rfl⟩

theorem info_node_reads_self :
    (NodeType.symlink ≠ .directory ∧ Lib.Runs Step selfNode [.read (.self 10) 128 0] followed.1) ∧
      ((∀ chunks, Session followed.1 (.self 11) chunks → Fits (Printed.self 11).text 0 chunks →
        Exact (Printed.self 11).text chunks) ↔ Safe followed.1 (.self 11)) :=
  ⟨⟨by decide,followed_runs⟩,(info_node_reads (by decide) followed_runs (.self 11)).1⟩

def followedAgain : InfoNode × List UInt8 :=
  (followed.1.read (.chars [50]) 128 0).get (by decide +kernel)

theorem self_names_other : followed.1.read (.self 2) 128 0 = some followedAgain ∧
    followedAgain.2 = decimal 20 ∧ followedAgain.2 ≠ decimal 2 := by
  have hself : Printed.self 2 = .chars [50] := congrArg Printed.chars (printfD_natCast 2)
  have hgot : followedAgain.2 = decimal 20 := by decide +kernel
  rw [hself]
  exact ⟨(Option.some_get (by decide +kernel)).symm,hgot,by rw [hgot]; decide⟩

end SabaOS.Fs.Procfs
