import SabaOS.Klib.Memory
import SabaOS.Lib.LittleEndian
import SabaOS.Sched.Signal

namespace SabaOS.Elf

open SabaOS.Klib SabaOS.Lib SabaOS.Sched

-- What `read` puts into a buffer, from the number of bytes and the offset asked for.
structure File where
  read : UInt64 → UInt64 → List UInt8
  read_length : ∀ count offset, (read count offset).length ≤ count.toNat

def overlay (buf bytes : List UInt8) : List UInt8 := bytes ++ buf.drop bytes.length

def File.readInto (file : File) (buf : List UInt8) (offset : UInt64) : List UInt8 :=
  overlay buf (file.read buf.length.toUInt64 offset)

def field (buf : List UInt8) (offset size : Nat) : Nat := ofLe ((buf.drop offset).take size)

def enoexec : Int := 8

structure Header where
  identifier : List UInt8
  type : UInt16
  arch : UInt16
  entryAddr : UInt64
  phTableOffset : UInt64
  phEntrySize : UInt16
  phCount : UInt16
deriving DecidableEq, Repr

structure ProgramHeader where
  type : UInt32
  offset : UInt64
  virtAddr : UInt64
  fileSize : UInt64
  memSize : UInt64
deriving DecidableEq, Repr

structure Auxval where
  atEntry : UInt64 := 0
  atPhdr : UInt64 := 0
  atPhent : UInt64 := 0
  atPhnum : UInt64 := 0
deriving DecidableEq, Repr

def readHeader (file : File) : Header :=
  let buf := file.readInto (List.replicate 64 0) 0
  { identifier := buf.take 16
    type := (field buf 16 2).toUInt16
    arch := (field buf 18 2).toUInt16
    entryAddr := (field buf 24 8).toUInt64
    phTableOffset := (field buf 32 8).toUInt64
    phEntrySize := (field buf 54 2).toUInt16
    phCount := (field buf 56 2).toUInt16 }

def readProgramHeader (file : File) (offset : UInt64) : ProgramHeader :=
  let buf := file.readInto (List.replicate 56 0) offset
  { type := (field buf 0 4).toUInt32
    offset := (field buf 8 8).toUInt64
    virtAddr := (field buf 16 8).toUInt64
    fileSize := (field buf 32 8).toUInt64
    memSize := (field buf 40 8).toUInt64 }

def elfMagic : List UInt8 := [0x7f,0x45,0x4c,0x46]

def elfClass64 : UInt8 := 2

def elfData2Lsb : UInt8 := 1

def emX86_64 : UInt16 := 62

def elfOsabiSysv : UInt8 := 0

def elfOsabiGnu : UInt8 := 3

def etExec : UInt16 := 2

def ptLoad : UInt32 := 1

def ptInterp : UInt32 := 3

def ptPhdr : UInt32 := 6

def pageFlags : UInt64 := 7

def Header.accepted (header : Header) : Bool :=
  header.identifier.take 4 = elfMagic ∧
    header.identifier.getD 4 0 = elfClass64 ∧ header.identifier.getD 5 0 = elfData2Lsb ∧
    header.arch = emX86_64 ∧
    (header.identifier.getD 7 0 = elfOsabiSysv ∨ header.identifier.getD 7 0 = elfOsabiGnu)

-- A new pagemap: the calls of `map_anonymous` and the bytes of user memory.
structure Image where
  ranges : List (UInt64 × UInt64 × UInt64) := []
  bytes : Bytes := fun _ => 0

def Image.mapAnonymous (image : Image) (base length flags : UInt64) : Image :=
  { image with ranges := (base,length,flags) :: image.ranges }

structure Loading where
  image : Image
  firstFreeVirt : UInt64
  fileVirtBase : UInt64
  ldPath : Option (List UInt8)
  atPhdr : UInt64

def pageCount (size misalign : UInt64) : UInt64 := (size + misalign + 4096 - 1) / 4096

def loadPage (file : File) (ph : ProgramHeader) (base : UInt64) (i : UInt64)
    (l : Image × UInt64 × UInt64) : Image × UInt64 × UInt64 :=
  let (image,total,firstFree) := l
  let misalign := ph.virtAddr &&& 0xfff
  let filePageCount := pageCount ph.fileSize misalign
  let pageVirt := base + i * 4096
  let dst := alignDown64 base 4096 + i * 4096
  let cleared := memset image.bytes dst.toNat 0 4096
  let firstFree := if pageVirt ≥ firstFree then pageVirt + 4096 else firstFree
  if i < filePageCount then
    let offset := ph.offset + i * 4096
    let (dst,size,offset) :=
      if i = 0 then (dst + misalign,4096 - misalign,offset) else (dst,4096,offset - misalign)
    let size := if i = filePageCount - 1 then ph.fileSize - total else size
    ({ image with bytes := copyIn cleared dst.toNat (file.read size offset) },total + size,firstFree)
  else ({ image with bytes := cleared },total,firstFree)

def loadPages (file : File) (ph : ProgramHeader) (base : UInt64) (l : Image × UInt64 × UInt64) :
    Nat → Image × UInt64 × UInt64
  | 0 => l
  | n + 1 => loadPage file ph base n.toUInt64 (loadPages file ph base l n)

def loadSegment (file : File) (ph : ProgramHeader) (loadBase : UInt64) (l : Loading) :
    Option Loading :=
  let memPageCount := pageCount ph.memSize (ph.virtAddr &&& 0xfff)
  let base := loadBase + ph.virtAddr
  let image := l.image.mapAnonymous (alignDown64 base 4096) (memPageCount * 4096) pageFlags
  let (image,total,firstFree) :=
    loadPages file ph base (image,0,l.firstFreeVirt) memPageCount.toNat
  -- the loader's assertion
  if total = ph.fileSize then
    some { l with
      image := image, firstFreeVirt := firstFree, fileVirtBase := min l.fileVirtBase base }
  else none

def loadHeader (file : File) (heap : Nat → List UInt8) (ph : ProgramHeader) (loadBase : UInt64)
    (withLdPath : Bool) (l : Loading) : Option Loading :=
  if ph.type = ptLoad then loadSegment file ph loadBase l
  else if ph.type = ptPhdr then some { l with atPhdr := loadBase + ph.virtAddr }
  else if ph.type = ptInterp ∧ withLdPath then
    let path := overlay (heap (ph.fileSize.toNat + 1)) (file.read ph.fileSize ph.offset)
    some { l with ldPath := some path }
  else some l

def loadHeaders (file : File) (heap : Nat → List UInt8) (header : Header) (loadBase : UInt64)
    (withLdPath : Bool) (l : Loading) : Nat → Option Loading
  | 0 => some l
  | n + 1 => do
    let l ← loadHeaders file heap header loadBase withLdPath l n
    let offset := header.phTableOffset + n.toUInt64 * header.phEntrySize.toUInt64
    loadHeader file heap (readProgramHeader file offset) loadBase withLdPath l

structure Loaded where
  image : Image
  firstFreeVirt : UInt64
  ldPath : Option (List UInt8)
  auxv : Auxval

-- `heap` is what a new block of kernel memory holds, and `none` a failed assertion.
def load (file : File) (heap : Nat → List UInt8) (image : Image) (loadBase : UInt64)
    (withLdPath : Bool) (firstFreeVirt : UInt64) : Option (Except Int Loaded) := do
  let header := readHeader file
  if header.accepted then
    let loadBase := if header.type = etExec then 0 else loadBase
    let l ← loadHeaders file heap header loadBase withLdPath
      ⟨image,firstFreeVirt,~~~0,none,0⟩ header.phCount.toNat
    return .ok
      { image := l.image
        firstFreeVirt := alignUp64 l.firstFreeVirt 4096
        ldPath := l.ldPath
        auxv :=
          { atEntry := loadBase + header.entryAddr
            atPhdr := if l.atPhdr = 0 then l.fileVirtBase + header.phTableOffset else l.atPhdr
            atPhent := header.phEntrySize.toUInt64
            atPhnum := header.phCount.toUInt64 } }
  else
    return .error (-enoexec)

end SabaOS.Elf
