import SabaOS.Lib.Chains
import SabaOS.Mem.Space

namespace SabaOS.Mem
open SabaOS.Klib SabaOS.Lib

inductive ListId where
  | freelist
  | range (pm id : Nat)
  | tables (pm : Nat)
  deriving DecidableEq, Repr

structure Region where
  basePfn : Nat
  numPages : Nat
  deriving DecidableEq, Repr

def Region.numPagesReserved (r : Region) : Nat := (32 + r.numPages * 32 + pageSize - 1) / pageSize

structure Page where
  free : Bool
  mappedAddr : Nat
  deriving DecidableEq, Repr

structure Pte where
  pfn : Nat
  flags : UInt64
  deriving DecidableEq, Repr

def Pte.zero : Pte := ⟨0,0⟩

def Pte.present (e : Pte) : Bool := e.flags &&& pagePresent ≠ 0

-- A page table of the half that every pagemap shares, by the part of the key that leads to it.
inductive KernelTable where
  | pml2 (index : Nat)
  | pml1 (index : Nat)
  deriving DecidableEq, Repr

def KernelTable.serves : KernelTable → Nat → Bool
  | .pml2 index, key => key / 2 ^ 18 = index
  | .pml1 index, key => key / 2 ^ 9 = index

structure VM where
  regions : List Region
  pages : Nat → Page
  chains : Chains ListId Nat
  mem : Nat → Nat → UInt8
  files : Nat → Nat → UInt8
  tables : Nat → List Nat
  ptes : Nat → Nat → Pte
  spaces : Nat → Option Space
  nextPm : Nat
  lent : Nat → List KernelTable
  lost : List KernelTable

def kernelPm : Nat := 0

def kernelBase : Nat := 0xFFFF800000000000

-- The 36 bits of a virtual address that walk the page tables; the keys from 2^35 on go through
-- pml4[256..511], which every pagemap shares with the kernel's.
def pageKey (virt : Nat) : Nat := virt / pageSize % 2 ^ 36

def half (pm key : Nat) : Nat := if key < 2 ^ 35 then pm else kernelPm

-- The region test of the source admits the frame at `end_phy`, whose `Page` would lie past the
-- array: the assertion after it fails there.
def findPage : List Region → Nat → Option (Option Nat)
  | [], _ => some none
  | region :: regions, pfn =>
      if pfn < region.basePfn ∨ pfn > region.basePfn + region.numPages then findPage regions pfn
      else if pfn - region.basePfn < region.numPagesReserved then some none
      else if pfn = region.basePfn + region.numPages then none
      else some (some pfn)

def directPfn (r : MappedRange) (pageVirt : Nat) : Nat := r.backing pageVirt / pageSize % 2 ^ 40

namespace VM

def setPage (vm : VM) (pfn : Nat) (page : Page) : VM :=
  { vm with pages := Function.update vm.pages pfn page }

def setSpace (vm : VM) (pm : Nat) (sp : Option Space) : VM :=
  { vm with spaces := Function.update vm.spaces pm sp }

def fill (vm : VM) (pfn : Nat) (bytes : Nat → UInt8) : VM :=
  { vm with mem := Function.update vm.mem pfn bytes }

def hasTable (vm : VM) (pm key : Nat) : Bool := key / 512 ∈ vm.tables (half pm key)

def entry (vm : VM) (pm key : Nat) : Pte :=
  if vm.hasTable pm key then vm.ptes (half pm key) key else Pte.zero

def setEntry (vm : VM) (pm key : Nat) (e : Pte) : VM :=
  let h := half pm key
  { vm with ptes := Function.update vm.ptes h (Function.update (vm.ptes h) key e) }

def allocPage (vm : VM) : Option (VM × Nat) :=
  match vm.chains.lists .freelist with
  | [] => none
  | pfn :: _ =>
      if (vm.pages pfn).free then
        some ({ vm.setPage pfn { vm.pages pfn with free := false } with
          chains := vm.chains.unlink pfn },pfn)
      else none

def freePage (vm : VM) (pfn : Nat) : Option VM :=
  if (vm.pages pfn).free then none
  else some { vm.setPage pfn ⟨true,0⟩ with chains := vm.chains.push .freelist pfn }

def freePages (vm : VM) : List Nat → Option VM
  | [] => some vm
  | pfn :: pfns => (vm.freePage pfn).bind fun vm => vm.freePages pfns

def adopt (vm : VM) (pm id pfn virt : Nat) : VM :=
  { vm.setPage pfn { vm.pages pfn with mappedAddr := virt } with
      chains := vm.chains.append (.range pm id) pfn }

def allocPageForPageTable (vm : VM) (pm : Nat) : Option VM :=
  vm.allocPage.map fun out =>
    { out.1 with chains := out.1.chains.append (.tables pm) out.2 }.fill out.2 fun _ => 0

def allocPageTables (vm : VM) (pm : Nat) : Nat → Option VM
  | 0 => some vm
  | n + 1 => (vm.allocPageForPageTable pm).bind fun vm => vm.allocPageTables pm n

-- A walk that creates what is missing always reaches the last level, so a directory exists
-- exactly when some last-level table lies below it (or the kernel's half, whose first level
-- is built at boot).
def missingTables (tables : List Nat) (key : Nat) : Nat :=
  (if key ≥ 2 ^ 35 ∨ key / 2 ^ 27 ∈ tables.map (· / 2 ^ 18) then 0 else 1) +
    (if key / 2 ^ 18 ∈ tables.map (· / 2 ^ 9) then 0 else 1) + 1

def newTables (tables : List Nat) (key : Nat) : List KernelTable :=
  (if key / 2 ^ 18 ∈ tables.map (· / 2 ^ 9) then [] else [.pml2 (key / 2 ^ 18)]) ++
    [.pml1 (key / 2 ^ 9)]

-- The frames of new tables go on the list of the pagemap that walks, also where the tables
-- are the kernel's.
def createTables (vm : VM) (pm key : Nat) : Option VM :=
  if vm.hasTable pm key then some vm
  else
    let h := half pm key
    (vm.allocPageTables pm (missingTables (vm.tables h) key)).map fun vm =>
      { vm with
        tables := Function.update vm.tables h (key / 512 :: vm.tables h)
        ptes := Function.update vm.ptes h fun k =>
          if k / 512 = key / 512 then Pte.zero else vm.ptes h k
        lent := if h = pm then vm.lent
          else Function.update vm.lent pm (newTables (vm.tables h) key ++ vm.lent pm) }

def removeLink (vm : VM) (pfn : Nat) : Option VM :=
  if vm.chains.link pfn = none then none
  else some { vm with chains := vm.chains.unlink pfn }

def detachPage (vm : VM) : Option Nat → Option VM
  | none => some vm
  | some pfn => if (vm.pages pfn).free then none else vm.removeLink pfn

def relinkPage (vm : VM) (pm virt : Nat) (range : MappedRange) (page : Option Nat) : Option VM :=
  if range.pageFlags &&& pagePresent = 0 then none
  else
    (page.elim vm.allocPage fun pfn => some (vm,pfn)).map fun out =>
      (out.1.adopt pm range.id out.2 virt).setEntry pm (pageKey virt) ⟨out.2,range.pageFlags⟩

def dropPage (vm : VM) (pm virt : Nat) (page : Option Nat) : Option VM :=
  let vm := vm.setEntry pm (pageKey virt) Pte.zero
  match page with
  | none => some vm
  | some pfn => vm.freePage pfn

def invalidatePage (vm : VM) (pm virt : Nat) (range : Option MappedRange) : Option VM :=
  if (vm.entry pm (pageKey virt)).present then
    (findPage vm.regions (vm.entry pm (pageKey virt)).pfn).bind fun page =>
      (vm.detachPage page).bind fun vm =>
        match range with
        | some range => vm.relinkPage pm virt range page
        | none => vm.dropPage pm virt page
  else some vm

def invalidateFrom (vm : VM) (pm : Nat) (range : Option MappedRange) (base : Nat) :
    Nat → Nat → Option VM
  | _, 0 => some vm
  | i, n + 1 =>
      (vm.invalidatePage pm (uadd base (i * pageSize)) range).bind fun vm =>
        vm.invalidateFrom pm range base (i + 1) n

def invalidatePages (vm : VM) (pm base length : Nat) (range : Option MappedRange) : Option VM :=
  vm.invalidateFrom pm range base 0 (alignUp length pageSize / pageSize)

def deleteRange (vm : VM) (pm id : Nat) : Option VM :=
  vm.freePages (vm.chains.lists (.range pm id))

def runEffect (vm : VM) (pm : Nat) : Effect → Option VM
  | .invalidatePages base length range => vm.invalidatePages pm base length range
  | .delete range => vm.deleteRange pm range.id

def runEffects (vm : VM) (pm : Nat) : List Effect → Option VM
  | [] => some vm
  | e :: effects => (vm.runEffect pm e).bind fun vm => vm.runEffects pm effects

def ranges (vm : VM) (pm : Nat) : List MappedRange := (vm.spaces pm).elim [] Space.rangeList

def outerRanges (vm : VM) (pm : Nat) : List MappedRange :=
  if pm = kernelPm then [] else vm.ranges kernelPm

def listOwner (pm : Nat) : Owner → Nat
  | .own => pm
  | .kernel => kernelPm

-- Nested faults deeper than the kernel stack holds end in a double fault.
def faultDepth : Nat := 64

def handlePageFault : Nat → VM → Nat → Nat → Option (VM × Option Nat)
  | 0, _, _, _ => none
  | depth + 1, vm, pm, virt =>
      let key := pageKey virt
      let pageVirt := alignDown virt pageSize
      (vm.createTables pm key).bind fun vm =>
        if (vm.entry pm key).present then some (vm,none)
        else
          match vm.spaces pm with
          | none => none
          | some sp =>
              let found := sp.addrToRange (vm.outerRanges pm) virt
              let vm := vm.setSpace pm (some found.1)
              match found.2 with
              | none => some (vm,none)
              | some (owner,range) =>
                  match range.type with
                  | .anonymous =>
                      vm.allocPage.map fun out =>
                        (((out.1.adopt (listOwner pm owner) range.id out.2 pageVirt).fill out.2
                          fun _ => 0).setEntry pm key ⟨out.2,range.pageFlags⟩,some out.2)
                  | .direct =>
                      let pfn := directPfn range pageVirt
                      some (vm.setEntry pm key ⟨pfn,range.pageFlags⟩,some pfn)
                  | .directVirtual =>
                      let map := pageKey (range.backing pageVirt)
                      (if vm.hasTable pm map then some vm
                        else (handlePageFault depth vm pm (range.backing pageVirt)).map
                          (·.1)).bind fun vm =>
                        if vm.hasTable pm map then
                          let pfn := (vm.entry pm map).pfn
                          some (vm.setEntry pm key ⟨pfn,range.pageFlags⟩,some pfn)
                        else some (vm,none)
                  | .file =>
                      vm.allocPage.map fun out =>
                        (((out.1.adopt (listOwner pm owner) range.id out.2 pageVirt).fill out.2
                          fun i => out.1.files (range.file.getD 0) (range.backing pageVirt + i)
                          ).setEntry pm key ⟨out.2,range.pageFlags⟩,some out.2)
                  | .none => some (vm,none)

def pageFault (vm : VM) (pm virt : Nat) : Option (VM × Option Nat) :=
  handlePageFault faultDepth vm (if virt ≥ kernelBase then kernelPm else pm) virt

def access (vm : VM) (pm virt : Nat) : Option (VM × Option Nat) :=
  let e := vm.entry pm (pageKey virt)
  if e.present then some (vm,some e.pfn) else vm.pageFault pm virt

def read (vm : VM) (pm virt : Nat) : Option (Option UInt8) :=
  (vm.access pm virt).map fun out => out.2.map fun pfn => out.1.mem pfn (virt % pageSize)

def write (vm : VM) (pm virt : Nat) (byte : UInt8) : Option VM :=
  (vm.access pm virt).map fun out =>
    match out.2 with
    | none => out.1
    | some pfn =>
        if (out.1.entry pm (pageKey virt)).flags &&& pageWritable = 0 then out.1
        else out.1.fill pfn (Function.update (out.1.mem pfn) (virt % pageSize) byte)

def syscall (vm : VM) (pm : Nat) (c : Call) : Option VM :=
  match vm.spaces pm with
  | none => none
  | some sp =>
      let out := sp.syscall (vm.outerRanges pm) c
      (vm.runEffects pm out.2).map fun vm => vm.setSpace pm (some out.1)

def newPagemap (vm : VM) (mmapAnonBase brk : Nat) : Option VM :=
  let pm := vm.nextPm
  let vm : VM := { vm with
    nextPm := pm + 1
    spaces := Function.update vm.spaces pm (some ⟨[],0,none,mmapAnonBase,brk⟩)
    tables := Function.update vm.tables pm []
    ptes := Function.update vm.ptes pm fun _ => Pte.zero
    lent := Function.update vm.lent pm [] }
  vm.allocPageForPageTable pm

def copyTables (vm : VM) (pm child : Nat) : Option VM :=
  let tables := vm.tables pm
  let count := (tables.map (· / 2 ^ 18)).dedup.length + (tables.map (· / 2 ^ 9)).dedup.length +
    tables.length
  (vm.allocPageTables child count).map fun vm =>
    { vm with
      tables := Function.update vm.tables child tables
      ptes := Function.update vm.ptes child fun k =>
        if (vm.ptes pm k).present then Pte.zero else vm.ptes pm k }

def copyPage (vm : VM) (child : Nat) (range : MappedRange) (old : Nat) : Option VM :=
  vm.allocPage.bind fun out =>
    let virt := (out.1.pages old).mappedAddr
    let vm := out.1.adopt child range.id out.2 virt
    (vm.createTables child (pageKey virt)).map fun vm =>
      (vm.setEntry child (pageKey virt) ⟨out.2,range.pageFlags⟩).fill out.2 (vm.mem old)

def copyPages (child : Nat) (range : MappedRange) : VM → List Nat → Option VM
  | vm, [] => some vm
  | vm, old :: pages => (vm.copyPage child range old).bind fun vm => copyPages child range vm pages

def forkRequest (r : MappedRange) : Request :=
  ⟨r.base,r.length,r.pageFlags,r.type,r.phyBase,r.file,r.fileOffset,false,false,false⟩

def forkRange (vm : VM) (pm child : Nat) (r : MappedRange) : Option VM :=
  match vm.spaces child with
  | none => none
  | some sp =>
      let out := sp.addRange (forkRequest r)
      match out.result with
      | none => none
      | some range =>
          let vm := vm.setSpace child (some out.space)
          if range.type = .anonymous ∨ range.type = .file then
            copyPages child range vm (vm.chains.lists (.range pm r.id))
          else some vm

def forkRanges (pm child : Nat) : VM → List MappedRange → Option VM
  | vm, [] => some vm
  | vm, r :: l => (vm.forkRange pm child r).bind fun vm => forkRanges pm child vm l

def fork (vm : VM) (pm : Nat) : Option (VM × Nat) :=
  match vm.spaces pm with
  | none => none
  | some sp =>
      let child := vm.nextPm
      (vm.newPagemap sp.mmapAnonBase sp.brk).bind fun vm =>
        (vm.copyTables pm child).bind fun vm =>
          (forkRanges pm child vm sp.rangeList).map fun vm => (vm,child)

def deleteRanges (vm : VM) (pm : Nat) : List MappedRange → Option VM
  | [] => some vm
  | r :: l => (vm.deleteRange pm r.id).bind fun vm => vm.deleteRanges pm l

def destroy (vm : VM) (pm : Nat) : Option VM :=
  match vm.spaces pm with
  | none => none
  | some sp =>
      (vm.deleteRanges pm sp.rangeList).bind fun vm =>
        (vm.freePages (vm.chains.lists (.tables pm))).map fun vm =>
          { vm.setSpace pm none with
            lent := Function.update vm.lent pm []
            lost := vm.lent pm ++ vm.lost }

def isLost (vm : VM) (key : Nat) : Bool := vm.lost.any (·.serves key)

-- A frame given back while the kernel's half still walks through it is handed out again: what
-- the kernel reads there from then on is whatever its new owner writes.
def reuse (vm : VM) (scrap : Nat → Option Pte) : VM :=
  { vm with
    tables := Function.update vm.tables kernelPm ((vm.tables kernelPm).filter fun t =>
      !vm.isLost (t * 512) || (scrap (t * 512)).isSome)
    ptes := Function.update vm.ptes kernelPm fun key =>
      if vm.isLost key then (scrap key).getD Pte.zero else vm.ptes kernelPm key }

end VM

end SabaOS.Mem
