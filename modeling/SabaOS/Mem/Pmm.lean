import Mathlib.Logic.Relation
import SabaOS.Klib.Word
import SabaOS.Lib.Ring

namespace SabaOS.Pmm

open SabaOS.Klib SabaOS.Lib

def pageSize : Nat := 4096

structure MemmapEntry where
  base : Nat
  length : Nat
  usable : Bool
deriving DecidableEq, Repr

structure Region where
  pfnStart : Nat
  numPages : Nat
deriving DecidableEq, Repr

namespace Region

-- `sizeof(Region)` and `sizeof(Page)` are both 32.
def numPagesReserved (r : Region) : Nat := (32 + r.numPages * 32 + pageSize - 1) / pageSize

def numPagesUsable (r : Region) : Nat := usub r.numPages r.numPagesReserved

def basePhy (r : Region) : Nat := r.pfnStart * pageSize

def endPhy (r : Region) : Nat := r.basePhy + r.numPages * pageSize

end Region

structure Page where
  free : Bool
  pfn : Nat
  mappedAddr : Nat
deriving DecidableEq, Repr

abbrev PageRef := Nat × Nat

structure State where
  regions : List Region
  pages : PageRef → Page
  links : Links (Option PageRef)
  totalFreePages : Nat
  totalPagesReserved : Nat

namespace State

def setPage (s : State) (p : PageRef) (page : Page) : State :=
  { s with pages := Function.update s.pages p page }

def setLinks (s : State) (links : Links (Option PageRef)) : State := { s with links := links }

def absorbPages (s : State) (index pfn : Nat) : Nat → Option State
  | 0 => some s
  | i + 1 => do
    let s ← absorbPages s index pfn i
    let s := s.setPage (index,i) { s.pages (index,i) with free := true, pfn := pfn + i }
    let links ← s.links.addBefore none (some (index,i))
    return { s.setLinks links with totalFreePages := s.totalFreePages + 1 }

def entryRegion (entry : MemmapEntry) : Region :=
  let pfnStart := entry.base / pageSize
  let pfnEnd := entry.base / pageSize + entry.length / pageSize
  let pfnStart := if entry.base % pageSize ≠ 0 then pfnStart + 1 else pfnStart
  let pfnEnd := if entry.length % pageSize ≠ 0 then usub pfnEnd 1 else pfnEnd
  ⟨pfnStart,usub pfnEnd pfnStart⟩

-- With fewer pages than its own structs need, a region counts about 2^64 usable pages, and the loop
-- over them leaves the mapped memory.
def absorbMemmapEntry (s : State) (entry : MemmapEntry) : Option State :=
  let region := entryRegion entry
  let index := s.regions.length
  let s := { s with
    regions := s.regions ++ [region]
    totalPagesReserved := s.totalPagesReserved + region.numPagesReserved }
  if region.numPages < region.numPagesReserved then none
  else s.absorbPages index (region.pfnStart + region.numPagesReserved) region.numPagesUsable

def absorbAll (s : State) : List MemmapEntry → Option State
  | [] => some s
  | entry :: entries =>
    if entry.usable then (s.absorbMemmapEntry entry).bind fun s => s.absorbAll entries
    else s.absorbAll entries

def init (memory : PageRef → Page) (links : Links (Option PageRef)) (memmap : List MemmapEntry) :
    Option State :=
  State.absorbAll ⟨[],memory,links.init none,0,0⟩ memmap

-- The walk of `find_page`, from the region with number `index` on: `none` is a failed `ASSERT`.
def findFrom (s : State) (phy : Nat) : Nat → List Region → Option (Option PageRef)
  | _,[] => some none
  | index,region :: regions =>
    if phy < region.basePhy ∨ region.endPhy < phy then s.findFrom phy (index + 1) regions
    else
      let offsetPages := (phy - region.basePhy) / pageSize
      if offsetPages < region.numPagesReserved then some none
      else
        let p := (index,offsetPages - region.numPagesReserved)
        if (s.pages p).pfn * pageSize = phy then some (some p) else none

def findPage (s : State) (phy : Nat) : Option (Option PageRef) := s.findFrom phy 0 s.regions

def allocPage (s : State) : Option (State × PageRef) := do
  if s.links.isEmpty none then none
  else
    let next ← (s.links none).next
    let p ← next
    guard (s.pages p).free
    let s := s.setPage p { s.pages p with free := false }
    let links ← s.links.remove next
    return ({ s.setLinks links with totalFreePages := s.totalFreePages - 1 },p)

def freePage (s : State) (p : PageRef) : Option State := do
  guard (!(s.pages p).free)
  let s := s.setPage p { s.pages p with free := true, mappedAddr := 0 }
  let links ← s.links.add none (some p)
  return { s.setLinks links with totalFreePages := s.totalFreePages + 1 }

def firstBusy (s : State) (index i numPages : Nat) : Option Nat :=
  (List.range numPages).find? fun j => !(s.pages (index,i + j)).free

def scan (s : State) (index limit numPages : Nat) : Nat → Nat → Option Nat
  | 0,_ => none
  | fuel + 1,i =>
    if i ≤ limit then
      match s.firstBusy index i numPages with
      | none => some i
      | some j => s.scan index limit numPages fuel (i + j + 1)
    else none

def takePages (s : State) (index i : Nat) : Nat → Option State
  | 0 => some s
  | j + 1 => do
    let s ← takePages s index i j
    let s := s.setPage (index,i + j) { s.pages (index,i + j) with free := false }
    let links ← s.links.remove (some (index,i + j))
    return { s.setLinks links with totalFreePages := s.totalFreePages - 1 }

def allocFrom (s : State) (numPages : Nat) : Nat → List Region → Option (State × Nat)
  | _,[] => some (s,0)
  | index,region :: regions =>
    let limit := usub region.numPagesUsable numPages
    match s.scan index limit numPages (limit + 1) 0 with
    | some i => do
      let s ← s.takePages index i numPages
      return (s,(s.pages (index,i)).pfn * pageSize)
    | none => s.allocFrom numPages (index + 1) regions

def allocContiguousPages (s : State) (numPages : Nat) : Option (State × Nat) :=
  s.allocFrom numPages 0 s.regions

def freeFound (s : State) : Option PageRef → Option State
  | none => some s
  | some p => s.freePage p

def freeContiguousPages (s : State) (base : Nat) : Nat → Option State
  | 0 => some s
  | i + 1 => do
    let s ← s.freeContiguousPages base i
    let found ← s.findPage (base + i * pageSize)
    s.freeFound found

end State

end SabaOS.Pmm
