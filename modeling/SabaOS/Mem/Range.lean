import Mathlib.Data.List.Basic
import SabaOS.Klib.Word
import SabaOS.Lib.Keyed

namespace SabaOS.Mem
open SabaOS.Klib SabaOS.Lib

def pageSize : Nat := 0x1000

def pagePresent : UInt64 := 1
def pageWritable : UInt64 := 2
def pageUser : UInt64 := 4
def pageCacheDisable : UInt64 := 16
def pageAttributeTable : UInt64 := 128
def pageWriteCombining : UInt64 := pageAttributeTable ||| pageCacheDisable
def pageNoExecute : UInt64 := 0x8000000000000000

inductive RangeType where
  | none
  | direct
  | anonymous
  | file
  | directVirtual
  deriving DecidableEq, Repr

structure MappedRange where
  id : Nat
  base : Nat
  originalBase : Nat
  length : Nat
  pageFlags : UInt64
  type : RangeType
  phyBase : Nat
  file : Option Nat
  fileOffset : Nat
  deriving DecidableEq, Repr

def MappedRange.endAddr (r : MappedRange) : Nat := uadd r.base r.length

def MappedRange.covers (r : MappedRange) (virt : Nat) : Prop :=
  r.base ≤ virt ∧ virt < r.endAddr

instance (r : MappedRange) (virt : Nat) : Decidable (r.covers virt) :=
  inferInstanceAs (Decidable (_ ∧ _))

def MappedRange.backing (r : MappedRange) (pageVirt : Nat) : Nat :=
  uadd (usub pageVirt r.originalBase) (if r.type = .file then r.fileOffset else r.phyBase)

structure Request where
  base : Nat
  length : Nat
  pageFlags : UInt64
  type : RangeType
  phyBase : Nat
  file : Option Nat
  fileOffset : Nat
  merge : Bool
  resolveOverlap : Bool
  keepPages : Bool

def Request.endAddr (q : Request) : Nat := uadd q.base q.length

inductive Effect where
  | invalidatePages (base length : Nat) (range : Option MappedRange)
  | delete (range : MappedRange)
  deriving DecidableEq, Repr

-- The range list and the page work of one call: control flow never reads a page table,
-- so the page work is emitted in program order and run by the page-table model.
structure Surgery where
  rangeList : List MappedRange
  nextId : Nat
  effects : List Effect
  hadOverlap : Bool
  needToResolveOverlap : Bool

namespace Surgery

def emit (s : Surgery) (e : Effect) : Surgery := { s with effects := s.effects ++ [e] }

def store (s : Surgery) (r : MappedRange) : Surgery :=
  { s with rangeList := Keyed.store MappedRange.id s.rangeList r }

def unlink (s : Surgery) (id : Nat) : Surgery :=
  { s with rangeList := Keyed.drop MappedRange.id s.rangeList id }

def overlapped (s : Surgery) : Surgery :=
  { s with hadOverlap := true, needToResolveOverlap := true }

end Surgery

def linkRange : List MappedRange → MappedRange → List MappedRange
  | [], r => [r]
  | [previous], r => [previous, r]
  | previous :: next :: l, r =>
      if next.base > r.base then previous :: r :: next :: l
      else previous :: linkRange (next :: l) r

def insertRange (q : Request) (hadOverlap : Bool) (s : Surgery) : Surgery × Option MappedRange :=
  if q.type = .none then (s.emit (.invalidatePages q.base q.length none), none)
  else
    let r : MappedRange :=
      { id := s.nextId, base := q.base, originalBase := q.base, length := q.length,
        pageFlags := q.pageFlags, type := q.type, phyBase := q.phyBase, file := q.file,
        fileOffset := q.fileOffset }
    let s := { s with rangeList := linkRange s.rangeList r, nextId := s.nextId + 1 }
    (if hadOverlap then s.emit (.invalidatePages r.base r.length (some r)) else s, some r)

def splitRequest (q : Request) (existing : MappedRange) : Request :=
  let splitOffset := usub q.endAddr existing.base
  { base := q.endAddr, length := usub existing.endAddr q.endAddr,
    pageFlags := existing.pageFlags, type := existing.type,
    phyBase := if existing.phyBase ≠ 0 then uadd existing.phyBase splitOffset else 0,
    file := existing.file, fileOffset := uadd existing.fileOffset splitOffset,
    merge := false, resolveOverlap := false, keepPages := q.keepPages }

def splitRange (q : Request) (existing : MappedRange) (s : Surgery) : Surgery :=
  let s := s.store { existing with length := usub q.base existing.base }
  match insertRange (splitRequest q existing) false s with
  | (s, none) => s
  | (s, some split) => s.emit (.invalidatePages split.base split.length (some split))

abbrev Flow := Except (Surgery × Option MappedRange) Surgery

def resolveOne (q : Request) (existing : MappedRange) (s : Surgery) : Flow :=
  if q.base ≥ existing.endAddr ∨ q.endAddr ≤ existing.base then .ok s
  else if q.base ≤ existing.base then
    if q.endAddr ≥ existing.endAddr then
      if q.keepPages ∧ q.base = existing.base ∧ q.endAddr = existing.endAddr ∧
          q.type = existing.type then
        if existing.pageFlags ≠ q.pageFlags then
          let existing := { existing with pageFlags := q.pageFlags }
          .error ((s.store existing).emit
            (.invalidatePages existing.base existing.length (some existing)), some existing)
        else .error (s, some existing)
      else
        let s := s.emit (.invalidatePages existing.base existing.length none)
        .ok ((s.unlink existing.id).emit (.delete existing)).overlapped
    else
      let overlap := usub q.endAddr existing.base
      .ok (s.store { existing with base := uadd existing.base overlap,
                                   length := usub existing.length overlap }).overlapped
  else
    if q.endAddr ≥ existing.endAddr then
      .ok (s.store { existing with
        length := usub existing.length (usub existing.endAddr q.base) }).overlapped
    else .ok (splitRange q existing s).overlapped

-- LIST_FOR_EACH_SAFE over the ranges linked when the pass starts. A range that a split links
-- ahead of the cursor never overlaps the request, so the source's visit of it is a `continue`.
def overlapPass (q : Request) : List Nat → Surgery → Flow
  | [], s => .ok s
  | id :: ids, s =>
      match Keyed.lookup MappedRange.id s.rangeList id with
      | none => overlapPass q ids s
      | some existing =>
          match resolveOne q existing s with
          | .error out => .error out
          | .ok s => overlapPass q ids s

def resolveOverlaps (q : Request) : Nat → Surgery → Flow
  | 0, s => .ok s
  | fuel + 1, s =>
      if s.needToResolveOverlap then
        match overlapPass q (s.rangeList.map (·.id)) { s with needToResolveOverlap := false } with
        | .error out => .error out
        | .ok s => resolveOverlaps q fuel s
      else .ok s

def mergeable (q : Request) (existing : MappedRange) : Bool :=
  q.type = existing.type ∧ q.pageFlags = existing.pageFlags ∧
    (q.base = existing.endAddr ∨ q.endAddr = existing.base)

def mergedRange (q : Request) (existing : MappedRange) : MappedRange :=
  if q.base = existing.endAddr then { existing with length := uadd existing.length q.length }
  else { existing with base := usub existing.base q.length,
                       length := uadd existing.length q.length }

def mergeRange (q : Request) (s : Surgery) : Option Surgery :=
  match s.rangeList.find? (mergeable q) with
  | none => none
  | some existing =>
      let existing := mergedRange q existing
      let s := s.store existing
      some (if s.hadOverlap then s.emit (.invalidatePages q.base q.length (some existing)) else s)

def finishRange (q : Request) (s : Surgery) : Surgery × Option MappedRange :=
  match if q.merge ∧ q.type = .anonymous then mergeRange q s else none with
  | some s => (s, none)
  | none => insertRange q s.hadOverlap s

def addRangeFuel (fuel : Nat) (q : Request) (rangeList : List MappedRange) (nextId : Nat) :
    Surgery × Option MappedRange :=
  match resolveOverlaps q fuel ⟨rangeList, nextId, [], false, q.resolveOverlap⟩ with
  | .error out => out
  | .ok s => finishRange q s

def addRange (q : Request) (rangeList : List MappedRange) (nextId : Nat) :
    Surgery × Option MappedRange :=
  addRangeFuel 2 q rangeList nextId

end SabaOS.Mem
