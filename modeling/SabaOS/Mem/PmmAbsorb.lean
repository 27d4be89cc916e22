import SabaOS.Mem.PmmRun

namespace SabaOS.Pmm

open SabaOS.Klib SabaOS.Lib

section Counts

variable {r : Region} {i : Nat}

-- In 64 bits, where the product can wrap.
def Region.reservedWord (r : Region) : Nat :=
  (32 + r.numPages * 32 + pageSize - 1) % 2 ^ 64 / pageSize

def Region.usableWord (r : Region) : Nat := usub r.numPages r.reservedWord

def Region.frame (r : Region) (i : Nat) : Nat := r.pfnStart + r.reservedWord + i

def Region.structPhy (r : Region) (i : Nat) : Nat := r.basePhy + 32 + i * 32

def Region.reservedEnd (r : Region) : Nat := (r.pfnStart + r.reservedWord) * pageSize

theorem reservedWord_eq (h : r.numPages < 2 ^ 58) : r.reservedWord = r.numPagesReserved := by
  rw [Region.reservedWord,Region.numPagesReserved,Nat.mod_eq_of_lt]
  simp only [pageSize]
  omega

theorem usableWord_eq (h : r.numPages < 2 ^ 58) : r.usableWord = r.numPagesUsable := by
  rw [Region.usableWord,Region.numPagesUsable,reservedWord_eq h]

theorem reserved_le (h0 : 0 < r.numPages) : r.numPagesReserved ≤ r.numPages := by
  simp only [Region.numPagesReserved,pageSize]
  omega

theorem reservedWord_le (h0 : 0 < r.numPages) (h : r.numPages < 2 ^ 58) :
    r.usableWord + r.reservedWord = r.numPages := by
  have hle := reserved_le h0
  rw [usableWord_eq h,usable_eq hle (by omega),reservedWord_eq h]
  omega

theorem structPhy_le (h0 : 0 < r.numPages) (h : r.numPages < 2 ^ 58) (hi : i < r.usableWord) :
    r.structPhy i + 32 ≤ r.reservedEnd := by
  have hsum := reservedWord_le h0 h
  have hcount := reservedWord_eq h
  simp only [Region.numPagesReserved,Region.structPhy,Region.basePhy,Region.reservedEnd,pageSize] at *
  omega

end Counts

namespace MemmapEntry

variable {e : MemmapEntry}

def cut (e : MemmapEntry) : Nat :=
  (if e.base % pageSize ≠ 0 then 1 else 0) + if e.length % pageSize ≠ 0 then 1 else 0

def HasFrame (e : MemmapEntry) : Prop := e.cut < e.length / pageSize

instance (e : MemmapEntry) : Decidable e.HasFrame := inferInstanceAs (Decidable (_ < _))

def wholeFrames (e : MemmapEntry) : Nat :=
  (e.base + e.length) / pageSize - (e.base + pageSize - 1) / pageSize

structure Absorbs (e : MemmapEntry) : Prop where
  frames : ∀ i < (State.entryRegion e).usableWord, e.base ≤ (State.entryRegion e).frame i * pageSize ∧
    ((State.entryRegion e).frame i + 1) * pageSize ≤ e.base + e.length
  interval : e.base ≤ (State.entryRegion e).basePhy ∧
    (State.entryRegion e).reservedEnd ≤ e.base + e.length
  header : (State.entryRegion e).basePhy + 32 ≤ (State.entryRegion e).reservedEnd
  structs : ∀ i < (State.entryRegion e).usableWord,
    (State.entryRegion e).structPhy i + 32 ≤ (State.entryRegion e).reservedEnd
  apart : ∀ i < (State.entryRegion e).usableWord,
    (State.entryRegion e).reservedEnd ≤ (State.entryRegion e).frame i * pageSize
  small : e.wholeFrames ≤ 1 → (State.entryRegion e).usableWord = 0
  freelist : ∀ (s : State) (xs : List PageRef), Links.Ring s.links none (xs.map some) →
    (∀ p ∈ xs, p.1 < s.regions.length) → ∃ (s' : State) (xs' : List PageRef),
      s.absorbMemmapEntry e = some s' ∧ Links.Ring s'.links none (xs'.map some) ∧
      (∀ p, p ∈ xs' ↔ p ∈ xs ∨ p.1 = s.regions.length ∧ p.2 < (State.entryRegion e).usableWord) ∧
      ∀ i < (State.entryRegion e).usableWord,
        (s'.pages (s.regions.length,i)).pfn = (State.entryRegion e).frame i

theorem entryRegion_start (e : MemmapEntry) :
    (State.entryRegion e).basePhy = (e.base + pageSize - 1) / pageSize * pageSize := by
  simp only [State.entryRegion,Region.basePhy]
  split_ifs with hb
  · simp only [pageSize] at *
    omega
  · simp only [pageSize] at *
    omega

theorem entryRegion_pages (h : e.base + e.length < 2 ^ 64) (hf : e.HasFrame) :
    (State.entryRegion e).numPages + e.cut = e.length / pageSize := by
  simp only [HasFrame,cut] at hf
  simp only [State.entryRegion,cut,usub]
  split_ifs at hf ⊢ <;> (simp only [pageSize] at *; omega)

theorem entryRegion_few (h : e.base + e.length < 2 ^ 64) (hf : ¬e.HasFrame) :
    (State.entryRegion e).numPages = 0 ∨ 2 ^ 64 - 2 ≤ (State.entryRegion e).numPages ∧
      (State.entryRegion e).numPages < 2 ^ 64 := by
  simp only [HasFrame,cut] at hf
  simp only [State.entryRegion,usub]
  split_ifs at hf ⊢ <;> (simp only [pageSize] at *; omega)

theorem usable_few (h : e.base + e.length < 2 ^ 64) (hf : ¬e.HasFrame) :
    3 < (State.entryRegion e).usableWord := by
  rcases entryRegion_few h hf with h0 | ⟨hge,hlt⟩
  · rw [Region.usableWord,Region.reservedWord,h0]
    decide
  · have hzero : (State.entryRegion e).reservedWord = 0 := by
      simp only [Region.reservedWord,pageSize]
      omega
    rw [Region.usableWord,hzero,usub_of_le hlt (Nat.zero_le _)]
    omega

theorem frame_outside (hf : ¬e.HasFrame) :
    e.base + e.length < ((State.entryRegion e).frame 3 + 1) * pageSize := by
  have hstart := entryRegion_start e
  have hcut : e.cut ≤ 2 := by
    simp only [cut]
    split_ifs <;> omega
  simp only [HasFrame,Region.frame,Region.basePhy,pageSize] at *
  omega

theorem numPages_lt (h : e.base + e.length < 2 ^ 64) (hf : e.HasFrame) :
    0 < (State.entryRegion e).numPages ∧ (State.entryRegion e).numPages < 2 ^ 58 := by
  have hpages := entryRegion_pages h hf
  simp only [HasFrame,pageSize] at *
  omega

theorem entryRegion_end (h : e.base + e.length < 2 ^ 64) (hf : e.HasFrame) :
    (State.entryRegion e).endPhy ≤ e.base + e.length := by
  have hpages := entryRegion_pages h hf
  have hstart := entryRegion_start e
  have hcut : e.base % pageSize = 0 ∨ 1 ≤ e.cut := by
    simp only [cut]
    split_ifs <;> omega
  simp only [Region.endPhy,pageSize] at *
  omega

theorem absorbs_of_hasFrame (h : e.base + e.length < 2 ^ 64) (hf : e.HasFrame) : e.Absorbs := by
  have hstart := entryRegion_start e
  have hend := entryRegion_end h hf
  obtain ⟨h0,hlt⟩ := numPages_lt h hf
  have hsum := reservedWord_le h0 hlt
  have hbase : e.base ≤ (State.entryRegion e).basePhy := by
    rw [hstart]
    simp only [pageSize]
    omega
  have hall : (State.entryRegion e).reservedEnd +
      (State.entryRegion e).usableWord * pageSize = (State.entryRegion e).endPhy := by
    rw [Region.endPhy,Region.basePhy,Region.reservedEnd,← hsum]
    ring
  refine ⟨?_,?_,?_,?_,?_,?_,?_⟩
  · intro i hi
    simp only [Region.frame,Region.reservedEnd,Region.basePhy,pageSize] at *
    omega
  · exact ⟨hbase,by omega⟩
  · have hcount := reservedWord_eq hlt
    simp only [Region.numPagesReserved,Region.basePhy,Region.reservedEnd,pageSize] at *
    omega
  · exact fun i hi => structPhy_le h0 hlt hi
  · intro i hi
    simp only [Region.frame,Region.reservedEnd,pageSize]
    omega
  · intro hsmall
    have hone : 1 ≤ (State.entryRegion e).reservedWord := by
      rw [reservedWord_eq hlt]
      simp only [Region.numPagesReserved,pageSize]
      omega
    simp only [wholeFrames,Region.endPhy,pageSize] at *
    omega
  · intro s xs hring hless
    obtain ⟨s',xs',habsorb,hring',hmem,-,-,hnew,-⟩ :=
      absorbPages_spec (s := { s with
        regions := s.regions ++ [State.entryRegion e]
        totalPagesReserved := s.totalPagesReserved + (State.entryRegion e).numPagesReserved })
        s.regions.length ((State.entryRegion e).pfnStart + (State.entryRegion e).numPagesReserved)
        (State.entryRegion e).numPagesUsable hring hless
    refine ⟨s',xs',?_,hring',?_,?_⟩
    · rw [State.absorbMemmapEntry,if_neg (Nat.not_lt.mpr (reserved_le h0))]
      exact habsorb
    · rw [usableWord_eq hlt]
      exact hmem
    · intro i hi
      rw [usableWord_eq hlt] at hi
      rw [Region.frame,reservedWord_eq hlt]
      exact (hnew (s.regions.length,i) ⟨rfl,hi⟩).2

theorem absorb_memmap_entry_iff (e : MemmapEntry) (h : e.base + e.length < 2 ^ 64) :
    e.Absorbs ↔ e.HasFrame := by
  constructor
  · intro ha
    by_contra hf
    have hin := (ha.frames 3 (usable_few h hf)).2
    have hout := frame_outside hf
    omega
  · exact absorbs_of_hasFrame h

theorem absorb_memmap_entry_four : Absorbs ⟨0x100000,0x4000,true⟩ :=
  (absorb_memmap_entry_iff ⟨0x100000,0x4000,true⟩ (by decide)).mpr (by decide)

theorem absorb_memmap_entry_short : ¬Absorbs ⟨0x1000,0x800,true⟩ := by
  intro ha
  have hf : ¬HasFrame ⟨0x1000,0x800,true⟩ := by decide
  have hin := (ha.frames 3 (usable_few (by decide) hf)).2
  have hout := frame_outside hf
  omega

end MemmapEntry

end SabaOS.Pmm
