import SabaOS.Mem.Reach

namespace SabaOS.Mem

open SabaOS.Klib SabaOS.Lib

def dmaFlags : UInt64 :=
  pagePresent ||| pageWritable ||| pageUser ||| pageNoExecute ||| pageWriteCombining

def dmaPages (size : Nat) : Nat := uadd size (pageSize - 1) / pageSize

namespace VM

def mapPage (vm : VM) (pm phy virt : Nat) (flags : UInt64) : Option VM :=
  (vm.createTables pm (pageKey virt)).map fun vm =>
    vm.setEntry pm (pageKey virt) ⟨phy / pageSize % 2 ^ 40,flags⟩

-- The call passes the virtual address where `map_page` takes the physical one.
def mmapPages (vm : VM) (pm : Nat) (vma : MappedRange) (physBase : Nat) : Nat → Option VM
  | 0 => some vm
  | n + 1 => (vm.mmapPages pm vma physBase n).bind fun vm =>
      let phys := uadd physBase (n * pageSize)
      let virt := uadd vma.base (n * pageSize)
      vm.mapPage pm virt phys dmaFlags

def mmapBuffer (vm : VM) (pm : Nat) (vma : Option MappedRange) (physBase size : Nat) :
    Option (VM × Int) :=
  match vma with
  | none => some (vm,-22)
  | some vma => (vm.mmapPages pm vma physBase (dmaPages size)).map fun vm => (vm,0)

end VM

section Written

variable (vma : MappedRange) (physBase size i : Nat)

def physPage : Nat := uadd physBase (i * pageSize)

def userPage : Nat := uadd vma.base (i * pageSize)

def frameOf (phy : Nat) : Nat := phy / pageSize % 2 ^ 40

def LastWrite (n : Nat) : Prop :=
  ∀ k, i < k → k < n → pageKey (physPage physBase k) ≠ pageKey (physPage physBase i)

end Written

def bufferPages (size : Nat) : Nat := (size + (pageSize - 1)) / pageSize

structure Mapped (vm vm' : VM) (pm : Nat) (vma : MappedRange) (physBase size : Nat) : Prop where
  pages : ∀ i < bufferPages size, vma.covers (userPage vma i) →
    (vm'.entry pm (pageKey (userPage vma i))).present = true ∧
      (vm'.entry pm (pageKey (userPage vma i))).pfn = frameOf (physPage physBase i)
  others : ∀ key, (∀ virt, vma.covers virt → pageKey virt ≠ key) →
    vm'.entry pm key = vm.entry pm key

structure Coincides (vm : VM) (pm : Nat) (vma : MappedRange) (physBase size : Nat) : Prop where
  inside : ∀ j < dmaPages size, LastWrite physBase j (dmaPages size) →
    (∃ virt, vma.covers virt ∧ pageKey virt = pageKey (physPage physBase j)) ∨
      vm.entry pm (pageKey (physPage physBase j)) = ⟨frameOf (userPage vma j),dmaFlags⟩
  written : ∀ i < bufferPages size, vma.covers (userPage vma i) → ∀ j < dmaPages size,
    LastWrite physBase j (dmaPages size) →
      pageKey (physPage physBase j) = pageKey (userPage vma i) →
        frameOf (userPage vma j) = frameOf (physPage physBase i)
  kept : ∀ i < bufferPages size, vma.covers (userPage vma i) →
    (∀ j < dmaPages size, pageKey (physPage physBase j) ≠ pageKey (userPage vma i)) →
      (vm.entry pm (pageKey (userPage vma i))).present = true ∧
        (vm.entry pm (pageKey (userPage vma i))).pfn = frameOf (physPage physBase i)

section Entries

variable {vm vm' : VM} {pm phy virt key physBase size n i j : Nat} {flags : UInt64}
variable {vma : MappedRange}

theorem mapPage_entry (h : vm.mapPage pm phy virt flags = some vm') :
    vm'.entry pm key = if key = pageKey virt then ⟨frameOf phy,flags⟩ else vm.entry pm key := by
  obtain ⟨vm1,h1,rfl⟩ := Option.map_eq_some_iff.mp h
  obtain ⟨hgrows,htable⟩ := VM.createTables_grows h1
  rw [VM.entry_setEntry vm1 pm _ _ htable,hgrows.entry]
  by_cases hkey : key = pageKey virt
  · rw [if_pos ⟨by rw [hkey],hkey⟩,if_pos hkey,frameOf]
  · rw [if_neg fun hc => hkey hc.2,if_neg hkey]

theorem mmapPages_succ (h : vm.mmapPages pm vma physBase (n + 1) = some vm') :
    ∃ vm1, vm.mmapPages pm vma physBase n = some vm1 ∧ ∀ key, vm'.entry pm key =
      if key = pageKey (physPage physBase n) then ⟨frameOf (userPage vma n),dmaFlags⟩
      else vm1.entry pm key := by
  obtain ⟨vm1,h1,h2⟩ := Option.bind_eq_some_iff.mp h
  exact ⟨vm1,h1,fun key => mapPage_entry h2⟩

theorem mmapPages_unwritten (h : vm.mmapPages pm vma physBase n = some vm')
    (hno : ∀ j < n, pageKey (physPage physBase j) ≠ key) : vm'.entry pm key = vm.entry pm key := by
  induction n generalizing vm' with
  | zero =>
    cases h
    rfl
  | succ n ih =>
    obtain ⟨vm1,h1,hentry⟩ := mmapPages_succ h
    rw [hentry,if_neg (hno n (Nat.lt_succ_self n)).symm]
    exact ih h1 fun j hj => hno j (Nat.lt_succ_of_lt hj)

theorem mmapPages_written (h : vm.mmapPages pm vma physBase n = some vm') (hj : j < n)
    (hlast : LastWrite physBase j n) :
    vm'.entry pm (pageKey (physPage physBase j)) = ⟨frameOf (userPage vma j),dmaFlags⟩ := by
  induction n generalizing vm' with
  | zero => exact absurd hj (Nat.not_lt_zero j)
  | succ n ih =>
    obtain ⟨vm1,h1,hentry⟩ := mmapPages_succ h
    rw [hentry]
    rcases Nat.lt_or_eq_of_le (Nat.le_of_lt_succ hj) with hlt | rfl
    · rw [if_neg (hlast n hlt (Nat.lt_succ_self n)).symm]
      exact ih h1 hlt fun k hk hkn => hlast k hk (Nat.lt_succ_of_lt hkn)
    · exact if_pos rfl

theorem exists_lastWrite (hj : j < n) : ∃ k < n, LastWrite physBase k n ∧
    pageKey (physPage physBase k) = pageKey (physPage physBase j) := by
  have hle : j ≤ n - 1 := by omega
  have hspec := Nat.findGreatest_spec (P := fun k =>
    pageKey (physPage physBase k) = pageKey (physPage physBase j)) hle rfl
  have hbound := Nat.findGreatest_le (P := fun k =>
    pageKey (physPage physBase k) = pageKey (physPage physBase j)) (n - 1)
  refine ⟨_,by omega,?_,hspec⟩
  intro k hk hkn heq
  have := Nat.le_findGreatest (P := fun k =>
    pageKey (physPage physBase k) = pageKey (physPage physBase j)) (show k ≤ n - 1 by omega)
    (heq.trans hspec)
  omega

theorem mmapBuffer_of_pages (h : vm.mmapPages pm vma physBase (dmaPages size) = some vm') :
    vm.mmapBuffer pm (some vma) physBase size = some (vm',0) := by
  rw [VM.mmapBuffer,h,Option.map_some]

theorem dma_present (pfn : Nat) : (⟨pfn,dmaFlags⟩ : Pte).present = true :=
  decide_eq_true (show dmaFlags &&& pagePresent ≠ 0 by decide)

theorem mmapBuffer_pages (h : vm.mmapBuffer pm (some vma) physBase size = some (vm',0)) :
    vm.mmapPages pm vma physBase (dmaPages size) = some vm' := by
  obtain ⟨vm1,h1,heq⟩ := Option.map_eq_some_iff.mp h
  cases heq
  exact h1

end Entries

section Main

variable {vm vm' : VM} {pm physBase size : Nat} {vma : MappedRange}

theorem mapped_iff (h : vm.mmapBuffer pm (some vma) physBase size = some (vm',0)) :
    Mapped vm vm' pm vma physBase size ↔ Coincides vm pm vma physBase size := by
  have hpages := mmapBuffer_pages h
  constructor
  · intro hm
    refine ⟨?_,?_,?_⟩
    · intro j hj hlast
      by_cases hcovers : ∃ virt, vma.covers virt ∧ pageKey virt = pageKey (physPage physBase j)
      · exact .inl hcovers
      · right
        rw [← hm.others _ fun virt hv heq => hcovers ⟨virt,hv,heq⟩]
        exact mmapPages_written hpages hj hlast
    · intro i hi hcovers j hj hlast hkey
      have hpfn := (hm.pages i hi hcovers).2
      rwa [← hkey,mmapPages_written hpages hj hlast] at hpfn
    · intro i hi hcovers hno
      have hpage := hm.pages i hi hcovers
      rwa [mmapPages_unwritten hpages hno] at hpage
  · intro hc
    refine ⟨?_,?_⟩
    · intro i hi hcovers
      by_cases hno : ∀ j < dmaPages size, pageKey (physPage physBase j) ≠ pageKey (userPage vma i)
      · rw [mmapPages_unwritten hpages hno]
        exact hc.kept i hi hcovers hno
      · simp only [not_forall,not_not] at hno
        obtain ⟨j,hj,hkey⟩ := hno
        obtain ⟨k,hk,hlast,hsame⟩ := exists_lastWrite hj
        rw [← hsame.trans hkey,mmapPages_written hpages hk hlast]
        refine ⟨dma_present _,?_⟩
        exact hc.written i hi hcovers k hk hlast (hsame.trans hkey)
    · intro key hout
      by_cases hno : ∀ j < dmaPages size, pageKey (physPage physBase j) ≠ key
      · exact mmapPages_unwritten hpages hno
      · simp only [not_forall,not_not] at hno
        obtain ⟨j,hj,rfl⟩ := hno
        obtain ⟨k,hk,hlast,hsame⟩ := exists_lastWrite hj
        rw [← hsame] at hout ⊢
        rw [mmapPages_written hpages hk hlast]
        rcases hc.inside k hk hlast with ⟨virt,hv,heq⟩ | hbefore
        · exact absurd heq (hout virt hv)
        · exact hbefore.symm

def dmaArea : MappedRange := ⟨0,0x10000,0x10000,0x1000,dmaFlags,.direct,0x200000,none,0⟩

theorem mapped_iff_dmaArea : ∃ vm', oneProcess.mmapBuffer 1 (some dmaArea) 0x200000 0x1000 = some (vm',0) ∧
    (Mapped oneProcess vm' 1 dmaArea 0x200000 0x1000 ↔
      Coincides oneProcess 1 dmaArea 0x200000 0x1000) := by
  have hpages : (oneProcess.mmapPages 1 dmaArea 0x200000 (dmaPages 0x1000)).isSome := by decide +kernel
  have hcall := mmapBuffer_of_pages (Option.some_get hpages).symm
  exact ⟨_,hcall,mapped_iff hcall⟩

-- The page of the area stays unmapped.
theorem dmaArea_not_mapped : ∃ vm', oneProcess.mmapBuffer 1 (some dmaArea) 0x200000 0x1000 = some (vm',0) ∧
    ¬Mapped oneProcess vm' 1 dmaArea 0x200000 0x1000 := by
  have hpages : (oneProcess.mmapPages 1 dmaArea 0x200000 (dmaPages 0x1000)).isSome := by decide +kernel
  have hsome := (Option.some_get hpages).symm
  refine ⟨_,mmapBuffer_of_pages hsome,?_⟩
  intro hm
  have hpresent := (hm.pages 0 (by decide) (by decide)).1
  have hno : ∀ j < dmaPages 0x1000, pageKey (physPage 0x200000 j) ≠ pageKey (userPage dmaArea 0) := by
    decide
  rw [mmapPages_unwritten hsome hno] at hpresent
  have hbefore : (oneProcess.entry 1 (pageKey (userPage dmaArea 0))).present = false := by decide +kernel
  rw [hbefore] at hpresent
  cases hpresent

end Main

end SabaOS.Mem
