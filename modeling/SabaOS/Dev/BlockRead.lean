import SabaOS.Dev.BlockDevice

namespace SabaOS.Dev

open SabaOS.Mem

variable {s s' : Io} {m : Pagemap} {buf count pfn first second offset : Nat}

theorem pageSize_pos : 0 < pageSize := by decide

theorem eq_of_page {a b : Nat} (hpage : a / pageSize = b / pageSize)
    (hoffset : a % pageSize = b % pageSize) : a = b := by
  rw [← Nat.div_add_mod a pageSize,← Nat.div_add_mod b pageSize,hpage,hoffset]

theorem page_of_aligned {a n o : Nat} (ha : a % pageSize = 0) (ho : o < pageSize) :
    (a + n * pageSize + o) / pageSize = (a + n * pageSize) / pageSize ∧
      (a + n * pageSize + o) % pageSize = o := by
  simp only [pageSize] at *
  omega

theorem mem_page {a v : Nat} (ha : a % pageSize = 0) (h : v / pageSize = a / pageSize) :
    ∃ o < pageSize, v = a + o := by
  refine ⟨v - a,?_,?_⟩
  · simp only [pageSize] at *
    omega
  · simp only [pageSize] at *
    omega

structure Filled (s s' : Io) (m : Pagemap) (buf count lo hi : Nat) (g : Nat → UInt8) : Prop where
  disk : s'.disk = s.disk
  inside : ∀ i, lo ≤ i → i < hi → s'.load m (buf + i) = some (g i)
  outside : ∀ i < count, i < lo ∨ hi ≤ i → s'.load m (buf + i) = s.load m (buf + i)

theorem Filled.refl {lo : Nat} {g : Nat → UInt8} : Filled s s m buf count lo lo g := by
  refine ⟨rfl,?_,fun _ _ _ => rfl⟩
  intro i hlo hhi
  omega

theorem Filled.trans {s₁ s₂ : Io} {lo mid hi : Nat} {g : Nat → UInt8}
    (h : Filled s s₁ m buf count lo mid g) (h' : Filled s₁ s₂ m buf count mid hi g)
    (hlo : lo ≤ mid) (hhi : mid ≤ hi) (hmid : mid ≤ count) :
    Filled s s₂ m buf count lo hi g := by
  refine ⟨h'.disk.trans h.disk,?_,?_⟩
  · intro i hi₁ hi₂
    by_cases him : i < mid
    · rw [h'.outside i (by omega) (.inl him)]
      exact h.inside i hi₁ him
    · exact h'.inside i (by omega) hi₂
  · intro i hcount hout
    rw [h'.outside i hcount (by omega)]
    exact h.outside i hcount (by omega)

theorem Filled.congr {lo hi : Nat} {g g' : Nat → UInt8} (h : Filled s s' m buf count lo hi g)
    (heq : ∀ i, lo ≤ i → i < hi → g i = g' i) : Filled s s' m buf count lo hi g' := by
  refine ⟨h.disk,?_,h.outside⟩
  intro i hlo hhi
  rw [h.inside i hlo hhi,heq i hlo hhi]

theorem load_congr {v : Nat} (h : ∀ f, m.frame (v / pageSize) = some f →
    s'.memory f (v % pageSize) = s.memory f (v % pageSize)) : s'.load m v = s.load m v := by
  simp only [Io.load]
  cases hf : m.frame (v / pageSize) with
  | none => rfl
  | some f => simp [h f hf]

section Buffer

variable (hm : Mapped m buf count)

include hm

theorem Mapped.same_page {i j f : Nat} (hi : i < count) (hj : j < count)
    (hfi : m.frame ((buf + i) / pageSize) = some f) (hfj : m.frame ((buf + j) / pageSize) = some f) :
    (buf + i) / pageSize = (buf + j) / pageSize :=
  hm.distinct _ _ (Nat.le_add_right _ _) (by omega) (Nat.le_add_right _ _) (by omega)
    (hfi.trans hfj.symm)

theorem load_store {i j f : Nat} {byte : UInt8} (hi : i < count) (hj : j < count)
    (hf : m.frame ((buf + j) / pageSize) = some f) :
    (s.store f ((buf + j) % pageSize) byte).load m (buf + i) =
      if i = j then some byte else s.load m (buf + i) := by
  split_ifs with heq
  · subst heq
    simp [Io.load,Io.store,hf]
  · refine load_congr fun f' hf' => ?_
    simp only [Io.store]
    by_cases hff : f' = f
    · subst hff
      have hpage := hm.same_page hi hj hf' hf
      have hoffset : (buf + i) % pageSize ≠ (buf + j) % pageSize := by
        intro hmod
        exact heq (Nat.add_left_cancel (eq_of_page hpage hmod))
      rw [Function.update_self,Function.update_of_ne hoffset]
    · rw [Function.update_of_ne hff]

theorem copyTo_filled (hspare : Spare m buf count pfn) {lo n : Nat} (hn : lo + n ≤ count) :
    ∃ s', s.copyTo m (buf + lo) pfn n = some s' ∧ s'.memory pfn = s.memory pfn ∧
      Filled s s' m buf count lo (lo + n) fun i => s.memory pfn (i - lo) := by
  induction n with
  | zero => exact ⟨s,rfl,rfl,.refl⟩
  | succ n ih =>
    obtain ⟨s₁,hs₁,hpfn,hfill⟩ := ih (by omega)
    obtain ⟨f,hf⟩ := hm.frame (buf + lo + n) (by omega) (by omega)
    have hne : pfn ≠ f := by
      rintro rfl
      exact hspare _ (by omega) (by omega) hf
    refine ⟨s₁.store f ((buf + lo + n) % pageSize) (s₁.memory pfn n),?_,?_,?_⟩
    · simp [Io.copyTo,hs₁,hf]
    · simp only [Io.store]
      rw [Function.update_of_ne hne,hpfn]
    · have hload : ∀ i < count,
          (s₁.store f ((buf + lo + n) % pageSize) (s₁.memory pfn n)).load m (buf + i) =
            if i = lo + n then some (s.memory pfn n) else s₁.load m (buf + i) := by
        intro i hi
        rw [← hpfn,Nat.add_assoc]
        exact load_store hm hi (by omega) (by rw [← Nat.add_assoc]; exact hf)
      refine ⟨hfill.disk,?_,?_⟩
      · intro i hlo hhi
        rw [hload i (by omega)]
        split_ifs with heq
        · rw [heq,Nat.add_sub_cancel_left]
        · exact hfill.inside i hlo (by omega)
      · intro i hi hout
        rw [hload i hi,if_neg (by omega)]
        exact hfill.outside i hi (by omega)

theorem readBlock_filled {lo f block : Nat} (hlo : (buf + lo) % pageSize = 0)
    (hend : lo + pageSize ≤ count) (hf : m.frame ((buf + lo) / pageSize) = some f) :
    Filled s (s.readWriteBlock block f .read) m buf count lo (lo + pageSize)
      fun i => s.disk (block * pageSize + (i - lo)) := by
  have hpos := pageSize_pos
  refine ⟨rfl,?_,?_⟩
  · intro i hi₁ hi₂
    have hpage : (buf + i) / pageSize = (buf + lo) / pageSize ∧ (buf + i) % pageSize = i - lo := by
      have haligned := page_of_aligned (n := 0) hlo (by omega : i - lo < pageSize)
      rw [Nat.zero_mul,Nat.add_zero,show buf + lo + (i - lo) = buf + i by omega] at haligned
      exact haligned
    simp only [Io.load,Io.readWriteBlock,hpage.1,hpage.2,hf,Option.map_some,Function.update_self]
    rw [if_pos (by omega)]
  · intro i hi hout
    refine load_congr fun f' hf' => ?_
    have hne : f' ≠ f := by
      rintro rfl
      have hpage := hm.same_page hi (by omega) hf' hf
      obtain ⟨o,ho,heq⟩ := mem_page hlo hpage
      omega
    simp only [Io.readWriteBlock]
    rw [Function.update_of_ne hne]

theorem readBlocks_filled (block : Nat) {lo n : Nat} (hlo : (buf + lo) % pageSize = 0)
    (hn : lo + n * pageSize ≤ count) :
    ∃ s', s.readWriteBlocks m (buf + lo) block .read n = (s',0) ∧
      Filled s s' m buf count lo (lo + n * pageSize)
        fun i => s.disk (block * pageSize + (i - lo)) := by
  induction n with
  | zero =>
    rw [Nat.zero_mul,Nat.add_zero]
    exact ⟨s,rfl,.refl⟩
  | succ n ih =>
    rw [Nat.succ_mul] at hn
    obtain ⟨s₁,hs₁,hfill⟩ := ih (by omega)
    obtain ⟨f,hf⟩ := hm.frame (buf + lo + n * pageSize) (by omega)
      (by have := pageSize_pos; omega)
    have hstep : Filled s₁ (s₁.readWriteBlock (block + n) f .read) m buf count (lo + n * pageSize)
        (lo + n * pageSize + pageSize)
        fun i => s₁.disk ((block + n) * pageSize + (i - (lo + n * pageSize))) := by
      refine readBlock_filled hm ?_ (by omega) (by rw [← Nat.add_assoc]; exact hf)
      rw [← Nat.add_assoc,Nat.add_mul_mod_self_right]
      exact hlo
    refine ⟨s₁.readWriteBlock (block + n) f .read,?_,?_⟩
    · simp [Io.readWriteBlocks,hs₁,hf]
    · rw [Nat.succ_mul,← Nat.add_assoc]
      refine hfill.trans (hstep.congr ?_) (by omega) (by omega) (by omega)
      intro i hi₁ hi₂
      rw [hfill.disk,Nat.add_mul,show block * pageSize + n * pageSize + (i - (lo + n * pageSize)) =
        block * pageSize + (i - lo) by omega]

theorem readPartial_filled (offset lo n : Nat) (hspare : Spare m buf count pfn) (hn : lo + n ≤ count)
    (hpage : n ≤ pageSize) :
    ∃ s', s.readWritePartial m pfn (buf + lo) offset n .read = some s' ∧
      Filled s s' m buf count lo (lo + n)
        fun i => s.disk (offset / pageSize * pageSize + (i - lo)) := by
  let t := s.readWriteBlock (offset / pageSize) pfn .read
  obtain ⟨s',hs',-,hfill⟩ := copyTo_filled (s := t) hm hspare hn
  refine ⟨s',hs',hfill.disk,?_,?_⟩
  · intro i hi₁ hi₂
    rw [hfill.inside i hi₁ hi₂]
    simp only [t,Io.readWriteBlock,Function.update_self]
    rw [if_pos (by omega)]
  · intro i hi hout
    rw [hfill.outside i hi hout]
    refine load_congr fun f hf => ?_
    have hne : f ≠ pfn := by
      rintro rfl
      exact hspare _ (Nat.le_add_right _ _) (by omega) hf
    simp only [t,Io.readWriteBlock]
    rw [Function.update_of_ne hne]

theorem readTail_filled (offset lo done : Nat) (hspare : Spare m buf count pfn) (hlo : lo ≤ count)
    (hshort : count - lo < pageSize) :
    ∃ s', s.readWriteTail m pfn (buf + lo) (count - lo) offset .read done =
        some (s',((done + (count - lo) : Nat) : Int)) ∧
      Filled s s' m buf count lo count
        fun i => s.disk (offset / pageSize * pageSize + (i - lo)) := by
  rw [Io.readWriteTail]
  by_cases hzero : count - lo = 0
  · rw [if_pos hzero,hzero]
    obtain rfl : lo = count := by omega
    exact ⟨s,rfl,.refl⟩
  · obtain ⟨s',hs',hfill⟩ := readPartial_filled (s := s) hm offset lo (count - lo) hspare
      (show lo + (count - lo) ≤ count by omega) (Nat.le_of_lt hshort)
    rw [show lo + (count - lo) = count by omega] at hfill
    refine ⟨s',?_,hfill⟩
    rw [if_neg hzero,Nat.min_eq_left (Nat.le_of_lt hshort),hs']
    simp

theorem readMiddle_filled (offset lo done : Nat) (hspare : Spare m buf count pfn) (hlo : lo ≤ count)
    (haligned : (buf + lo) % pageSize = 0 ∨ lo = count) :
    ∃ s', s.readWriteMiddle m pfn (buf + lo) (count - lo) offset .read done =
        some (s',((done + (count - lo) : Nat) : Int)) ∧
      Filled s s' m buf count lo count
        fun i => s.disk (offset / pageSize * pageSize + (i - lo)) := by
  rw [Io.readWriteMiddle]
  by_cases hzero : count - lo = 0
  · rw [if_pos hzero,hzero]
    obtain rfl : lo = count := by omega
    exact ⟨s,rfl,.refl⟩
  · let size := (count - lo) / pageSize * pageSize
    have hsize : size ≤ count - lo := Nat.div_mul_le_self _ _
    have hrest : count - lo - size < pageSize := by
      have hmod := Nat.div_add_mod' (count - lo) pageSize
      have hlt := Nat.mod_lt (count - lo) pageSize_pos
      omega
    obtain ⟨s₁,hs₁,hfill₁⟩ := readBlocks_filled (s := s) hm (offset / pageSize)
      (n := (count - lo) / pageSize) (haligned.resolve_right (by omega)) (by omega)
    obtain ⟨s₂,hs₂,hfill₂⟩ := readTail_filled (s := s₁) hm (offset + size)
      (lo + size) (done + size) hspare (by omega) (by omega)
    refine ⟨s₂,?_,hfill₁.trans (hfill₂.congr ?_) (by omega) (by omega) (by omega)⟩
    · rw [if_neg hzero,hs₁]
      dsimp only
      rw [if_neg (by decide),Nat.add_assoc,Nat.sub_sub,hs₂]
      congr 3
      omega
    · intro i hi₁ hi₂
      rw [hfill₁.disk,Nat.add_mul_div_right _ _ pageSize_pos,Nat.add_mul]
      refine congrArg s.disk ?_
      omega

end Buffer

def source (buf count offset i : Nat) : Nat :=
  if i < headSize buf count then offset / pageSize * pageSize + i
  else (offset + headSize buf count) / pageSize * pageSize + (i - headSize buf count)

theorem head_aligned : (buf + headSize buf count) % pageSize = 0 ∨ headSize buf count = count := by
  rw [headSize]
  split_ifs with h
  · exact .inl h
  · simp only [pageSize] at *
    omega

theorem headSize_le : headSize buf count ≤ count := by
  rw [headSize]
  split_ifs
  · exact Nat.zero_le _
  · exact Nat.min_le_right _ _

theorem read_filled (offset : Nat) (hm : Mapped m buf count) (hfirst : Spare m buf count first)
    (hsecond : Spare m buf count second) :
    ∃ s', s.readWrite m first second buf count offset .read = some (s',(count : Int)) ∧
      Filled s s' m buf count 0 count fun i => s.disk (source buf count offset i) := by
  rw [Io.readWrite]
  by_cases hbuf : buf % pageSize = 0
  · have hhead : headSize buf count = 0 := if_pos hbuf
    obtain ⟨s',hs',hfill⟩ := readMiddle_filled (s := s) hm offset 0 0
      hsecond (Nat.zero_le _) (.inl hbuf)
    refine ⟨s',?_,hfill.congr ?_⟩
    · rw [if_pos hbuf]
      simpa using hs'
    · intro i _ _
      rw [source,hhead,if_neg (Nat.not_lt_zero _)]
      simp
  · have hhead : headSize buf count = min (pageSize - buf % pageSize) count := if_neg hbuf
    obtain ⟨s₁,hs₁,hfill₁⟩ := readPartial_filled (s := s) hm offset 0
      (headSize buf count) hfirst (by rw [Nat.zero_add]; exact headSize_le)
      (by rw [hhead]; omega)
    rw [Nat.zero_add,Nat.add_zero] at *
    obtain ⟨s₂,hs₂,hfill₂⟩ := readMiddle_filled (s := s₁) hm (offset + headSize buf count)
      (headSize buf count) (headSize buf count) hsecond headSize_le head_aligned
    refine ⟨s₂,?_,(hfill₁.congr ?_).trans (hfill₂.congr ?_) (Nat.zero_le _) headSize_le headSize_le⟩
    · rw [if_neg hbuf,← hhead]
      dsimp only
      rw [hs₁,Option.bind_eq_bind,Option.bind_some,hs₂,Nat.add_sub_of_le headSize_le]
    · intro i _ hi
      rw [source,if_pos hi,Nat.sub_zero]
    · intro i hi _
      rw [source,if_neg (by omega),hfill₁.disk]

end SabaOS.Dev
