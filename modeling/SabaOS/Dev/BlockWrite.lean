import SabaOS.Dev.BlockRead

namespace SabaOS.Dev

open SabaOS.Mem

variable {s s' : Io} {m : Pagemap} {buf count pfn first second offset : Nat}

structure Copied (s s' : Io) (m : Pagemap) (virt block n : Nat) : Prop where
  memory : s'.memory = s.memory
  inside : ∀ i < n * pageSize, some (s'.disk (block * pageSize + i)) = s.load m (virt + i)
  outside : ∀ a, a < block * pageSize ∨ (block + n) * pageSize ≤ a → s'.disk a = s.disk a

theorem copied_blocks (block : Nat) {virt n : Nat} (hvirt : virt % pageSize = 0)
    (hmap : ∀ i < n * pageSize, ∃ f, m.frame ((virt + i) / pageSize) = some f) :
    ∃ s', s.readWriteBlocks m virt block .write n = (s',0) ∧ Copied s s' m virt block n := by
  induction n with
  | zero =>
    refine ⟨s,rfl,rfl,?_,fun _ _ => rfl⟩
    intro i hi
    omega
  | succ n ih =>
    have hpos := pageSize_pos
    rw [Nat.succ_mul] at hmap
    obtain ⟨s₁,hs₁,hcopied⟩ := ih fun i hi => hmap i (by omega)
    obtain ⟨f,hf⟩ := hmap (n * pageSize) (by omega)
    have hblock : ∀ i, (block * pageSize + i) / pageSize = block + i / pageSize := by
      intro i
      rw [Nat.add_comm,Nat.add_mul_div_right _ _ hpos,Nat.add_comm]
    refine ⟨s₁.readWriteBlock (block + n) f .write,?_,hcopied.memory,?_,?_⟩
    · simp [Io.readWriteBlocks,hs₁,hf]
    · intro i hi
      rw [Nat.succ_mul] at hi
      simp only [Io.readWriteBlock,hblock]
      by_cases hlast : i / pageSize = n
      · have hmod : (block * pageSize + i) % pageSize = i % pageSize :=
          Nat.mul_add_mod_self_right _ _ _
        have hi' : i = n * pageSize + i % pageSize := by
          rw [← hlast]
          exact (Nat.div_add_mod' i pageSize).symm
        obtain ⟨hpage,hoffset⟩ := page_of_aligned (n := n) hvirt (Nat.mod_lt i hpos)
        rw [if_pos (by omega),hmod,hcopied.memory,Io.load]
        rw [hi',← Nat.add_assoc,hpage,hf,hoffset]
        simp
      · have hlt : i < n * pageSize := by
          have hdiv := Nat.div_add_mod' i pageSize
          have hmod := Nat.mod_lt i hpos
          by_contra hge
          have hn : n ≤ i / pageSize := (Nat.le_div_iff_mul_le hpos).mpr (Nat.le_of_not_lt hge)
          have hn' : i / pageSize < n + 1 :=
            (Nat.div_lt_iff_lt_mul hpos).mpr (by rw [Nat.succ_mul]; exact hi)
          omega
        rw [if_neg (by omega)]
        exact hcopied.inside i hlt
    · intro a ha
      have hout : a < block * pageSize ∨ (block + n) * pageSize + pageSize ≤ a := by
        rwa [← Nat.add_assoc,Nat.succ_mul] at ha
      have hne : a / pageSize ≠ block + n := by
        intro heq
        have hdiv := Nat.div_add_mod' a pageSize
        have hmod := Nat.mod_lt a hpos
        rw [heq,Nat.add_mul] at hdiv
        rw [Nat.add_mul] at hout
        omega
      simp only [Io.readWriteBlock]
      rw [if_neg hne]
      exact hcopied.outside a (by omega)

structure Dumped (s s' : Io) (m : Pagemap) (pfn offset : Nat) : Prop where
  disk : ∀ a, s'.disk a =
    if a / pageSize = offset / pageSize then s.memory pfn (a % pageSize) else s.disk a
  memory : ∀ f, f ≠ pfn → s'.memory f = s.memory f

theorem copyFrom_some (pfn : Nat) {virt n : Nat} (hmap : ∀ i < n, ∃ f, m.frame ((virt + i) / pageSize) = some f) :
    ∃ s', s.copyFrom m pfn virt n = some s' ∧ s'.disk = s.disk ∧
      ∀ f, f ≠ pfn → s'.memory f = s.memory f := by
  induction n with
  | zero => exact ⟨s,rfl,rfl,fun _ _ => rfl⟩
  | succ n ih =>
    obtain ⟨s₁,hs₁,hdisk,hmem⟩ := ih fun i hi => hmap i (by omega)
    obtain ⟨f,hf⟩ := hmap n (by omega)
    refine ⟨s₁.store pfn n (s₁.memory f ((virt + n) % pageSize)),?_,hdisk,?_⟩
    · simp [Io.copyFrom,hs₁,Io.load,hf]
    · intro f' hf'
      simp only [Io.store]
      rw [Function.update_of_ne hf',hmem f' hf']

theorem dumped_partial (pfn offset virt : Nat) {n : Nat}
    (hmap : ∀ i < n, ∃ f, m.frame ((virt + i) / pageSize) = some f) :
    ∃ s', s.readWritePartial m pfn virt offset n .write = some s' ∧ Dumped s s' m pfn offset := by
  obtain ⟨s',hs',hdisk,hmem⟩ :=
    copyFrom_some (s := s.readWriteBlock (offset / pageSize) pfn .write) pfn hmap
  refine ⟨s',hs',?_,hmem⟩
  intro a
  rw [hdisk]
  rfl

section Buffer

variable (hm : Mapped m buf count)

include hm

theorem Mapped.of_lt {lo n : Nat} (h : lo + n ≤ count) :
    ∀ i < n, ∃ f, m.frame ((buf + lo + i) / pageSize) = some f :=
  fun i hi => hm.frame _ (by omega) (by omega)

omit hm in
theorem Dumped.load (h : Dumped s s' m pfn offset) (hspare : Spare m buf count pfn) {i : Nat}
    (hi : i < count) : s'.load m (buf + i) = s.load m (buf + i) := by
  refine load_congr fun f hf => ?_
  have hne : f ≠ pfn := by
    rintro rfl
    exact hspare _ (Nat.le_add_right _ _) (by omega) hf
  rw [h.memory f hne]

theorem writeMiddle_from (pfn offset lo done : Nat) (hlo : lo ≤ count)
    (haligned : (buf + lo) % pageSize = 0 ∨ lo = count) :
    ∃ s', s.readWriteMiddle m pfn (buf + lo) (count - lo) offset .write done =
        some (s',((done + (count - lo) : Nat) : Int)) ∧
      ∀ a, s'.disk a = s.disk a ∨ (∃ o, s'.disk a = s.memory pfn o) ∨
        ∃ i, lo ≤ i ∧ i < lo + (count - lo) / pageSize * pageSize ∧
          some (s'.disk a) = s.load m (buf + i) := by
  rw [Io.readWriteMiddle]
  by_cases hzero : count - lo = 0
  · rw [if_pos hzero,hzero]
    exact ⟨s,rfl,fun _ => .inl rfl⟩
  · let size := (count - lo) / pageSize * pageSize
    have hsize : size ≤ count - lo := Nat.div_mul_le_self _ _
    have hrest : count - lo - size < pageSize := by
      have hmod := Nat.div_add_mod' (count - lo) pageSize
      have hlt := Nat.mod_lt (count - lo) pageSize_pos
      omega
    obtain ⟨s₁,hs₁,hcopied⟩ := copied_blocks (s := s) (offset / pageSize)
      (n := (count - lo) / pageSize) (haligned.resolve_right (by omega)) (hm.of_lt (by omega))
    have hfrom : ∀ a, s₁.disk a = s.disk a ∨ ∃ i, lo ≤ i ∧ i < lo + size ∧
        some (s₁.disk a) = s.load m (buf + i) := by
      intro a
      by_cases hin : offset / pageSize * pageSize ≤ a ∧ a < offset / pageSize * pageSize + size
      · have hload := hcopied.inside (a - offset / pageSize * pageSize) (by omega)
        rw [Nat.add_sub_of_le hin.1,Nat.add_assoc] at hload
        exact .inr ⟨_,Nat.le_add_right _ _,by omega,hload⟩
      · exact .inl (hcopied.outside a (by rw [Nat.add_mul]; omega))
    rw [if_neg hzero,hs₁]
    dsimp only
    rw [if_neg (by decide),Io.readWriteTail]
    by_cases htail : count - lo - size = 0
    · rw [if_pos htail]
      refine ⟨s₁,?_,fun a => ?_⟩
      · rw [show (count - lo) / pageSize * pageSize = count - lo from
          Nat.le_antisymm hsize (Nat.le_of_sub_eq_zero htail)]
      · rcases hfrom a with h | h
        · exact .inl h
        · exact .inr (.inr h)
    · obtain ⟨s₂,hs₂,hdumped⟩ := dumped_partial (s := s₁) pfn (offset + size) _
        (hm.of_lt (show lo + size + (count - lo - size) ≤ count by omega))
      refine ⟨s₂,?_,fun a => ?_⟩
      · rw [if_neg htail,Nat.min_eq_left (Nat.le_of_lt hrest),Nat.add_assoc,hs₂,Option.bind_eq_bind,
          Option.bind_some]
        congr 2
        omega
      · rw [hdumped.disk]
        split_ifs
        · rw [hcopied.memory]
          exact .inr (.inl ⟨_,rfl⟩)
        · rcases hfrom a with h | h
          · exact .inl h
          · exact .inr (.inr h)

theorem write_from (second offset : Nat) (hfirst : Spare m buf count first) (hne : first ≠ second) :
    ∃ s', s.readWrite m first second buf count offset .write = some (s',(count : Int)) ∧
      ∀ a, s'.disk a = s.disk a ∨ (∃ o, s'.disk a = s.memory first o) ∨
        (∃ o, s'.disk a = s.memory second o) ∨
        ∃ i, headSize buf count ≤ i ∧
          i < headSize buf count + (count - headSize buf count) / pageSize * pageSize ∧
          some (s'.disk a) = s.load m (buf + i) := by
  rw [Io.readWrite]
  by_cases hbuf : buf % pageSize = 0
  · have hhead : headSize buf count = 0 := if_pos hbuf
    obtain ⟨s',hs',hfrom⟩ := writeMiddle_from (s := s) hm second offset 0 0
      (Nat.zero_le _) (.inl hbuf)
    rw [hhead]
    refine ⟨s',?_,fun a => ?_⟩
    · rw [if_pos hbuf]
      simpa using hs'
    · rcases hfrom a with h | h | h
      · exact .inl h
      · exact .inr (.inr (.inl h))
      · exact .inr (.inr (.inr h))
  · have hhead : headSize buf count = min (pageSize - buf % pageSize) count := if_neg hbuf
    have hle : headSize buf count ≤ count := headSize_le
    obtain ⟨s₁,hs₁,hdumped⟩ := dumped_partial (s := s) first offset _
      (hm.of_lt (show 0 + headSize buf count ≤ count by omega))
    obtain ⟨s₂,hs₂,hfrom⟩ := writeMiddle_from (s := s₁) hm second
      (offset + headSize buf count) (headSize buf count) (headSize buf count) hle head_aligned
    rw [Nat.add_zero] at hs₁
    refine ⟨s₂,?_,fun a => ?_⟩
    · rw [if_neg hbuf,← hhead]
      dsimp only
      rw [hs₁,Option.bind_eq_bind,Option.bind_some,hs₂,Nat.add_sub_of_le hle]
    · rw [hdumped.memory second hne.symm] at hfrom
      rcases hfrom a with h | h | ⟨i,hi₁,hi₂,hload⟩
      · rw [h,hdumped.disk]
        split_ifs
        · exact .inr (.inl ⟨_,rfl⟩)
        · exact .inl rfl
      · exact .inr (.inr (.inl h))
      · have hsize := Nat.div_mul_le_self (count - headSize buf count) pageSize
        rw [hdumped.load hfirst (by omega)] at hload
        exact .inr (.inr (.inr ⟨i,hi₁,hi₂,hload⟩))

end Buffer

def Aligned (buf count offset : Nat) : Direction → Prop
  | .read => count = 0 ∨
      offset % pageSize = 0 ∧ (buf % pageSize = 0 ∨ buf % pageSize + count ≤ pageSize)
  | .write => buf % pageSize = 0 ∧ (count = 0 ∨ count % pageSize = 0 ∧ offset % pageSize = 0)

def Correct (buf count offset : Nat) (direction : Direction) : Prop :=
  ∀ s m first second, Mapped m buf count → Spare m buf count first → Spare m buf count second →
    ∃ s', s.readWrite m first second buf count offset direction = some (s',(count : Int)) ∧
      Serves s s' m buf count offset direction

def shifted : Pagemap := ⟨fun page => some (page + 2)⟩

theorem shifted_mapped (buf count : Nat) : Mapped shifted buf count := by
  refine ⟨fun v _ _ => ⟨_,rfl⟩,?_⟩
  intro v v' _ _ _ _ heq
  exact Nat.add_right_cancel (Option.some.inj heq)

theorem shifted_spare (hpfn : pfn < 2) : Spare shifted buf count pfn := by
  intro v _ _ heq
  have hv : v / pageSize + 2 = pfn := Option.some.inj heq
  have hle : 2 ≤ v / pageSize + 2 := Nat.le_add_left _ _
  omega

def markBuffer (virt : Nat) : Io :=
  ⟨fun _ => 0,fun f o => if f = virt / pageSize + 2 ∧ o = virt % pageSize then 1 else 0⟩

def markDisk (a : Nat) : Io := ⟨fun x => if x = a then 1 else 0,fun _ _ => 0⟩

def markSpare : Io := ⟨fun _ => 0,fun f _ => if f = 0 then 1 else 0⟩

theorem markBuffer_load {virt v : Nat} :
    (markBuffer virt).load shifted v = some (if v = virt then 1 else 0) := by
  simp only [Io.load,shifted,markBuffer,Option.map_some,Option.some.injEq]
  by_cases hv : v = virt
  · subst hv
    simp
  · rw [if_neg hv,if_neg]
    rintro ⟨hpage,hoffset⟩
    exact hv (eq_of_page (Nat.add_right_cancel hpage) hoffset)

theorem source_eq_iff : (∀ i < count, source buf count offset i = offset + i) ↔
    Aligned buf count offset .read := by
  have hpos := pageSize_pos
  constructor
  · intro h
    by_cases hzero : count = 0
    · exact .inl hzero
    · refine .inr ?_
      have h0 := h 0 (by omega)
      have hstart : source buf count offset 0 = offset / pageSize * pageSize := by
        by_cases hbuf : buf % pageSize = 0
        · simp [source,headSize,hbuf]
        · have hlt := Nat.mod_lt buf hpos
          have hhead : headSize buf count = min (pageSize - buf % pageSize) count := if_neg hbuf
          rw [source,if_pos (by omega),Nat.add_zero]
      have hoffset : offset % pageSize = 0 := by
        have hmod := Nat.div_add_mod' offset pageSize
        omega
      refine ⟨hoffset,?_⟩
      by_contra hwide
      rw [not_or] at hwide
      have hhead : headSize buf count = pageSize - buf % pageSize := by
        rw [headSize,if_neg hwide.1]
        exact Nat.min_eq_left (by omega)
      have hnext := h (pageSize - buf % pageSize) (by omega)
      rw [source,hhead,if_neg (Nat.lt_irrefl _)] at hnext
      simp only [pageSize] at *
      omega
  · rintro (hzero | ⟨hoffset,hbuf⟩) i hi
    · omega
    · rw [source]
      split_ifs with hhead
      · simp only [pageSize] at *
        omega
      · have hsize : headSize buf count = 0 := by
          rw [headSize] at hhead ⊢
          split_ifs at hhead ⊢ with hb
          · rfl
          · have := hbuf.resolve_left hb
            omega
        rw [hsize]
        simp only [pageSize] at *
        omega

theorem read_correct_iff : Correct buf count offset .read ↔ Aligned buf count offset .read := by
  rw [← source_eq_iff]
  constructor
  · intro h i hi
    obtain ⟨s',hs',hreads⟩ := h (markDisk (offset + i)) shifted 0 1 (shifted_mapped _ _)
      (shifted_spare (by omega)) (shifted_spare (by omega))
    obtain ⟨t,ht,hfill⟩ := read_filled (s := markDisk (offset + i)) offset
      (shifted_mapped buf count) (shifted_spare (by omega : 0 < 2))
      (shifted_spare (by omega : 1 < 2))
    cases hs'.symm.trans ht
    have hbyte := (hreads.buffer i hi).symm.trans (hfill.inside i (Nat.zero_le _) hi)
    simp only [markDisk,Option.some.injEq,if_true] at hbyte
    by_contra hne
    rw [if_neg hne] at hbyte
    exact absurd hbyte (by decide)
  · intro h s m first second hm hfirst hsecond
    obtain ⟨s',hs',hfill⟩ := read_filled (s := s) offset hm hfirst hsecond
    refine ⟨s',hs',⟨fun i hi => ?_⟩⟩
    rw [hfill.inside i (Nat.zero_le _) hi,h i hi]

theorem write_loses {i : Nat} (hi : i < count) (hout : i < headSize buf count ∨
    headSize buf count + (count - headSize buf count) / pageSize * pageSize ≤ i) :
    ¬Correct buf count offset .write := by
  intro h
  obtain ⟨s',hs',hwrites⟩ := h (markBuffer (buf + i)) shifted 0 1 (shifted_mapped _ _)
    (shifted_spare (by omega)) (shifted_spare (by omega))
  obtain ⟨t,ht,hfrom⟩ := write_from (s := markBuffer (buf + i)) (shifted_mapped buf count)
    1 offset
    (shifted_spare (by omega : 0 < 2)) (by decide)
  cases hs'.symm.trans ht
  have hbyte := hwrites.inside i hi
  rw [markBuffer_load,if_pos rfl] at hbyte
  have hone : s'.disk (offset + i) = 1 := Option.some.inj hbyte
  have hspare : ∀ f < 2, ∀ o, (markBuffer (buf + i)).memory f o = 0 := by
    intro f hf o
    simp only [markBuffer]
    rw [if_neg]
    rintro ⟨heq,-⟩
    have hle : 2 ≤ (buf + i) / pageSize + 2 := Nat.le_add_left _ _
    omega
  rcases hfrom (offset + i) with hd | ⟨o,hd⟩ | ⟨o,hd⟩ | ⟨j,hj₁,hj₂,hload⟩
  · rw [hone] at hd
    exact absurd (show (1 : UInt8) = 0 from hd) (by decide)
  · rw [hone,hspare 0 (by decide)] at hd
    exact absurd hd (by decide)
  · rw [hone,hspare 1 (by decide)] at hd
    exact absurd hd (by decide)
  · rw [markBuffer_load,hone,if_neg (by omega)] at hload
    exact absurd (Option.some.inj hload) (by decide)

theorem write_dirty (hbuf : buf % pageSize ≠ 0) : ¬Correct buf 0 offset .write := by
  intro h
  obtain ⟨s',hs',hwrites⟩ := h markSpare shifted 0 1 (shifted_mapped _ _) (shifted_spare (by omega))
    (shifted_spare (by omega))
  obtain ⟨t,ht,hdumped⟩ := dumped_partial (s := markSpare) (m := shifted) 0 offset buf
    (n := 0) fun i hi => by omega
  have hrun : markSpare.readWrite shifted 0 1 buf 0 offset .write = some (t,0) := by
    rw [Io.readWrite,if_neg hbuf]
    dsimp only
    rw [Nat.min_zero,ht]
    rfl
  cases hs'.symm.trans hrun
  have hkept := hwrites.outside (offset / pageSize * pageSize) (by omega)
  rw [hdumped.disk,if_pos (Nat.mul_div_cancel _ pageSize_pos)] at hkept
  exact absurd (show (1 : UInt8) = 0 from hkept) (by decide)

theorem write_aligned (first second offset : Nat) (hm : Mapped m buf count) (hbuf : buf % pageSize = 0)
    (hcount : count % pageSize = 0) :
    ∃ s', s.readWrite m first second buf count offset .write = some (s',(count : Int)) ∧
      Copied s s' m buf (offset / pageSize) (count / pageSize) := by
  have hfull : count / pageSize * pageSize = count :=
    Nat.div_mul_cancel (Nat.dvd_of_mod_eq_zero hcount)
  obtain ⟨s',hs',hcopied⟩ := copied_blocks (s := s) (m := m) (offset / pageSize)
    (n := count / pageSize) hbuf fun i hi => hm.frame _ (Nat.le_add_right _ _) (by omega)
  refine ⟨s',?_,hcopied⟩
  rw [Io.readWrite,if_pos hbuf,Io.readWriteMiddle]
  by_cases hzero : count = 0
  · subst hzero
    rw [if_pos rfl]
    rw [Nat.zero_div] at hs'
    have hsame : s = s' := congrArg Prod.fst hs'
    rw [hsame]
  · rw [if_neg hzero,hs']
    dsimp only
    rw [if_neg (by decide),Io.readWriteTail,if_pos (by omega),hfull,Nat.zero_add]

theorem write_misplaced (hbuf : buf % pageSize = 0) (hcount : count % pageSize = 0)
    (hpos : 0 < count) (hoffset : offset % pageSize ≠ 0) : ¬Correct buf count offset .write := by
  intro h
  obtain ⟨s',hs',hwrites⟩ := h (markBuffer buf) shifted 0 1 (shifted_mapped _ _) (shifted_spare (by omega))
    (shifted_spare (by omega))
  obtain ⟨t,ht,hcopied⟩ := write_aligned (s := markBuffer buf) (m := shifted) 0 1 offset
    (shifted_mapped _ _) hbuf hcount
  cases hs'.symm.trans ht
  have hbyte := hcopied.inside 0 (by
    rw [Nat.div_mul_cancel (Nat.dvd_of_mod_eq_zero hcount)]
    exact hpos)
  have hmod := Nat.div_add_mod' offset pageSize
  rw [Nat.add_zero,hwrites.outside _ (by omega),Nat.add_zero,markBuffer_load,if_pos rfl] at hbyte
  exact absurd (Option.some.inj hbyte) (by decide : ¬(0 : UInt8) = 1)

theorem write_correct_iff : Correct buf count offset .write ↔ Aligned buf count offset .write := by
  have hps := pageSize_pos
  constructor
  · intro h
    by_cases hzero : count = 0
    · subst hzero
      refine ⟨?_,.inl rfl⟩
      by_contra hbuf
      exact write_dirty hbuf h
    · have hbuf : buf % pageSize = 0 := by
        by_contra hbuf
        have hlt := Nat.mod_lt buf hps
        have hhead : headSize buf count = min (pageSize - buf % pageSize) count := if_neg hbuf
        exact write_loses (by omega : 0 < count) (.inl (by omega)) h
      have hhead : headSize buf count = 0 := if_pos hbuf
      have hcount : count % pageSize = 0 := by
        by_contra hcount
        have hdiv := Nat.div_add_mod' count pageSize
        refine write_loses (by omega : count - 1 < count) (.inr ?_) h
        rw [hhead,Nat.zero_add,Nat.sub_zero]
        omega
      refine ⟨hbuf,.inr ⟨hcount,?_⟩⟩
      by_contra hoffset
      exact write_misplaced hbuf hcount (by omega) hoffset h
  · rintro ⟨hbuf,halign⟩ s m first second hm hfirst hsecond
    have hcount : count % pageSize = 0 := by
      rcases halign with rfl | ⟨hcount,-⟩
      · rfl
      · exact hcount
    obtain ⟨s',hs',hcopied⟩ := write_aligned (s := s) first second offset
      hm hbuf hcount
    have hfull : count / pageSize * pageSize = count :=
      Nat.div_mul_cancel (Nat.dvd_of_mod_eq_zero hcount)
    refine ⟨s',hs',?_,?_⟩
    · intro i hi
      rcases halign with hzero | ⟨-,hoffset⟩
      · omega
      · have hinside := hcopied.inside i (by omega)
        rwa [Nat.div_mul_cancel (Nat.dvd_of_mod_eq_zero hoffset)] at hinside
    · intro a ha
      rcases halign with hzero | ⟨-,hoffset⟩
      · subst hzero
        refine hcopied.outside a ?_
        rw [Nat.zero_div,Nat.add_zero]
        omega
      · refine hcopied.outside a ?_
        rwa [Nat.add_mul,Nat.div_mul_cancel (Nat.dvd_of_mod_eq_zero hoffset),hfull]

theorem read_write_correct_iff (buf count offset : Nat) (direction : Direction) :
    Correct buf count offset direction ↔ Aligned buf count offset direction := by
  cases direction with
  | read => exact read_correct_iff
  | write => exact write_correct_iff

theorem write_partial_wrong : ¬Correct 4096 4 0 .write := by
  rw [write_correct_iff]
  exact show ¬(_ ∧ (_ ∨ _ ∧ _)) from by decide

end SabaOS.Dev
