import SabaOS.Lib.Layers
import SabaOS.Userland.ElfPages

namespace SabaOS.Elf

open SabaOS.Klib SabaOS.Lib SabaOS.Sched

structure File.Stores (file : File) (content : List UInt8) : Prop where
  size : content.length < 2 ^ 64
  read : ∀ count offset : UInt64, offset.toNat + count.toNat ≤ content.length →
    file.read count offset = (content.drop offset.toNat).take count.toNat

def pagesOf (base : UInt64) (ph : ProgramHeader) : Set Nat :=
  Set.Ico (alignDown64 base 4096).toNat ((alignDown64 base 4096).toNat + ph.memPages.toNat * 4096)

def bytesOf (base : UInt64) (ph : ProgramHeader) : Set Nat :=
  Set.Ico base.toNat (base.toNat + ph.memSize.toNat)

def segmentByte (content : List UInt8) (ph : ProgramHeader) (k : Nat) : UInt8 :=
  if k < ph.fileSize.toNat then content.getD (ph.offset.toNat + k) 0 else 0

structure Placed (content : List UInt8) (base : UInt64) (ph : ProgramHeader) : Prop where
  aligned : base.toNat % 4096 = ph.virtAddr.toNat % 4096
  fits : base.toNat + ph.memSize.toNat + 3 * 4096 ≤ 2 ^ 64
  sized : ph.fileSize ≤ ph.memSize
  present : ph.offset.toNat + ph.fileSize.toNat ≤ content.length

namespace Placed

variable {file : File} {content : List UInt8} {base : UInt64} {ph : ProgramHeader} {bytes : Bytes}
  {n a : Nat}

theorem base_eq (h : Placed content base ph) :
    (alignDown64 base 4096).toNat + ph.misalign.toNat = base.toNat := by
  have h4096 : (4096 : UInt64).toNat = 4096 := rfl
  rw [alignDown64_toNat,misalign_toNat,← h.aligned,h4096]
  omega

theorem memPages_toNat (h : Placed content base ph) :
    ph.memPages.toNat = (ph.memSize.toNat + ph.misalign.toNat + 4095) / 4096 := by
  have hb := h.base_eq
  have hf := h.fits
  have hm := ph.misalign_lt
  rw [ProgramHeader.memPages,pageCount_toNat]
  omega

theorem filled_toNat (h : Placed content base ph) (hn : n < 2 ^ 52) :
    (ph.filled n.toUInt64).toNat = min ph.fileSize.toNat (n * 4096 - ph.misalign.toNat) := by
  have hf := h.fits
  have hb := h.base_eq
  have hs := UInt64.le_iff_toNat_le.mp h.sized
  exact ProgramHeader.filled_min (by omega) hn

theorem pageBytes_eq (h : Placed content base ph) (hst : file.Stores content)
    (hn : n < ph.memPages.toNat) : pageBytes file ph base n.toUInt64 bytes a =
      let page := (alignDown64 base 4096).toNat + n * 4096
      let start := base.toNat + (ph.filled n.toUInt64).toNat
      if start ≤ a ∧ a < base.toNat + (ph.filled (n + 1).toUInt64).toNat then
        content.getD (ph.offset.toNat + (a - base.toNat)) 0
      else if page ≤ a ∧ a < page + 4096 then 0 else bytes a := by
  have hlt : n < 2 ^ 52 := hn.trans ph.memPages_lt
  have hb := h.base_eq
  have hf := h.fits
  have hp := h.present
  have hm := h.memPages_toNat
  have hml := ph.misalign_lt
  have hs := hst.size
  have hF := h.filled_toNat hlt
  have hF' := h.filled_toNat (show n + 1 < 2 ^ 52 from lt_of_le_of_lt hn ph.memPages_lt)
  have hdst : (alignDown64 base 4096 + n.toUInt64 * 4096).toNat =
      (alignDown64 base 4096).toNat + n * 4096 := by
    rw [UInt64.toNat_add,pages_toNat hlt]
    omega
  have hi : n.toUInt64.toNat < 2 ^ 52 := by rwa [toUInt64_toNat (by omega)]
  dsimp only
  rw [pageBytes,hdst]
  rcases Classical.em (n.toUInt64 < ph.filePages) with hlast | hlast
  · have hcopy : (alignDown64 base 4096 + ph.misalign + ph.filled n.toUInt64).toNat =
        base.toNat + (ph.filled n.toUInt64).toNat := by
      rw [UInt64.toNat_add,UInt64.toNat_add]
      omega
    have hcount : (ph.filled (n + 1).toUInt64 - ph.filled n.toUInt64).toNat =
        (ph.filled (n + 1).toUInt64).toNat - (ph.filled n.toUInt64).toNat := by
      rw [UInt64.toNat_sub]
      omega
    have hoff : (ph.offset + ph.filled n.toUInt64).toNat =
        ph.offset.toNat + (ph.filled n.toUInt64).toNat := by
      rw [UInt64.toNat_add]
      omega
    rw [if_pos hlast,← toUInt64_succ,hcopy,hst.read _ _ (by omega),hcount,hoff]
    simp only [copyIn,memset,List.length_take,List.length_drop]
    have hend : base.toNat + (ph.filled n.toUInt64).toNat +
        min ((ph.filled (n + 1).toUInt64).toNat - (ph.filled n.toUInt64).toNat)
          (content.length - (ph.offset.toNat + (ph.filled n.toUInt64).toNat)) =
        base.toNat + (ph.filled (n + 1).toUInt64).toNat := by
      omega
    rw [hend]
    split_ifs with hin
    · rw [List.getD_eq_getElem?_getD,List.getElem?_take_of_lt (by omega),List.getElem?_drop,
        ← List.getD_eq_getElem?_getD]
      congr 1
      omega
    all_goals rfl
  · rw [if_neg hlast]
    have hidle := ph.filled_idle hi hlast
    rw [← toUInt64_succ] at hidle
    rw [hidle,if_neg (by omega)]
    rfl

theorem pagesBytes_eq (h : Placed content base ph) (hst : file.Stores content)
    (hn : n ≤ ph.memPages.toNat) : pagesBytes file ph base bytes n a =
      let first := (alignDown64 base 4096).toNat
      if first ≤ a ∧ a < first + n * 4096 then
        if base.toNat ≤ a ∧ a < base.toNat + (ph.filled n.toUInt64).toNat then
          content.getD (ph.offset.toNat + (a - base.toNat)) 0
        else 0
      else bytes a := by
  induction n with
  | zero => rw [pagesBytes,if_neg (by omega)]
  | succ n ih =>
    have hlt := ph.memPages_lt
    have hb := h.base_eq
    have hm := ph.misalign_lt
    have hF := h.filled_toNat (show n < 2 ^ 52 by omega)
    have hF' := h.filled_toNat (show n + 1 < 2 ^ 52 by omega)
    rw [pagesBytes,h.pageBytes_eq hst hn,ih (by omega)]
    dsimp only
    split_ifs <;> first | rfl | omega

theorem filled_all (h : Placed content base ph) : ph.filled ph.memPages = ph.fileSize := by
  have hF := h.filled_toNat ph.memPages_lt
  have hs := UInt64.le_iff_toNat_le.mp h.sized
  have hm := h.memPages_toNat
  rw [Nat.toUInt64_eq,UInt64.ofNat_toNat] at hF
  rw [← UInt64.toNat_inj,hF]
  omega

theorem bytes_subset (h : Placed content base ph) : bytesOf base ph ⊆ pagesOf base ph := by
  have hb := h.base_eq
  have hm := h.memPages_toNat
  rintro a ⟨h1,h2⟩
  constructor <;> omega

end Placed

noncomputable def segmentLayer (content : List UInt8) (base : UInt64) (ph : ProgramHeader) :
    Layer Nat UInt8 0 where
  area := pagesOf base ph
  part := bytesOf base ph ∩ pagesOf base ph
  paint := fun a => open Classical in
    if a ∈ bytesOf base ph ∩ pagesOf base ph then segmentByte content ph (a - base.toNat) else 0
  inside := Set.inter_subset_right
  rest := fun _ ha => if_neg ha

namespace Placed

variable {file : File} {content : List UInt8} {base : UInt64} {ph : ProgramHeader} {bytes : Bytes}
  {n : Nat}

theorem part_eq (h : Placed content base ph) : (segmentLayer content base ph).part = bytesOf base ph :=
  Set.inter_eq_left.mpr h.bytes_subset

theorem paint_eq (h : Placed content base ph) {k : Nat} (hk : k < ph.memSize.toNat) :
    (segmentLayer content base ph).paint (base.toNat + k) = segmentByte content ph k := by
  have hmem : base.toNat + k ∈ bytesOf base ph := ⟨by omega,by omega⟩
  have hpaint : (segmentLayer content base ph).paint (base.toNat + k) =
      segmentByte content ph (base.toNat + k - base.toNat) := if_pos ⟨hmem,h.bytes_subset hmem⟩
  rw [hpaint,Nat.add_sub_cancel_left]

theorem pagesBytes_put (h : Placed content base ph) (hst : file.Stores content) :
    pagesBytes file ph base bytes ph.memPages.toNat =
      Layer.put bytes (segmentLayer content base ph) := by
  have hs := UInt64.le_iff_toNat_le.mp h.sized
  funext a
  rw [h.pagesBytes_eq hst le_rfl,Nat.toUInt64_eq,UInt64.ofNat_toNat,h.filled_all]
  dsimp only
  rcases Classical.em (a ∈ pagesOf base ph) with ha | ha
  · rw [Layer.put_of_mem ha,if_pos (Set.mem_Ico.mp ha)]
    rcases Classical.em (a ∈ bytesOf base ph) with hb | hb
    · obtain ⟨k,rfl⟩ := Nat.exists_eq_add_of_le hb.1
      have hk : k < ph.memSize.toNat := Nat.lt_of_add_lt_add_left hb.2
      rw [h.paint_eq hk,segmentByte,Nat.add_sub_cancel_left]
      refine if_congr ?_ rfl rfl
      omega
    · rw [(segmentLayer content base ph).rest a fun hp => hb hp.1,if_neg]
      rintro ⟨h1,h2⟩
      exact hb ⟨h1,by omega⟩
  · rw [Layer.put_of_notMem ha,if_neg (mt Set.mem_Ico.mpr ha)]

theorem page_toNat (h : Placed content base ph) (hn : n < ph.memPages.toNat) :
    (base + n.toUInt64 * 4096).toNat = base.toNat + n * 4096 ∧
      (base + n.toUInt64 * 4096 + 4096).toNat = base.toNat + n * 4096 + 4096 := by
  have hf := h.fits
  have hm := h.memPages_toNat
  have hml := ph.misalign_lt
  have h4096 : (4096 : UInt64).toNat = 4096 := rfl
  have hpage : (base + n.toUInt64 * 4096).toNat = base.toNat + n * 4096 := by
    rw [UInt64.toNat_add,pages_toNat (hn.trans ph.memPages_lt)]
    omega
  refine ⟨hpage,?_⟩
  rw [UInt64.toNat_add,hpage,h4096]
  omega

theorem raisedPages_bounds (h : Placed content base ph) (firstFree : UInt64)
    (hn : n ≤ ph.memPages.toNat) :
    firstFree ≤ raisedPages base firstFree n ∧
      (0 < n → base.toNat + (n - 1) * 4096 < (raisedPages base firstFree n).toNat) ∧
      (raisedPages base firstFree n).toNat ≤ max firstFree.toNat (base.toNat + n * 4096) := by
  induction n with
  | zero => exact ⟨UInt64.le_refl _,by omega,by simp [raisedPages]⟩
  | succ n ih =>
    obtain ⟨ih1,_,ih3⟩ := ih (by omega)
    obtain ⟨h1,h2⟩ := h.page_toNat hn
    rw [UInt64.le_iff_toNat_le] at ih1 ⊢
    rw [raisedPages,raised]
    split_ifs with hr
    · rw [ge_iff_le,UInt64.le_iff_toNat_le,h1] at hr
      rw [h2]
      omega
    · rw [ge_iff_le,UInt64.le_iff_toNat_le,h1] at hr
      omega

end Placed

end SabaOS.Elf
