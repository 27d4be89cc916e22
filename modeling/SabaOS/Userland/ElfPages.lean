import SabaOS.Sched.FrameLayout
import SabaOS.Userland.Elf

namespace SabaOS.Elf

open SabaOS.Klib SabaOS.Lib SabaOS.Sched

namespace ProgramHeader

def misalign (ph : ProgramHeader) : UInt64 := ph.virtAddr &&& 0xfff

def memPages (ph : ProgramHeader) : UInt64 := pageCount ph.memSize ph.misalign

def filePages (ph : ProgramHeader) : UInt64 := pageCount ph.fileSize ph.misalign

def filled (ph : ProgramHeader) (i : UInt64) : UInt64 :=
  if i = 0 ∨ ph.filePages = 0 then 0
  else if i < ph.filePages then i * 4096 - ph.misalign
  else ph.fileSize

end ProgramHeader

section Words

theorem pageCount_toNat (size misalign : UInt64) :
    (pageCount size misalign).toNat = (size.toNat + misalign.toNat + 4095) % 2 ^ 64 / 4096 := by
  have h : (4096 : UInt64).toNat = 4096 := rfl
  have h1 : (1 : UInt64).toNat = 1 := rfl
  rw [pageCount,UInt64.toNat_div,UInt64.toNat_sub,UInt64.toNat_add,UInt64.toNat_add,h,h1]
  omega

theorem pageCount_lt (size misalign : UInt64) : (pageCount size misalign).toNat < 2 ^ 52 := by
  rw [pageCount_toNat]
  omega

theorem misalign_toNat (ph : ProgramHeader) : ph.misalign.toNat = ph.virtAddr.toNat % 4096 := by
  have h : (0xfff : UInt64).toNat = 2 ^ 12 - 1 := rfl
  rw [ProgramHeader.misalign,UInt64.toNat_and,h,Nat.and_two_pow_sub_one_eq_mod]

theorem toUInt64_toNat {n : Nat} (h : n < 2 ^ 64) : n.toUInt64.toNat = n :=
  UInt64.toNat_ofNat'.trans (Nat.mod_eq_of_lt h)

theorem toUInt64_succ (n : Nat) : (n + 1).toUInt64 = n.toUInt64 + 1 := UInt64.ofNat_add n 1

theorem pages_toNat {n : Nat} (h : n < 2 ^ 52) : (n.toUInt64 * 4096).toNat = n * 4096 := by
  have h4096 : (4096 : UInt64).toNat = 4096 := rfl
  rw [UInt64.toNat_mul,toUInt64_toNat (by omega),h4096]
  omega

variable {i f : UInt64}

theorem succ_toNat (hi : i.toNat < 2 ^ 52) : (i + 1).toNat = i.toNat + 1 := by
  have h1 : (1 : UInt64).toNat = 1 := rfl
  rw [UInt64.toNat_add,h1]
  omega

theorem succ_lt_iff (hi : i.toNat < 2 ^ 52) (h : i < f) : i + 1 < f ↔ i ≠ f - 1 := by
  have h1 : (1 : UInt64).toNat = 1 := rfl
  have hif := UInt64.lt_iff_toNat_lt.mp h
  have hf := f.toNat_lt
  rw [UInt64.lt_iff_toNat_lt,succ_toNat hi,ne_eq,← UInt64.toNat_inj,UInt64.toNat_sub,h1]
  omega

theorem succ_ne_zero (hi : i.toNat < 2 ^ 52) : i + 1 ≠ 0 := by
  have h0 : (0 : UInt64).toNat = 0 := rfl
  rw [ne_eq,← UInt64.toNat_inj,succ_toNat hi,h0]
  omega

theorem ne_zero_of_lt (h : i < f) : f ≠ 0 := by
  have h0 : (0 : UInt64).toNat = 0 := rfl
  have hif := UInt64.lt_iff_toNat_lt.mp h
  rw [ne_eq,← UInt64.toNat_inj,h0]
  omega

end Words

namespace ProgramHeader

variable {ph : ProgramHeader} {i : UInt64}

@[simp] theorem filled_zero : ph.filled 0 = 0 := if_pos (.inl rfl)

theorem filled_of_lt (h0 : i ≠ 0) (h : i < ph.filePages) :
    ph.filled i = i * 4096 - ph.misalign := by
  rw [filled,if_neg (not_or.mpr ⟨h0,ne_zero_of_lt h⟩),if_pos h]

theorem filled_of_not_lt (h0 : i ≠ 0) (hf : ph.filePages ≠ 0) (h : ¬ i < ph.filePages) :
    ph.filled i = ph.fileSize := by
  rw [filled,if_neg (not_or.mpr ⟨h0,hf⟩),if_neg h]

theorem filled_idle (hi : i.toNat < 2 ^ 52) (h : ¬ i < ph.filePages) :
    ph.filled (i + 1) = ph.filled i := by
  rw [UInt64.lt_iff_toNat_lt] at h
  rcases eq_or_ne ph.filePages 0 with hf | hf
  · rw [filled,filled,if_pos (.inr hf),if_pos (.inr hf)]
  have h0 : i ≠ 0 := by
    rintro rfl
    refine hf (UInt64.toNat_inj.mp (Nat.eq_zero_of_le_zero ?_))
    exact Nat.le_of_not_lt h
  have hs : ¬ i + 1 < ph.filePages := by
    rw [UInt64.lt_iff_toNat_lt,succ_toNat hi]
    omega
  rw [filled_of_not_lt (succ_ne_zero hi) hf hs,
    filled_of_not_lt h0 hf (by rwa [UInt64.lt_iff_toNat_lt])]

theorem filled_size (hi : i.toNat < 2 ^ 52) (h : i < ph.filePages) :
    (if i = ph.filePages - 1 then ph.fileSize - ph.filled i
      else if i = 0 then 4096 - ph.misalign else 4096) = ph.filled (i + 1) - ph.filled i := by
  have hf := ne_zero_of_lt h
  split_ifs with hl h0
  · rw [filled_of_not_lt (succ_ne_zero hi) hf fun hs => (succ_lt_iff hi h).mp hs hl]
  · rw [filled_of_lt (succ_ne_zero hi) ((succ_lt_iff hi h).mpr hl),h0,filled_zero]
    grind
  · rw [filled_of_lt (succ_ne_zero hi) ((succ_lt_iff hi h).mpr hl),filled_of_lt h0 h]
    grind

theorem filled_place (first : UInt64) (h : i < ph.filePages) :
    (if i = 0 then (first + i * 4096 + ph.misalign,4096 - ph.misalign,ph.offset + i * 4096)
      else (first + i * 4096,4096,ph.offset + i * 4096 - ph.misalign)) =
      (first + ph.misalign + ph.filled i,if i = 0 then 4096 - ph.misalign else 4096,
        ph.offset + ph.filled i) := by
  split_ifs with h0
  · rw [h0,filled_zero]
    simp
  · rw [filled_of_lt h0 h]
    refine Prod.ext ?_ (Prod.ext rfl ?_)
    · dsimp only
      grind
    · dsimp only
      grind

end ProgramHeader

section Pages

def raised (pageVirt firstFree : UInt64) : UInt64 :=
  if pageVirt ≥ firstFree then pageVirt + 4096 else firstFree

def pageBytes (file : File) (ph : ProgramHeader) (base i : UInt64) (bytes : Bytes) : Bytes :=
  let cleared := memset bytes (alignDown64 base 4096 + i * 4096).toNat 0 4096
  if i < ph.filePages then
    copyIn cleared (alignDown64 base 4096 + ph.misalign + ph.filled i).toNat
      (file.read (ph.filled (i + 1) - ph.filled i) (ph.offset + ph.filled i))
  else cleared

variable {file : File} {ph : ProgramHeader} {base : UInt64} {image : Image} {firstFree : UInt64}

theorem loadPage_filled (i : UInt64) (hi : i.toNat < 2 ^ 52) :
    loadPage file ph base i (image,ph.filled i,firstFree) =
      ({ image with bytes := pageBytes file ph base i image.bytes },ph.filled (i + 1),
        raised (base + i * 4096) firstFree) := by
  have hm : ph.virtAddr &&& 0xfff = ph.misalign := rfl
  have hf : pageCount ph.fileSize ph.misalign = ph.filePages := rfl
  simp only [loadPage,pageBytes,hm,hf]
  rcases Classical.em (i < ph.filePages) with h | h
  · have ht : ph.filled i + (ph.filled (i + 1) - ph.filled i) = ph.filled (i + 1) := by grind
    rw [if_pos h,if_pos h,ph.filled_place _ h]
    dsimp only
    rw [ph.filled_size hi h,ht]
    rfl
  · rw [if_neg h,if_neg h,ph.filled_idle hi h]
    rfl

def pagesBytes (file : File) (ph : ProgramHeader) (base : UInt64) (bytes : Bytes) : Nat → Bytes
  | 0 => bytes
  | n + 1 => pageBytes file ph base n.toUInt64 (pagesBytes file ph base bytes n)

def raisedPages (base firstFree : UInt64) : Nat → UInt64
  | 0 => firstFree
  | n + 1 => raised (base + n.toUInt64 * 4096) (raisedPages base firstFree n)

theorem loadPages_filled {n : Nat} (hn : n ≤ 2 ^ 52) :
    loadPages file ph base (image,0,firstFree) n =
      ({ image with bytes := pagesBytes file ph base image.bytes n },ph.filled n.toUInt64,
        raisedPages base firstFree n) := by
  induction n with
  | zero =>
    rw [show (0 : Nat).toUInt64 = 0 from rfl,ph.filled_zero]
    rfl
  | succ n ih =>
    have hlt : n.toUInt64.toNat < 2 ^ 52 := by
      rw [toUInt64_toNat (by omega)]
      omega
    rw [loadPages,ih (by omega),loadPage_filled n.toUInt64 hlt,toUInt64_succ]
    rfl

def segmentBase (loadBase : UInt64) (ph : ProgramHeader) : UInt64 := loadBase + ph.virtAddr

theorem loadSegment_eq (loadBase : UInt64) (l : Loading) : loadSegment file ph loadBase l =
    let base := segmentBase loadBase ph
    if ph.filled ph.memPages = ph.fileSize then
      some { l with
        image :=
          { ranges := (alignDown64 base 4096,ph.memPages * 4096,pageFlags) :: l.image.ranges
            bytes := pagesBytes file ph base l.image.bytes ph.memPages.toNat }
        firstFreeVirt := raisedPages base l.firstFreeVirt ph.memPages.toNat
        fileVirtBase := min l.fileVirtBase base }
    else none := by
  have hm : pageCount ph.memSize (ph.virtAddr &&& 0xfff) = ph.memPages := rfl
  have hle : ph.memPages.toNat ≤ 2 ^ 52 := (pageCount_lt _ _).le
  simp only [loadSegment,hm,loadPages_filled hle,Nat.toUInt64_eq,UInt64.ofNat_toNat]
  rfl

end Pages

namespace ProgramHeader

variable {ph : ProgramHeader} {i : UInt64}

theorem memPages_lt (ph : ProgramHeader) : ph.memPages.toNat < 2 ^ 52 := pageCount_lt _ _

theorem misalign_lt (ph : ProgramHeader) : ph.misalign.toNat < 4096 := by
  rw [misalign_toNat]
  exact Nat.mod_lt _ (by decide)

theorem filled_toNat (h0 : i ≠ 0) (h : i < ph.filePages) :
    (ph.filled i).toNat = i.toNat * 4096 - ph.misalign.toNat ∧
      i.toNat * 4096 < ph.misalign.toNat + ph.fileSize.toNat := by
  have hm := ph.misalign_lt
  have hs := ph.fileSize.toNat_lt
  have hlt : i.toNat < (ph.fileSize.toNat + ph.misalign.toNat + 4095) % 2 ^ 64 / 4096 := by
    rw [← pageCount_toNat]
    exact UInt64.lt_iff_toNat_lt.mp h
  have hpos : 0 < i.toNat := Nat.pos_of_ne_zero fun hz => h0 (UInt64.toNat_inj.mp hz)
  have h4096 : (4096 : UInt64).toNat = 4096 := rfl
  rw [filled_of_lt h0 h,UInt64.toNat_sub,UInt64.toNat_mul,h4096]
  omega

theorem filled_min {n : Nat} (hw : ph.fileSize.toNat + ph.misalign.toNat + 4095 < 2 ^ 64)
    (hn : n < 2 ^ 52) :
    (ph.filled n.toUInt64).toNat = min ph.fileSize.toNat (n * 4096 - ph.misalign.toNat) := by
  have hm := ph.misalign_lt
  have hp : ph.filePages.toNat = (ph.fileSize.toNat + ph.misalign.toNat + 4095) / 4096 := by
    rw [filePages,pageCount_toNat]
    omega
  have h0 : (0 : UInt64).toNat = 0 := rfl
  have hnn : n.toUInt64.toNat = n := toUInt64_toNat (by omega)
  rcases eq_or_ne n.toUInt64 0 with hz | hz
  · rw [hz,filled_zero,h0]
    rw [hz,h0] at hnn
    omega
  rcases eq_or_ne ph.filePages 0 with hfz | hfz
  · rw [filled,if_pos (.inr hfz),h0]
    rw [hfz,h0] at hp
    omega
  rcases Classical.em (n.toUInt64 < ph.filePages) with hlt | hlt
  · obtain ⟨hv,hle⟩ := filled_toNat hz hlt
    rw [hnn] at hv hle
    omega
  · rw [filled_of_not_lt hz hfz hlt]
    rw [UInt64.lt_iff_toNat_lt,hnn] at hlt
    omega

theorem filled_all_iff (ph : ProgramHeader) : ph.filled ph.memPages = ph.fileSize ↔
    ph.fileSize = 0 ∨ 0 < ph.filePages ∧ ph.filePages ≤ ph.memPages := by
  have hm := ph.misalign_lt
  have hs := ph.fileSize.toNat_lt
  have hf : ph.filePages.toNat = (ph.fileSize.toNat + ph.misalign.toNat + 4095) % 2 ^ 64 / 4096 :=
    pageCount_toNat _ _
  have h0 : (0 : UInt64).toNat = 0 := rfl
  rw [← UInt64.toNat_inj,← UInt64.toNat_inj,UInt64.lt_iff_toNat_lt,UInt64.le_iff_toNat_le,h0]
  rcases eq_or_ne ph.memPages 0 with hz | hz
  · rw [hz,filled_zero,h0]
    omega
  rcases eq_or_ne ph.filePages 0 with hfz | hfz
  · rw [filled,if_pos (.inr hfz),hfz,h0]
    omega
  have hpos : 0 < ph.filePages.toNat := Nat.pos_of_ne_zero fun h => hfz (UInt64.toNat_inj.mp h)
  rcases Classical.em (ph.memPages < ph.filePages) with h | h
  · have hlt := UInt64.lt_iff_toNat_lt.mp h
    have hmz : ph.memPages.toNat ≠ 0 := fun h => hz (UInt64.toNat_inj.mp h)
    obtain ⟨hv,_⟩ := filled_toNat hz h
    omega
  · rw [filled_of_not_lt hz hfz h]
    rw [UInt64.lt_iff_toNat_lt] at h
    omega

end ProgramHeader

end SabaOS.Elf
