import Mathlib.Tactic.Linarith
import Mathlib.Tactic.SplitIfs

namespace SabaOS.Klib

structure TimeSpec where
  seconds : Int64 := 0
  nanoseconds : Int64 := 0
deriving DecidableEq, Repr

namespace TimeSpec

def isZero (t : TimeSpec) : Bool := t.seconds = 0 && t.nanoseconds = 0

def addAssign (t rhs : TimeSpec) : TimeSpec :=
  let carried : TimeSpec :=
    if t.nanoseconds + rhs.nanoseconds > 999999999 then
      ⟨t.seconds + 1,(t.nanoseconds + rhs.nanoseconds) - 1000000000⟩
    else ⟨t.seconds,t.nanoseconds + rhs.nanoseconds⟩
  ⟨carried.seconds + rhs.seconds,carried.nanoseconds⟩

def subSeconds (t rhs : TimeSpec) : TimeSpec :=
  if rhs.seconds > t.seconds then {} else ⟨t.seconds - rhs.seconds,t.nanoseconds⟩

def subAssign (t rhs : TimeSpec) : TimeSpec :=
  if rhs.nanoseconds > t.nanoseconds then
    if t.seconds = 0 then {}
    else subSeconds ⟨t.seconds - 1,999999999 - (rhs.nanoseconds - t.nanoseconds)⟩ rhs
  else subSeconds ⟨t.seconds,t.nanoseconds - rhs.nanoseconds⟩ rhs

instance : Add TimeSpec := ⟨addAssign⟩

instance : Sub TimeSpec := ⟨subAssign⟩

theorem add_eq (a b : TimeSpec) : a + b = a.addAssign b := rfl

theorem sub_eq (a b : TimeSpec) : a - b = a.subAssign b := rfl

def perSecond : Int := 1000000000

def total (t : TimeSpec) : Int := t.seconds.toInt * perSecond + t.nanoseconds.toInt

structure Normalized (t : TimeSpec) : Prop where
  seconds : 0 ≤ t.seconds.toInt
  nanoseconds : 0 ≤ t.nanoseconds.toInt
  carried : t.nanoseconds.toInt < perSecond

def Borrows (a b : TimeSpec) : Prop :=
  a.nanoseconds.toInt < b.nanoseconds.toInt ∧ b.seconds.toInt < a.seconds.toInt

section Words

variable {a b : Int64}

theorem toInt_sum (hl : -2 ^ 63 ≤ a.toInt + b.toInt) (hu : a.toInt + b.toInt < 2 ^ 63) :
    (a + b).toInt = a.toInt + b.toInt := by
  rw [Int64.toInt_add]
  exact Int.bmod_eq_of_le (by omega) (by omega)

theorem toInt_difference (hl : -2 ^ 63 ≤ a.toInt - b.toInt) (hu : a.toInt - b.toInt < 2 ^ 63) :
    (a - b).toInt = a.toInt - b.toInt := by
  rw [Int64.toInt_sub]
  exact Int.bmod_eq_of_le (by omega) (by omega)

end Words

variable {a b : TimeSpec}

theorem total_nonneg (h : a.Normalized) : 0 ≤ a.total := by
  have := h.seconds
  have := h.nanoseconds
  simp only [total,perSecond]
  omega

theorem Normalized.zero : Normalized {} := ⟨le_refl 0,le_refl 0,by decide⟩

theorem total_zero : total {} = 0 := rfl

theorem of_parts {s n : Int64} {x y : Int} (hs : s.toInt = x) (hn : n.toInt = y) (hx : 0 ≤ x)
    (hy : 0 ≤ y) (hlt : y < perSecond) : Normalized ⟨s,n⟩ :=
  ⟨hs ▸ hx,hn ▸ hy,hn ▸ hlt⟩

theorem Normalized.ext (ha : a.Normalized) (hb : b.Normalized) (h : a.total = b.total) : a = b := by
  obtain ⟨-,ha0,ha1⟩ := ha
  obtain ⟨-,hb0,hb1⟩ := hb
  simp only [total,perSecond] at h ha1 hb1
  have hs : a.seconds = b.seconds := Int64.toInt_inj.mp (by omega)
  have hn : a.nanoseconds = b.nanoseconds := Int64.toInt_inj.mp (by omega)
  cases a
  cases b
  subst hs hn
  rfl

theorem isZero_iff (h : a.Normalized) : a.isZero = true ↔ a.total = 0 := by
  constructor
  · intro hz
    simp only [isZero,Bool.and_eq_true,decide_eq_true_eq] at hz
    simp [total,hz.1,hz.2]
  · intro hz
    obtain rfl : a = {} := h.ext .zero hz
    rfl

theorem add_spec (ha : a.Normalized) (hb : b.Normalized)
    (hfits : a.total + b.total < 2 ^ 63 * perSecond) :
    (a + b).Normalized ∧ (a + b).total = a.total + b.total := by
  obtain ⟨has,ha0,ha1⟩ := ha
  obtain ⟨hbs,hb0,hb1⟩ := hb
  simp only [total,perSecond] at hfits ha1 hb1
  have hn : (a.nanoseconds + b.nanoseconds).toInt = a.nanoseconds.toInt + b.nanoseconds.toInt :=
    toInt_sum (by omega) (by omega)
  rw [add_eq,addAssign]
  split_ifs with hc
  · rw [gt_iff_lt,Int64.lt_iff_toInt_lt,hn] at hc
    have hlit : (999999999 : Int64).toInt = 999999999 := rfl
    have hrest : ((a.nanoseconds + b.nanoseconds) - 1000000000).toInt =
        a.nanoseconds.toInt + b.nanoseconds.toInt - 1000000000 := by
      rw [← hn]
      exact toInt_difference (by rw [hn]; show _ ≤ _ - (1000000000 : Int); omega)
        (by rw [hn]; show _ - (1000000000 : Int) < _; omega)
    have hone : (a.seconds + 1).toInt = a.seconds.toInt + 1 :=
      toInt_sum (by show _ ≤ _ + (1 : Int); omega) (by show _ + (1 : Int) < _; omega)
    have hsec : (a.seconds + 1 + b.seconds).toInt = a.seconds.toInt + 1 + b.seconds.toInt := by
      rw [← hone]
      exact toInt_sum (by omega) (by omega)
    refine ⟨of_parts hsec hrest (by omega) (by omega) (by simp only [perSecond]; omega),?_⟩
    simp only [total,perSecond]
    omega
  · rw [gt_iff_lt,Int64.lt_iff_toInt_lt,hn] at hc
    have hlit : (999999999 : Int64).toInt = 999999999 := rfl
    have hsec : (a.seconds + b.seconds).toInt = a.seconds.toInt + b.seconds.toInt :=
      toInt_sum (by omega) (by omega)
    refine ⟨of_parts hsec hn (by omega) (by omega) (by simp only [perSecond]; omega),?_⟩
    simp only [total,perSecond]
    omega

theorem subSeconds_spec (ha : a.Normalized) (hb : 0 ≤ b.seconds.toInt) :
    (a.subSeconds b).Normalized ∧ (a.subSeconds b).total =
      if a.seconds.toInt < b.seconds.toInt then 0 else a.total - b.seconds.toInt * perSecond := by
  obtain ⟨has,ha0,ha1⟩ := ha
  have hlt := a.seconds.toInt_lt
  simp only [subSeconds,gt_iff_lt,Int64.lt_iff_toInt_lt]
  split_ifs with h
  · exact ⟨.zero,rfl⟩
  · have hsec : (a.seconds - b.seconds).toInt = a.seconds.toInt - b.seconds.toInt :=
      toInt_difference (by omega) (by omega)
    refine ⟨⟨?_,ha0,ha1⟩,?_⟩
    · dsimp only
      omega
    · simp only [total,perSecond,hsec]
      omega

-- A borrow loses one nanosecond: it adds `999'999'999` where a second has `1'000'000'000`.
theorem sub_spec (ha : a.Normalized) (hb : b.Normalized) : (a - b).Normalized ∧
    (Borrows a b → (a - b).total = a.total - b.total - 1) ∧
    (¬Borrows a b → (a - b).total = max 0 (a.total - b.total)) := by
  obtain ⟨has,ha0,ha1⟩ := ha
  obtain ⟨hbs,hb0,hb1⟩ := hb
  have hlt := a.seconds.toInt_lt
  simp only [perSecond] at ha1 hb1
  simp only [sub_eq,subAssign,gt_iff_lt,Int64.lt_iff_toInt_lt]
  split_ifs with hn hz
  · rw [← Int64.toInt_inj] at hz
    have hz : a.seconds.toInt = 0 := hz
    refine ⟨.zero,fun h => ?_,fun _ => ?_⟩
    · obtain ⟨-,h⟩ := h
      omega
    · rw [total_zero]
      simp only [total,perSecond]
      omega
  · have hz : a.seconds.toInt ≠ 0 := fun h => hz (Int64.toInt_inj.mp h)
    have hone : (a.seconds - 1).toInt = a.seconds.toInt - 1 :=
      toInt_difference (by show _ ≤ _ - (1 : Int); omega) (by show _ - (1 : Int) < _; omega)
    have hdiff : (b.nanoseconds - a.nanoseconds).toInt =
        b.nanoseconds.toInt - a.nanoseconds.toInt := toInt_difference (by omega) (by omega)
    have hlit : (999999999 : Int64).toInt = 999999999 := rfl
    have hrest : (999999999 - (b.nanoseconds - a.nanoseconds)).toInt =
        999999999 - (b.nanoseconds.toInt - a.nanoseconds.toInt) := by
      rw [toInt_difference (by omega) (by omega),hlit,hdiff]
    have hnorm : Normalized ⟨a.seconds - 1,999999999 - (b.nanoseconds - a.nanoseconds)⟩ :=
      of_parts hone hrest (by omega) (by omega) (by simp only [perSecond]; omega)
    obtain ⟨hout,htotal⟩ := subSeconds_spec hnorm hbs
    refine ⟨hout,fun h => ?_,fun h => ?_⟩
    · obtain ⟨-,hs⟩ := h
      rw [htotal,if_neg (by dsimp only; omega)]
      simp only [total,perSecond,hone,hrest]
      omega
    · have hs : a.seconds.toInt ≤ b.seconds.toInt := Int.not_lt.mp fun hs => h ⟨hn,hs⟩
      rw [htotal,if_pos (by dsimp only; omega)]
      simp only [total,perSecond]
      omega
  · have hdiff : (a.nanoseconds - b.nanoseconds).toInt =
        a.nanoseconds.toInt - b.nanoseconds.toInt := toInt_difference (by omega) (by omega)
    have hnorm : Normalized ⟨a.seconds,a.nanoseconds - b.nanoseconds⟩ :=
      of_parts rfl hdiff has (by omega) (by simp only [perSecond]; omega)
    obtain ⟨hout,htotal⟩ := subSeconds_spec hnorm hbs
    refine ⟨hout,fun h => absurd h.1 hn,fun _ => ?_⟩
    rw [htotal]
    split_ifs with hs
    · dsimp only at hs
      simp only [total,perSecond]
      omega
    · dsimp only at hs
      simp only [total,perSecond,hdiff]
      omega

structure Exact (a b : TimeSpec) : Prop where
  sumNormalized : (a + b).Normalized
  differenceNormalized : (a - b).Normalized
  sum : (a + b).total = a.total + b.total
  difference : (a - b).total = max 0 (a.total - b.total)
  back : a + b - b = a
  forth : b.total ≤ a.total → a - b + b = a

theorem exact_iff (ha : a.Normalized) (hb : b.Normalized)
    (hfits : a.total + b.total < 2 ^ 63 * perSecond) :
    Exact a b ↔ a.nanoseconds.toInt + b.nanoseconds.toInt < perSecond ∧ ¬Borrows a b := by
  obtain ⟨hsn,hs⟩ := add_spec ha hb hfits
  obtain ⟨hdn,hlost,hd⟩ := sub_spec ha hb
  obtain ⟨hbn,hblost,hback⟩ := sub_spec hsn hb
  have ha0 := total_nonneg ha
  have hb0 := total_nonneg hb
  constructor
  · intro h
    refine ⟨?_,fun hborrows => ?_⟩
    · refine Int.not_le.mp fun hcarry => ?_
      have hborrows : Borrows (a + b) b := by
        obtain ⟨has,-,ha1⟩ := ha
        obtain ⟨-,-,hb1⟩ := hb
        obtain ⟨-,hs0,hs1⟩ := hsn
        simp only [total,perSecond] at hs hcarry ha1 hb1 hs1
        exact ⟨by omega,by omega⟩
      have := hblost hborrows
      rw [h.back] at this
      omega
    · have := hlost hborrows
      have hle : b.total < a.total := by
        obtain ⟨-,hs⟩ := hborrows
        have := ha.nanoseconds
        have := hb.carried
        simp only [total,perSecond] at *
        omega
      have := h.difference
      omega
  · rintro ⟨hcarry,hborrows⟩
    have hstays : ¬Borrows (a + b) b := by
      rintro ⟨hn,-⟩
      have := ha.nanoseconds
      have := hb.nanoseconds
      have := hsn.nanoseconds
      have := hsn.carried
      simp only [total,perSecond] at hs hcarry this
      omega
    refine ⟨hsn,hdn,hs,hd hborrows,hbn.ext ha ?_,fun hle => ?_⟩
    · rw [hback hstays,hs]
      omega
    · have hdt := hd hborrows
      obtain ⟨hfn,hft⟩ := add_spec hdn hb (by omega)
      refine hfn.ext ha ?_
      rw [hft,hdt]
      omega

theorem exact_iff_whole : Exact ⟨5,3⟩ ⟨2,1⟩ :=
  (exact_iff ⟨by decide,by decide,by decide⟩ ⟨by decide,by decide,by decide⟩ (by decide)).mpr
    ⟨by decide,by unfold Borrows; decide⟩

theorem borrow_loses : Normalized ⟨1,0⟩ ∧ Normalized ⟨0,1⟩ ∧ ¬Exact ⟨1,0⟩ ⟨0,1⟩ := by
  refine ⟨⟨by decide,by decide,by decide⟩,⟨by decide,by decide,by decide⟩,fun h => ?_⟩
  exact absurd h.difference (by decide)

end TimeSpec

end SabaOS.Klib
