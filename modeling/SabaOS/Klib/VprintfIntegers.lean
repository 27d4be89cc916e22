import SabaOS.Klib.Vprintf
import Mathlib.Algebra.Order.BigOperators.Group.List

namespace SabaOS.Klib.Vprintf

open Lib

inductive Width where
  | digits (w : Nat)
  | star
deriving DecidableEq, Repr

structure Conversion where
  altForm : Bool
  isZeroPadding : Bool
  width : Width
  longInt : Bool
  letter : UInt8
  isInteger : letter ∈ integers
deriving DecidableEq, Repr

inductive Item where
  | char (c : UInt8) (h0 : c ≠ 0) (hpercent : c ≠ '%'.toUInt8)
  | integer (v : Conversion)
deriving DecidableEq, Repr

def Width.text : Width → List UInt8
  | digits w => if w = 0 then [] else decimal w
  | star => ['*'.toUInt8]

def Conversion.flags (v : Conversion) : List UInt8 :=
  (if v.altForm then ['#'.toUInt8] else []) ++ (if v.isZeroPadding then ['0'.toUInt8] else []) ++
    v.width.text ++ if v.longInt then ['l'.toUInt8] else []

def Item.text : Item → List UInt8
  | char c _ _ => [c]
  | integer v => '%'.toUInt8 :: (v.flags ++ [v.letter])

def Width.uses : Width → Nat
  | digits _ => 0
  | star => 1

def Item.uses : Item → Nat
  | char _ _ _ => 0
  | integer v => v.width.uses + 1

def placed : List Item → Nat → List (Item × Nat)
  | [],_ => []
  | item :: items,next => (item,next) :: placed items (next + item.uses)

section Expected

variable (args : Nat → Arg) (next : Nat)

def Width.value : Width → Nat
  | digits w => w
  | star => (args next).word.toNat

def Conversion.word (v : Conversion) : UInt64 := (args (next + v.width.uses)).word

def Conversion.number (v : Conversion) : Int :=
  let word := v.word args next
  if v.letter = 'd'.toUInt8 then
    if v.longInt then word.toInt64.toInt else word.toUInt32.toInt32.toInt
  else if v.longInt then word.toNat else word.toUInt32.toNat

def baseDigits (letter : UInt8) (n : Nat) : List UInt8 :=
  (Nat.toDigits (base letter) n).map fun c =>
    if letter = 'X'.toUInt8 then c.toUpper.toUInt8 else c.toUInt8

def Conversion.expected (v : Conversion) : List UInt8 :=
  let digits := baseDigits v.letter (v.number args next).natAbs
  let pad := if v.isZeroPadding then '0'.toUInt8 else ' '.toUInt8
  altPrefix v.letter v.altForm ++ (if v.number args next < 0 then ['-'.toUInt8] else []) ++
    List.replicate (v.width.value args next - digits.length) pad ++ digits

def Item.expected : Item → List UInt8
  | char c _ _ => [c]
  | integer v => v.expected args next

def Item.Negative : Item → Prop
  | char _ _ _ => False
  | integer v => v.number args next < 0

instance (item : Item) : Decidable (item.Negative args next) := match item with
  | .char _ _ _ => inferInstanceAs (Decidable False)
  | .integer v => inferInstanceAs (Decidable (v.number args next < 0))

end Expected

def expected (items : List Item) (args : Nat → Arg) : List UInt8 :=
  (placed items 0).flatMap fun p => p.1.expected args p.2

section Text

theorem decimal_of_lt {w : Nat} (h : w < 10) : decimal w = [usedDigit w] := by
  rw [decimal,Nat.toDigits_of_lt_base h,usedDigit_digitChar h]
  rfl

theorem decimal_of_le {w : Nat} (h : 10 ≤ w) : decimal w = decimal (w / 10) ++ [usedDigit (w % 10)] := by
  rw [decimal,Nat.toDigits_of_base_le (by decide) h,List.map_append,
    usedDigit_digitChar (Nat.mod_lt w (by decide))]
  rfl

def isDigit (c : UInt8) : Bool := '0'.toUInt8 ≤ c ∧ c ≤ '9'.toUInt8

def addDigit (padding : UInt64) (c : UInt8) : UInt64 := padding * 10 + (c - '0'.toUInt8).toUInt64

theorem usedDigit_isDigit {d : Nat} (h : d < 10) : isDigit (usedDigit d) = true ∧
    (usedDigit d - '0'.toUInt8).toUInt64 = UInt64.ofNat d ∧ (0 < d → '1'.toUInt8 ≤ usedDigit d) := by
  interval_cases d <;> decide

theorem decimal_reads {w : Nat} (hw : 0 < w) : ∃ c cs, decimal w = c :: cs ∧
    ('1'.toUInt8 ≤ c ∧ c ≤ '9'.toUInt8) ∧ (∀ k ∈ cs, isDigit k = true) ∧
      cs.foldl addDigit (c - '0'.toUInt8).toUInt64 = UInt64.ofNat w := by
  induction w using Nat.strongRecOn with
  | ind w ih =>
    rcases Nat.lt_or_ge w 10 with h | h
    · obtain ⟨hdigit,hvalue,hpos⟩ := usedDigit_isDigit h
      simp only [isDigit,decide_eq_true_eq] at hdigit
      exact ⟨_,_,decimal_of_lt h,⟨hpos hw,hdigit.2⟩,by simp,hvalue⟩
    · obtain ⟨c,cs,hdecimal,hc,hcs,hfold⟩ := ih (w / 10) (by omega) (by omega)
      obtain ⟨hdigit,hvalue,-⟩ := usedDigit_isDigit (Nat.mod_lt w (by decide : 0 < 10))
      refine ⟨c,cs ++ [usedDigit (w % 10)],by rw [decimal_of_le h,hdecimal,List.cons_append],hc,?_,?_⟩
      · intro k hk
        rcases List.mem_append.mp hk with hk | hk
        · exact hcs k hk
        · rw [List.mem_singleton.mp hk]
          exact hdigit
      · rw [List.foldl_append,hfold,List.foldl_cons,List.foldl_nil,addDigit,hvalue]
        rw [show (10 : UInt64) = UInt64.ofNat 10 from rfl,← UInt64.ofNat_mul,← UInt64.ofNat_add]
        congr 1
        omega

theorem isDigit_ne_zero {c : UInt8} (h : isDigit c = true) : c ≠ 0 := by
  rintro rfl
  exact absurd h (by decide)

theorem Width.text_noNul (width : Width) : 0 ∉ width.text := by
  cases width with
  | star => decide
  | digits w =>
    rw [Width.text]
    split_ifs with h0
    · exact List.not_mem_nil
    · obtain ⟨c,cs,hdecimal,hc,hcs,-⟩ := decimal_reads (Nat.pos_of_ne_zero h0)
      rw [hdecimal]
      intro hmem
      rcases List.mem_cons.mp hmem with rfl | hmem
      · exact absurd hc (by decide)
      · exact isDigit_ne_zero (hcs 0 hmem) rfl

theorem Item.text_noNul (item : Item) : 0 ∉ item.text := by
  cases item with
  | char c h0 hpercent =>
    rw [Item.text,List.mem_singleton]
    exact fun h => h0 h.symm
  | integer v =>
    have hletter : 0 ≠ v.letter := fun h => absurd (h ▸ v.isInteger) (by decide)
    have hflags : 0 ∉ v.flags := by
      simp only [Conversion.flags,List.mem_append,not_or]
      refine ⟨⟨⟨?_,?_⟩,v.width.text_noNul⟩,?_⟩
      · cases v.altForm <;> decide
      · cases v.isZeroPadding <;> decide
      · cases v.longInt <;> decide
    simp only [Item.text,List.mem_cons,List.mem_append,List.not_mem_nil,or_false,not_or]
    exact ⟨by decide,hflags,hletter⟩

end Text

def format (items : List Item) : CString where
  bytes := items.flatMap Item.text
  noNul := by
    rw [List.mem_flatMap]
    rintro ⟨item,-,hmem⟩
    exact item.text_noNul hmem

def Conversion.directive (v : Conversion) (args : Nat → Arg) (next : Nat) : Directive where
  altForm := v.altForm
  longInt := v.longInt
  padding := .ofNat (v.width.value args next)
  isZeroPadding := v.isZeroPadding

def Item.puts (args : Nat → Arg) (next : Nat) : Item → List UInt8 × Nat
  | .char c _ _ => ([c],1)
  | .integer v => Vprintf.integer v.letter (v.directive args next) (v.word args next)

def put (args : Nat → Arg) (items : List Item) (next : Nat) : List UInt8 :=
  (placed items next).flatMap fun p => (p.1.puts args p.2).1

def counted (args : Nat → Arg) (items : List Item) (next : Nat) : Nat :=
  ((placed items next).map fun p => (p.1.puts args p.2).2).sum

section Run

variable {fmt : CString} {args : Nat → Arg} {i next : Nat} {out : List UInt8} {written : Int32}
  {c : UInt8} {rest : List UInt8} {d : Directive} {mode : Mode} (hlen : fmt.bytes.length < 2 ^ 31)

include hlen

theorem CString.get_of_drop (h : fmt.bytes.drop i = c :: rest) : fmt.get i = some c := by
  have hi : i < fmt.bytes.length := by
    rw [← Nat.not_le,← List.drop_eq_nil_iff,h]
    exact List.cons_ne_nil c rest
  have hget : fmt.bytes[i] = c := by
    rw [List.drop_eq_getElem_cons hi] at h
    exact (List.cons.inj h).1
  rw [CString.get,if_pos ⟨by omega,by omega⟩,← hget]
  simp [List.getD_eq_getElem?_getD,hi]

omit hlen in
theorem drop_past (pre : List UInt8) (h : fmt.bytes.drop i = pre ++ rest) :
    fmt.bytes.drop (i + pre.length) = rest := by
  rw [← List.drop_drop,h,List.drop_left]

theorem flag_visits (h : fmt.bytes.drop i = c :: rest) {s : State}
    (hswitch : switch fmt args ⟨i,.flags d,next,out,written⟩ d c = .again s) :
    Visits (step fmt args) ⟨i,.flags d,next,out,written⟩ s := by
  refine .single ?_
  rw [step,CString.get_of_drop hlen h]
  exact hswitch

theorem optional_visits (b : Bool) {f : Directive → Directive} {j : Nat} {d' : Directive}
    (h : fmt.bytes.drop i = (if b then [c] else []) ++ rest)
    (hswitch : ∀ s d, switch fmt args s d c = .again (s.scan (.flags (f d))))
    (hj : j = i + (if b then [c] else []).length) (hd : d' = if b then f d else d) :
    Visits (step fmt args) ⟨i,.flags d,next,out,written⟩ ⟨j,.flags d',next,out,written⟩ := by
  subst hj hd
  cases b with
  | false => exact .refl
  | true => exact flag_visits hlen h (hswitch _ d)

theorem number_visits {cs : List UInt8} {j : Nat} {p : UInt64} (hcs : ∀ k ∈ cs, isDigit k = true)
    (hc : isDigit c = false) (h : fmt.bytes.drop i = cs ++ c :: rest) (hj : j = i + cs.length)
    (hp : p = cs.foldl addDigit d.padding) :
    Visits (step fmt args) ⟨i,.number d,next,out,written⟩
      ⟨j,.flags { d with padding := p },next,out,written⟩ := by
  subst hj hp
  induction cs generalizing i d with
  | nil =>
    refine .single ?_
    rw [step,CString.get_of_drop hlen h]
    simp only [isDigit,decide_eq_false_iff_not] at hc
    exact if_neg hc
  | cons k cs ih =>
    have hk := hcs k List.mem_cons_self
    simp only [isDigit,decide_eq_true_eq] at hk
    have hnext := ih (i := i + 1) (d := { d with padding := addDigit d.padding k })
      (fun k' hk' => hcs k' (List.mem_cons_of_mem k hk')) (drop_past [k] h)
    have hfirst : step fmt args ⟨i,.number d,next,out,written⟩ =
        .again ⟨i + 1,.number { d with padding := addDigit d.padding k },next,out,written⟩ := by
      rw [step,CString.get_of_drop hlen h]
      exact if_pos hk
    rw [List.length_cons,← Nat.add_assoc,Nat.add_right_comm]
    exact .head hfirst hnext

theorem width_visits (width : Width) (hc : isDigit c = false) (hpad : d.padding = 0)
    (h : fmt.bytes.drop i = width.text ++ c :: rest) :
    Visits (step fmt args) ⟨i,.flags d,next,out,written⟩
      ⟨i + width.text.length,.flags { d with padding := .ofNat (width.value args next) },
        next + width.uses,out,written⟩ := by
  cases width with
  | star =>
    refine flag_visits hlen h ?_
    simp only [Width.value,UInt64.ofNat_toNat]
    rfl
  | digits w =>
    rw [Width.text] at h ⊢
    by_cases h0 : w = 0
    · subst h0
      have hsame : { d with padding := UInt64.ofNat 0 } = d := by
        cases d
        cases hpad
        rfl
      simp only [Width.value,hsame]
      exact .refl
    · obtain ⟨c',cs,hdecimal,hc',hcs,hfold⟩ := decimal_reads (Nat.pos_of_ne_zero h0)
      rw [if_neg h0,hdecimal] at h
      rw [if_neg h0,hdecimal]
      refine .trans (flag_visits hlen h (switch_number hc'.1 hc'.2)) ?_
      refine number_visits hlen hcs hc (drop_past [c'] h) ?_ hfold.symm
      rw [List.length_cons,Nat.add_comm cs.length,Nat.add_assoc]

theorem flags_visits (v : Conversion) (h : fmt.bytes.drop i = v.flags ++ v.letter :: rest) :
    Visits (step fmt args) ⟨i,.flags {},next,out,written⟩
      ⟨i + v.flags.length,.flags (v.directive args next),next + v.width.uses,out,written⟩ := by
  simp only [Conversion.flags,List.append_assoc] at h
  have hzero := drop_past _ h
  have hwidth := drop_past _ hzero
  have hlong := drop_past _ hwidth
  have hletter : isDigit v.letter = false := decide_eq_false (integer_not_digit v.isInteger)
  obtain ⟨c,rest',hc,hdigit⟩ : ∃ c rest', (if v.longInt then ['l'.toUInt8] else []) ++
      v.letter :: rest = c :: rest' ∧ isDigit c = false := by
    cases v.longInt with
    | false => exact ⟨_,_,rfl,hletter⟩
    | true => exact ⟨_,_,rfl,by decide⟩
  refine .trans (optional_visits hlen v.altForm h (f := fun d => { d with altForm := true })
    (fun _ _ => rfl) rfl rfl) ?_
  refine .trans (optional_visits hlen v.isZeroPadding hzero
    (f := fun d => { d with isZeroPadding := true }) (fun _ _ => rfl) rfl rfl) ?_
  refine .trans (width_visits hlen v.width hdigit ?_ (hc ▸ hwidth)) ?_
  · cases v.altForm <;> cases v.isZeroPadding <;> rfl
  · refine optional_visits hlen v.longInt hlong (f := fun d => { d with longInt := true })
      (fun _ _ => rfl) ?_ ?_
    · simp only [Conversion.flags,List.length_append]
      omega
    · rw [Conversion.directive]
      cases v.altForm <;> cases v.isZeroPadding <;> cases v.longInt <;> rfl

theorem item_visits (item : Item) (h : fmt.bytes.drop i = item.text ++ rest) :
    Visits (step fmt args) ⟨i,.text,next,out,written⟩
      ⟨i + item.text.length,.text,next + item.uses,out ++ (item.puts args next).1,
        written + Int32.ofNat (item.puts args next).2⟩ := by
  cases item with
  | char c h0 hpercent =>
    refine .single ?_
    rw [step,CString.get_of_drop hlen h]
    exact (if_neg h0).trans (if_neg hpercent)
  | integer v =>
    have hopen : step fmt args ⟨i,.text,next,out,written⟩ =
        .again ⟨i + 1,.flags {},next,out,written⟩ := by
      rw [step,CString.get_of_drop hlen h]
      rfl
    have hflags : fmt.bytes.drop (i + 1) = v.flags ++ v.letter :: rest := by
      rw [← List.singleton_append,← List.append_assoc]
      exact drop_past ['%'.toUInt8] h
    refine .head hopen (.trans (flags_visits hlen v hflags) ?_)
    have hend : i + (Item.integer v).text.length = i + 1 + v.flags.length + 1 := by
      simp only [Item.text,List.length_cons,List.length_append,List.length_nil]
      omega
    rw [hend]
    exact flag_visits hlen (drop_past _ hflags) (switch_integer v.isInteger)

theorem items_visits (items : List Item) (args : Nat → Arg) (i next : Nat) (out : List UInt8)
    (written : Int32) (h : fmt.bytes.drop i = items.flatMap Item.text ++ rest) :
    ∃ next', Visits (step fmt args) ⟨i,.text,next,out,written⟩
      ⟨i + (items.flatMap Item.text).length,.text,next',out ++ put args items next,
        written + Int32.ofNat (counted args items next)⟩ := by
  induction items generalizing i next out written with
  | nil =>
    refine ⟨next,?_⟩
    simp only [List.flatMap_nil,List.length_nil,put,counted,placed,List.append_nil,List.map_nil,
      List.sum_nil]
    rw [show Int32.ofNat 0 = 0 from rfl,Int32.add_zero]
    exact .refl
  | cons item items ih =>
    rw [List.flatMap_cons,List.append_assoc] at h
    obtain ⟨next',hrest⟩ := ih _ (next + item.uses) (out ++ (item.puts args next).1)
      (written + Int32.ofNat (item.puts args next).2) (drop_past _ h)
    refine ⟨next',.trans (item_visits hlen item h) ?_⟩
    simp only [put,counted,placed,List.flatMap_cons,List.map_cons,List.sum_cons,List.length_append]
    rw [Int32.ofNat_add,← Int32.add_assoc,← List.append_assoc,← Nat.add_assoc]
    exact hrest

end Run

variable {items : List Item} {args : Nat → Arg} {next : Nat}

theorem format_returns (hlen : (format items).bytes.length < 2 ^ 31) :
    Returns (format items) args (Int32.ofNat (counted args items 0)) (put args items 0) := by
  obtain ⟨next',hvisits⟩ := items_visits hlen items args 0 0 [] 0 (List.append_nil _).symm
  refine (ends_visits hvisits).mpr (.stop ?_)
  rw [step,CString.get,if_pos ⟨by simpa [format] using hlen,by simp [format]⟩]
  simp [format]

section Digits

theorem natAbs_of_nonneg {w : Nat} {x : BitVec w} (h : 0 ≤ x.toInt) : x.toInt.natAbs = x.toNat := by
  rw [BitVec.toInt_eq_toNat_of_lt (BitVec.toInt_pos_iff.mp h),Int.natAbs_natCast]

theorem negative_iff (v : Conversion) : (Item.integer v).Negative args next ↔
    isNegative v.letter v.longInt (v.word args next) = true := by
  simp only [Item.Negative,Conversion.number,isNegative,decide_eq_true_eq]
  by_cases hd : v.letter = 'd'.toUInt8
  · cases v.longInt with
    | false => simp [hd,Int32.lt_iff_toInt_lt]
    | true => simp [hd,Int64.lt_iff_toInt_lt]
  · simp only [hd,if_false,false_and,iff_false,Int.not_lt]
    split_ifs <;> exact Int.natCast_nonneg _

theorem value_eq (v : Conversion) (h : ¬(Item.integer v).Negative args next) :
    (value v.letter v.longInt (v.word args next)).toNat = (v.number args next).natAbs := by
  have hnot := mt (negative_iff v).mpr h
  simp only [Item.Negative,Int.not_lt] at h
  simp only [value,if_neg hnot]
  simp only [Conversion.number] at h ⊢
  by_cases hd : v.letter = 'd'.toUInt8
  · simp only [if_pos hd] at h ⊢
    cases hlong : v.longInt with
    | false =>
      simp only [hlong,Bool.false_eq_true,if_false] at h ⊢
      exact (natAbs_of_nonneg h).symm
    | true =>
      simp only [hlong,if_true] at h ⊢
      exact (natAbs_of_nonneg h).symm
  · simp only [if_neg hd]
    cases v.longInt <;> exact (Int.natAbs_natCast _).symm

theorem used_eq (letter : UInt8) {d : Nat} (h : d < (base letter).1) : used letter d =
    if letter = 'X'.toUInt8 then (Nat.digitChar d).toUpper.toUInt8 else (Nat.digitChar d).toUInt8 := by
  have hbase : (base letter).1 ≤ 16 := by
    unfold base
    split_ifs <;> decide
  rw [used]
  split_ifs
  · exact (by decide : ∀ d < 16, high d = (Nat.digitChar d).toUpper.toUInt8) d (by omega)
  · exact (by decide : ∀ d < 16, low d = (Nat.digitChar d).toUInt8) d (by omega)

theorem putDigits_baseDigits (letter : UInt8) (n : Nat) :
    (base letter).putDigits (used letter) n = baseDigits letter n :=
  Base.putDigits_eq (fun c => if letter = 'X'.toUInt8 then c.toUpper.toUInt8 else c.toUInt8)
    (fun _ => used_eq letter) n

theorem pads_eq {w digits : Nat} (hw : w < 2 ^ 64) : pads (.ofNat w) digits = w - (digits + 1) := by
  have hnat : (UInt64.ofNat w).toNat = w := UInt64.toNat_ofNat_of_lt' hw
  have hne : UInt64.ofNat w ≠ 0 ↔ w ≠ 0 := by
    rw [ne_eq,← UInt64.toNat_inj,hnat]
    rfl
  simp only [pads,hne,hnat]
  split_ifs <;> omega

theorem integer_length (c : UInt8) (d : Directive) (word : UInt64) : (integer c d word).1.length =
    (integer c d word).2 + if isNegative c d.longInt word then 1 else 0 := by
  simp only [integer,List.length_append,Base.putDigits_length]
  split_ifs
  all_goals
    simp only [List.length_singleton,List.length_nil]
    omega

theorem integer_of_nonneg {c : UInt8} {d : Directive} {word : UInt64}
    (h : ¬isNegative c d.longInt word = true) : (integer c d word).1 =
      altPrefix c d.altForm ++ [] ++
        List.replicate (pads d.padding ((base c).numDigits (value c d.longInt word).toNat))
          (if d.isZeroPadding then '0'.toUInt8 else ' '.toUInt8) ++
        baseDigits c (value c d.longInt word).toNat := by
  simp only [integer]
  rw [if_neg h,putDigits_baseDigits]

theorem puts_length (item : Item) : (item.puts args next).1.length =
    (item.puts args next).2 + if item.Negative args next then 1 else 0 := by
  cases item with
  | char c h0 hpercent => rfl
  | integer v =>
    simp only [negative_iff]
    exact integer_length v.letter (v.directive args next) (v.word args next)

theorem puts_eq (item : Item) (h : ¬item.Negative args next)
    (hfit : (item.expected args next).length < 2 ^ 64) :
    (item.puts args next).1 = item.expected args next := by
  cases item with
  | char c h0 hpercent => rfl
  | integer v =>
    have hdigits : (baseDigits v.letter (v.number args next).natAbs).length =
        (base v.letter).numDigits (v.number args next).natAbs + 1 := by
      rw [← putDigits_baseDigits,Base.putDigits_length]
    have hputs := integer_of_nonneg (c := v.letter) (d := v.directive args next) (mt (negative_iff v).mpr h)
    simp only [Conversion.directive,value_eq v h] at hputs
    simp only [Item.expected,Conversion.expected] at hfit ⊢
    simp only [Item.Negative] at h
    rw [if_neg h] at hfit ⊢
    have hw : v.width.value args next < 2 ^ 64 := by
      simp only [List.length_append,List.length_replicate] at hfit
      omega
    rw [pads_eq hw,← hdigits] at hputs
    exact hputs

end Digits

theorem expected_length_le (args : Nat → Arg) {items : List Item} {next : Nat} {p : Item × Nat} (hp : p ∈ placed items next) :
    (p.1.expected args p.2).length ≤
      ((placed items next).flatMap fun p => p.1.expected args p.2).length := by
  rw [List.length_flatMap]
  exact List.single_le_sum (by simp) _ (List.mem_map_of_mem hp)

theorem put_eq_expected (hsmall : (expected items args).length < 2 ^ 31)
    (h : ∀ p ∈ placed items 0, ¬p.1.Negative args p.2) : put args items 0 = expected items args := by
  refine List.flatMap_congr fun p hp => puts_eq p.1 (h p hp) ?_
  have hle := expected_length_le args hp
  rw [expected] at hsmall
  omega

def negatives (args : Nat → Arg) (items : List Item) (next : Nat) : Nat :=
  (placed items next).countP fun p => p.1.Negative args p.2

theorem put_length (items : List Item) (args : Nat → Arg) (next : Nat) :
    (put args items next).length = counted args items next + negatives args items next := by
  induction items generalizing next with
  | nil => rfl
  | cons item items ih =>
    have hrest := ih (next + item.uses)
    simp only [put,counted,negatives] at hrest
    simp only [put,counted,negatives,placed,List.flatMap_cons,List.map_cons,List.sum_cons,
      List.countP_cons,List.length_append,hrest,puts_length,decide_eq_true_eq]
    omega

theorem negatives_le (items : List Item) (args : Nat → Arg) (next : Nat) :
    negatives args items next ≤ (format items).bytes.length := by
  induction items generalizing next with
  | nil => exact Nat.le_refl 0
  | cons item items ih =>
    have hrest := ih (next + item.uses)
    have hpos : 0 < item.text.length := by
      cases item with
      | char c h0 hpercent => exact Nat.zero_lt_one
      | integer v => exact Nat.succ_pos _
    simp only [negatives,format] at hrest
    simp only [negatives,format,placed,List.countP_cons,List.flatMap_cons,List.length_append]
    split_ifs <;> omega

theorem negatives_of_counted {written : Int32} {out : List UInt8}
    (hreturns : Returns (format items) args written out) (hwritten : written.toInt = out.length) :
    out = put args items 0 ∧ out.length < 2 ^ 31 ∧ negatives args items 0 = 0 := by
  have hlen := (wellFormed_of_returns hreturns).2
  have hsame := Ends.unique hreturns (format_returns hlen)
  simp only [Prod.mk.injEq] at hsame
  obtain ⟨rfl,rfl⟩ := hsame
  have hlt := Int32.toInt_lt (Int32.ofNat (counted args items 0))
  have hle := negatives_le items args 0
  have hlength := put_length items args 0
  have hmod : (counted args items 0 : Int).bmod (2 ^ 32) = (put args items 0).length := by
    rw [← hwritten]
    exact Int32.toInt_ofNat'.symm
  have hemod := Int.bmod_emod (x := counted args items 0) (m := 2 ^ 32)
  rw [hmod,hlength] at hemod
  rw [hwritten] at hlt
  refine ⟨rfl,by omega,?_⟩
  omega

theorem integers_iff (items : List Item) (args : Nat → Arg) :
    (∃ written out, Returns (format items) args written out ∧ out = expected items args ∧
      written.toInt = out.length) ↔
    (format items).bytes.length < 2 ^ 31 ∧ (expected items args).length < 2 ^ 31 ∧
      ∀ p ∈ placed items 0, ¬p.1.Negative args p.2 := by
  have hcount : negatives args items 0 = 0 ↔ ∀ p ∈ placed items 0, ¬p.1.Negative args p.2 := by
    simp [negatives,List.countP_eq_zero]
  constructor
  · rintro ⟨written,out,hreturns,hout,hwritten⟩
    obtain ⟨-,hsmall,hnone⟩ := negatives_of_counted hreturns hwritten
    exact ⟨(wellFormed_of_returns hreturns).2,hout ▸ hsmall,hcount.mp hnone⟩
  · rintro ⟨hlen,hsmall,hnone⟩
    have hput := put_eq_expected hsmall hnone
    have hlength := put_length items args 0
    rw [hcount.mpr hnone,Nat.add_zero] at hlength
    refine ⟨_,_,format_returns hlen,hput,?_⟩
    rw [hlength,Int32.toInt_ofNat_of_lt]
    rw [hput] at hlength
    omega

def plainD : Conversion := ⟨false,false,.digits 0,false,'d'.toUInt8,by decide⟩

-- `printf("%d", -42)` puts three characters and returns 2.
theorem integers_miscount : ¬∀ (items : List Item) (args : Nat → Arg), ∃ written out,
    Returns (format items) args written out ∧ out = expected items args ∧ written.toInt = out.length := by
  intro hall
  obtain ⟨written,out,hreturns,-,hwritten⟩ :=
    hall [.integer plainD] fun _ => ⟨2 ^ 32 - 42,fun _ => 0,0,rfl⟩
  exact absurd (negatives_of_counted hreturns hwritten).2.2 (by decide)

end SabaOS.Klib.Vprintf
