import SabaOS.Klib.Printf
import SabaOS.Lib.Iterate
import Mathlib.Data.Nat.Find

namespace SabaOS.Klib.Vprintf

open Lib

structure CString where
  bytes : List UInt8
  noNul : 0 ∉ bytes

-- `format[i]`. Past the terminator there is nothing to read, nor at an index that `int i` cannot
-- hold.
def CString.get (format : CString) (i : Nat) : Option UInt8 :=
  if i < 2 ^ 31 ∧ i ≤ format.bytes.length then some (format.bytes.getD i 0) else none

structure Arg where
  word : UInt64
  str : Nat → UInt8
  ends : ∃ n, str n = 0

def Arg.chars (arg : Arg) (count : Nat) : List UInt8 := (List.range count).map arg.str

def Arg.length (arg : Arg) : Nat := Nat.find arg.ends

structure Directive where
  altForm : Bool := false
  longInt : Bool := false
  padding : UInt64 := 0
  isZeroPadding : Bool := false
  sLength : UInt64 := 0
  hasSLength : Bool := false
deriving DecidableEq, Repr

-- Where the loops are: between directives, in the `while (1)`, or in the loop over a number.
inductive Mode where
  | text
  | flags (d : Directive)
  | number (d : Directive)
deriving DecidableEq, Repr

structure State where
  i : Nat := 0
  mode : Mode := .text
  next : Nat := 0
  out : List UInt8 := []
  written : Int32 := 0
deriving DecidableEq, Repr

def ascii (s : String) : List UInt8 := s.toList.map fun c => c.toUInt8

def low : Nat → UInt8 := fun d => (ascii "0123456789abcdef").getD d 0
def high : Nat → UInt8 := fun d => (ascii "0123456789ABCDEF").getD d 0

def sixteen : Base := ⟨16,by decide⟩

def eight : Base := ⟨8,by decide⟩

def base (c : UInt8) : Base :=
  if c = 'x'.toUInt8 ∨ c = 'X'.toUInt8 then sixteen
  else if c = 'o'.toUInt8 then eight
  else ten

def altPrefix (c : UInt8) (altForm : Bool) : List UInt8 :=
  if c = 'x'.toUInt8 ∨ c = 'X'.toUInt8 then (if altForm then ascii "0x" else [])
  else if c = 'o'.toUInt8 then (if altForm then ascii "0" else [])
  else []

def used (c : UInt8) : Nat → UInt8 := if c = 'X'.toUInt8 then high else low

def isNegative (c : UInt8) (longInt : Bool) (word : UInt64) : Bool :=
  c = 'd'.toUInt8 ∧ (if longInt then word.toInt64 < 0 else word.toUInt32.toInt32 < 0)

def value (c : UInt8) (longInt : Bool) (word : UInt64) : UInt64 :=
  if longInt then
    if isNegative c longInt word then (-word.toInt64).toUInt64 else word
  else
    if isNegative c longInt word then (-word.toUInt32.toInt32).toInt64.toUInt64
    else word.toUInt32.toUInt64

def pads (padding : UInt64) (digits : Nat) : Nat :=
  if padding ≠ 0 ∧ padding.toNat > digits then padding.toNat - digits - 1 else 0

def integer (c : UInt8) (d : Directive) (word : UInt64) : List UInt8 × Nat :=
  let v := (value c d.longInt word).toNat
  let digits := (base c).numDigits v
  let pad := List.replicate (pads d.padding digits) (if d.isZeroPadding then '0'.toUInt8 else ' '.toUInt8)
  let sign := if isNegative c d.longInt word then ['-'.toUInt8] else []
  (altPrefix c d.altForm ++ sign ++ pad ++ (base c).putDigits (used c) v,
    (altPrefix c d.altForm).length + pad.length + (digits + 1))

def State.convert (s : State) (chars : List UInt8) (counted : Nat) : State :=
  ⟨s.i + 1,.text,s.next + 1,s.out ++ chars,s.written + Int32.ofNat counted⟩

def State.scan (s : State) (mode : Mode) : State := { s with i := s.i + 1, mode := mode }

def integers : List UInt8 := ascii "udoxX"

def switch (format : CString) (args : Nat → Arg) (s : State) (d : Directive) (c : UInt8) :
    Turn State (Int32 × List UInt8) :=
  if c = '#'.toUInt8 then .again (s.scan (.flags { d with altForm := true }))
  else if c = '0'.toUInt8 then .again (s.scan (.flags { d with isZeroPadding := true }))
  else if c = 'l'.toUInt8 then .again (s.scan (.flags { d with longInt := true }))
  else if c = '.'.toUInt8 then
    match format.get (s.i + 1) with
    | none => .stuck
    | some c' =>
      if c' = '*'.toUInt8 then
        .again { s with
          i := s.i + 2
          mode := .flags { d with hasSLength := true, sLength := (args s.next).word }
          next := s.next + 1 }
      else .again (s.scan (.flags d))
  else if c = '*'.toUInt8 then
    .again { s with
      i := s.i + 1
      mode := .flags { d with padding := (args s.next).word }
      next := s.next + 1 }
  else if c ∈ integers then
    let (chars,counted) := integer c d (args s.next).word
    .again (s.convert chars counted)
  else if c = 'c'.toUInt8 then .again (s.convert [(args s.next).word.toUInt8] 1)
  else if c = 's'.toUInt8 then
    let arg := args s.next
    let count := if d.hasSLength then d.sLength.toNat else arg.length
    .again (s.convert (arg.chars count) count)
  else if '1'.toUInt8 ≤ c ∧ c ≤ '9'.toUInt8 then
    .again (s.scan (.number { d with padding := (c - '0'.toUInt8).toUInt64 }))
  -- Any other character leaves the `switch` where it was.
  else .again s

def step (format : CString) (args : Nat → Arg) (s : State) : Turn State (Int32 × List UInt8) :=
  match format.get s.i with
  | none => .stuck
  | some c => match s.mode with
    | .text =>
      if c = 0 then .stop (s.written,s.out)
      else if c = '%'.toUInt8 then .again (s.scan (.flags {}))
      else .again { s with i := s.i + 1, out := s.out ++ [c], written := s.written + 1 }
    | .flags d => switch format args s d c
    | .number d =>
      if '0'.toUInt8 ≤ c ∧ c ≤ '9'.toUInt8 then
        .again (s.scan (.number { d with padding := d.padding * 10 + (c - '0'.toUInt8).toUInt64 }))
      else .again { s with mode := .flags d }

def Returns (format : CString) (args : Nat → Arg) (written : Int32) (out : List UInt8) : Prop :=
  Ends (step format args) {} (written,out)

def isFlag (c : UInt8) : Bool :=
  c = '#'.toUInt8 ∨ c = 'l'.toUInt8 ∨ c = '.'.toUInt8 ∨ c = '*'.toUInt8 ∨
    ('0'.toUInt8 ≤ c ∧ c ≤ '9'.toUInt8)

def isLetter (c : UInt8) : Bool := c ∈ integers ∨ c = 'c'.toUInt8 ∨ c = 's'.toUInt8

def wellFormed : Bool → List UInt8 → Bool
  | inDirective,[] => !inDirective
  | false,c :: rest => wellFormed (c = '%'.toUInt8) rest
  | true,c :: rest =>
    if isFlag c then wellFormed true rest else isLetter c && wellFormed false rest

def Mode.inDirective : Mode → Bool
  | .text => false
  | _ => true

variable {format : CString} {args : Nat → Arg} {s s' : State} {c : UInt8} {i : Nat} {d : Directive}
  {r : Int32 × List UInt8}

namespace CString

theorem get_cases (h : format.get i = some c) : i < 2 ^ 31 ∧
    ((c = 0 ∧ i = format.bytes.length) ∨
      (c ≠ 0 ∧ i < format.bytes.length ∧ format.bytes.drop i = c :: format.bytes.drop (i + 1))) := by
  unfold get at h
  split_ifs at h with hi
  obtain ⟨hlt,hle⟩ := hi
  refine ⟨hlt,?_⟩
  rcases Nat.lt_or_eq_of_le hle with hlen | rfl
  · have hget : format.bytes[i] = c := by simpa [List.getD_eq_getElem?_getD,hlen] using h
    have hmem : c ∈ format.bytes := hget ▸ List.getElem_mem hlen
    refine .inr ⟨fun h0 => format.noNul (h0 ▸ hmem),hlen,?_⟩
    rw [List.drop_eq_getElem_cons hlen,hget]
  · left
    refine ⟨?_,rfl⟩
    simpa using h.symm

theorem get_drop (h : format.get i = some c) (hc : c ≠ 0) :
    i < format.bytes.length ∧ format.bytes.drop i = c :: format.bytes.drop (i + 1) := by
  rcases (get_cases h).2 with ⟨h0,-⟩ | ⟨-,hlt,hdrop⟩
  · exact absurd h0 hc
  · exact ⟨hlt,hdrop⟩

theorem get_isSome (hi : i ≤ format.bytes.length) (hlen : format.bytes.length < 2 ^ 31) :
    ∃ c, format.get i = some c := by
  rw [get,if_pos ⟨by omega,hi⟩]
  exact ⟨_,rfl⟩

end CString

def State.onTrack (s : State) (format : CString) : Bool :=
  wellFormed s.mode.inDirective (format.bytes.drop s.i)

def State.left (s : State) (format : CString) : Nat :=
  2 * (format.bytes.length - s.i) + match s.mode with
    | .number _ => 1
    | _ => 0

structure Advances (format : CString) (s s' : State) : Prop where
  le : s'.i ≤ format.bytes.length
  onTrack : s'.onTrack format = s.onTrack format
  less : s'.left format < s.left format

theorem advances_past (hlt : s.i < format.bytes.length) (hi : s'.i = s.i + 1)
    (honTrack : s'.onTrack format = s.onTrack format) : Advances format s s' := by
  refine ⟨by omega,honTrack,?_⟩
  simp only [State.left,hi]
  split <;> split <;> omega

theorem advances_flag (hmode : s.mode.inDirective = true) (hget : format.get s.i = some c)
    (hc : isFlag c = true) (h0 : c ≠ 0) (hi : s'.i = s.i + 1) (hmode' : s'.mode.inDirective = true) :
    Advances format s s' := by
  obtain ⟨hlt,hdrop⟩ := CString.get_drop hget h0
  refine advances_past hlt hi ?_
  rw [State.onTrack,State.onTrack,hmode,hmode',hi,hdrop,wellFormed,if_pos hc]

theorem advances_letter (hmode : s.mode.inDirective = true) (hget : format.get s.i = some c)
    (hflag : isFlag c = false) (hc : isLetter c = true) (h0 : c ≠ 0) (chars : List UInt8)
    (counted : Nat) : Advances format s (s.convert chars counted) := by
  obtain ⟨hlt,hdrop⟩ := CString.get_drop hget h0
  refine advances_past hlt rfl ?_
  rw [State.onTrack,State.onTrack,hmode,hdrop,wellFormed,hflag,hc]
  rfl

theorem isFlag_cases (h : isFlag c = true) : c = '#'.toUInt8 ∨ c = 'l'.toUInt8 ∨ c = '.'.toUInt8 ∨
    c = '*'.toUInt8 ∨ c = '0'.toUInt8 ∨ ('1'.toUInt8 ≤ c ∧ c ≤ '9'.toUInt8) := by
  simp only [isFlag,decide_eq_true_eq] at h
  rcases h with h | h | h | h | ⟨hlow,hhigh⟩
  · exact .inl h
  · exact .inr (.inl h)
  · exact .inr (.inr (.inl h))
  · exact .inr (.inr (.inr (.inl h)))
  · rcases UInt8.le_iff_lt_or_eq.mp hlow with hlt | heq
    · refine .inr (.inr (.inr (.inr (.inr ⟨?_,hhigh⟩))))
      rw [UInt8.le_iff_toNat_le]
      exact UInt8.lt_iff_toNat_lt.mp hlt
    · exact .inr (.inr (.inr (.inr (.inl heq.symm))))

theorem integers_cases (hc : c ∈ integers) : c = 'u'.toUInt8 ∨ c = 'd'.toUInt8 ∨ c = 'o'.toUInt8 ∨
    c = 'x'.toUInt8 ∨ c = 'X'.toUInt8 := by
  simpa [integers,ascii] using hc

theorem integer_not_digit (hc : c ∈ integers) : ¬('0'.toUInt8 ≤ c ∧ c ≤ '9'.toUInt8) := by
  rcases integers_cases hc with rfl | rfl | rfl | rfl | rfl <;> decide

theorem switch_number (hlow : '1'.toUInt8 ≤ c) (hhigh : c ≤ '9'.toUInt8) :
    switch format args s d c =
      .again (s.scan (.number { d with padding := (c - '0'.toUInt8).toUInt64 })) := by
  have hne : ∀ k : UInt8, ¬('1'.toUInt8 ≤ k ∧ k ≤ '9'.toUInt8) → c ≠ k :=
    fun k hk h => hk (h ▸ ⟨hlow,hhigh⟩)
  have hnot : c ∉ integers := fun hc => integer_not_digit hc ⟨UInt8.le_trans (by decide) hlow,hhigh⟩
  rw [switch,if_neg (hne _ (by decide)),if_neg (hne _ (by decide)),if_neg (hne _ (by decide)),
    if_neg (hne _ (by decide)),if_neg (hne _ (by decide)),if_neg hnot,if_neg (hne _ (by decide)),
    if_neg (hne _ (by decide)),if_pos ⟨hlow,hhigh⟩]

theorem switch_other (hflag : isFlag c = false) (hletter : isLetter c = false) :
    switch format args s d c = .again s := by
  simp only [isFlag,isLetter,decide_eq_false_iff_not,not_or] at hflag hletter
  obtain ⟨h1,h2,h3,h4,h5⟩ := hflag
  obtain ⟨h6,h7,h8⟩ := hletter
  have h0 : c ≠ '0'.toUInt8 := by
    rintro rfl
    exact h5 (by decide)
  have h9 : ¬('1'.toUInt8 ≤ c ∧ c ≤ '9'.toUInt8) :=
    fun h => h5 ⟨UInt8.le_trans (by decide) h.1,h.2⟩
  rw [switch,if_neg h1,if_neg h0,if_neg h2,if_neg h3,if_neg h4,if_neg h6,if_neg h7,if_neg h8,
    if_neg h9]

theorem switch_integer (hc : c ∈ integers) : switch format args s d c = .again
    (s.convert (integer c d (args s.next).word).1 (integer c d (args s.next).word).2) := by
  rcases integers_cases hc with rfl | rfl | rfl | rfl | rfl <;> rfl

theorem switch_letter (hletter : isLetter c = true) : ∃ chars counted,
    switch format args s d c = .again (s.convert chars counted) := by
  simp only [isLetter,decide_eq_true_eq] at hletter
  rcases hletter with hc | rfl | rfl
  · exact ⟨_,_,switch_integer hc⟩
  · exact ⟨_,_,rfl⟩
  · exact ⟨_,_,rfl⟩

theorem switch_precision (hmode : s.mode.inDirective = true) (hget : format.get s.i = some '.'.toUInt8) :
    (switch format args s d '.'.toUInt8 = .stuck ∧ 2 ^ 31 ≤ format.bytes.length) ∨
      ∃ s', switch format args s d '.'.toUInt8 = .again s' ∧ Advances format s s' := by
  obtain ⟨hlt,hdrop⟩ := CString.get_drop hget (by decide)
  have hdef : switch format args s d '.'.toUInt8 = match format.get (s.i + 1) with
    | none => .stuck
    | some c' =>
      if c' = '*'.toUInt8 then
        .again { s with
          i := s.i + 2
          mode := .flags { d with hasSLength := true, sLength := (args s.next).word }
          next := s.next + 1 }
      else .again (s.scan (.flags d)) := rfl
  rw [hdef]
  cases hnext : format.get (s.i + 1) with
  | none =>
    refine .inl ⟨rfl,Nat.le_of_not_lt fun hlen => ?_⟩
    obtain ⟨c',hc'⟩ := CString.get_isSome (by omega : s.i + 1 ≤ _) hlen
    rw [hnext] at hc'
    cases hc'
  | some c' =>
    right
    by_cases hstar : c' = '*'.toUInt8
    · subst hstar
      obtain ⟨hlt',hdrop'⟩ := CString.get_drop hnext (by decide)
      refine ⟨_,rfl,⟨hlt',?_,?_⟩⟩
      · rw [State.onTrack,State.onTrack,hmode,hdrop,hdrop']
        rfl
      · simp only [State.left]
        omega
    · refine ⟨_,if_neg hstar,?_⟩
      exact advances_flag hmode hget (by decide) (by decide) rfl rfl

theorem switch_flag (hmode : s.mode.inDirective = true) (hget : format.get s.i = some c)
    (hflag : isFlag c = true) :
    (switch format args s d c = .stuck ∧ 2 ^ 31 ≤ format.bytes.length) ∨
      ∃ s', switch format args s d c = .again s' ∧ Advances format s s' := by
  have h0 : c ≠ 0 := by
    rintro rfl
    exact absurd hflag (by decide)
  rcases isFlag_cases hflag with rfl | rfl | rfl | rfl | rfl | ⟨hlow,hhigh⟩
  · exact .inr ⟨_,rfl,advances_flag hmode hget hflag h0 rfl rfl⟩
  · exact .inr ⟨_,rfl,advances_flag hmode hget hflag h0 rfl rfl⟩
  · exact switch_precision hmode hget
  · exact .inr ⟨_,rfl,advances_flag hmode hget hflag h0 rfl rfl⟩
  · exact .inr ⟨_,rfl,advances_flag hmode hget hflag h0 rfl rfl⟩
  · exact .inr ⟨_,switch_number hlow hhigh,advances_flag hmode hget hflag h0 rfl rfl⟩

theorem step_text (hmode : s.mode = .text) (hget : format.get s.i = some c) :
    (s.onTrack format = true ∧ format.bytes.length < 2 ^ 31 ∧ ∃ r, step format args s = .stop r) ∨
      ∃ s', step format args s = .again s' ∧ Advances format s s' := by
  rw [step,hget]
  simp only [hmode]
  obtain ⟨hint,⟨rfl,hend⟩ | ⟨h0,hlt,hdrop⟩⟩ := CString.get_cases hget
  · refine .inl ⟨?_,hend ▸ hint,_,if_pos rfl⟩
    rw [State.onTrack,hmode,hend,List.drop_length]
    rfl
  · right
    rw [if_neg h0]
    by_cases hpercent : c = '%'.toUInt8
    · refine ⟨_,if_pos hpercent,advances_past hlt rfl ?_⟩
      rw [State.onTrack,State.onTrack,hmode,hdrop,hpercent]
      rfl
    · refine ⟨_,if_neg hpercent,advances_past hlt rfl ?_⟩
      rw [State.onTrack,State.onTrack,hmode,hdrop]
      simp only [Mode.inDirective,wellFormed,decide_eq_false hpercent]

theorem step_flags (hmode : s.mode = .flags d) (hget : format.get s.i = some c) :
    (s.onTrack format = false ∧ step format args s = .again s) ∨
      (2 ^ 31 ≤ format.bytes.length ∧ step format args s = .stuck) ∨
      ∃ s', step format args s = .again s' ∧ Advances format s s' := by
  have hin : s.mode.inDirective = true := by
    rw [hmode]
    rfl
  have hstep : step format args s = switch format args s d c := by
    rw [step,hget]
    simp only [hmode]
  rw [hstep]
  cases hflag : isFlag c with
  | true => exact .inr ((switch_flag hin hget hflag).imp And.symm id)
  | false =>
    cases hletter : isLetter c with
    | true =>
      have h0 : c ≠ 0 := by
        rintro rfl
        exact absurd hletter (by decide)
      obtain ⟨chars,counted,hswitch⟩ := switch_letter hletter
      exact .inr (.inr ⟨_,hswitch,advances_letter hin hget hflag hletter h0 chars counted⟩)
    | false =>
      refine .inl ⟨?_,switch_other hflag hletter⟩
      rw [State.onTrack,hin]
      rcases (CString.get_cases hget).2 with ⟨-,hend⟩ | ⟨-,-,hdrop⟩
      · rw [hend,List.drop_length]
        rfl
      · rw [hdrop,wellFormed,hflag,hletter]
        rfl

theorem step_number (hmode : s.mode = .number d) (hget : format.get s.i = some c) :
    ∃ s', step format args s = .again s' ∧ Advances format s s' := by
  rw [step,hget]
  simp only [hmode]
  by_cases hdigit : '0'.toUInt8 ≤ c ∧ c ≤ '9'.toUInt8
  · have h0 : c ≠ 0 := by
      rintro rfl
      exact absurd hdigit (by decide)
    have hflag : isFlag c = true := by
      simp only [isFlag,decide_eq_true_eq]
      exact .inr (.inr (.inr (.inr hdigit)))
    refine ⟨_,if_pos hdigit,advances_flag ?_ hget hflag h0 rfl rfl⟩
    rw [hmode]
    rfl
  · refine ⟨_,if_neg hdigit,?_,?_,?_⟩
    · rcases (CString.get_cases hget).2 with ⟨-,hend⟩ | ⟨-,hlt,-⟩
      · exact hend.le
      · exact hlt.le
    · rw [State.onTrack,State.onTrack,hmode]
      rfl
    · simp only [State.left,hmode]
      omega

-- What one turn does: return at the terminator, wait for ever at a character that is no flag and no
-- letter, lose its place in a format that `int` cannot index, or get on.
theorem step_cases (args : Nat → Arg) (hi : s.i ≤ format.bytes.length) :
    (s.onTrack format = true ∧ format.bytes.length < 2 ^ 31 ∧ ∃ r, step format args s = .stop r) ∨
      (s.onTrack format = false ∧ step format args s = .again s) ∨
      (2 ^ 31 ≤ format.bytes.length ∧ step format args s = .stuck) ∨
      ∃ s', step format args s = .again s' ∧ Advances format s s' := by
  cases hget : format.get s.i with
  | none =>
    refine .inr (.inr (.inl ⟨Nat.le_of_not_lt fun hlen => ?_,by rw [step,hget]⟩))
    obtain ⟨c,hc⟩ := CString.get_isSome hi hlen
    rw [hget] at hc
    cases hc
  | some c =>
    cases hmode : s.mode with
    | text => exact (step_text hmode hget).imp id fun h => .inr (.inr h)
    | flags d => exact .inr (step_flags hmode hget)
    | number d => exact .inr (.inr (.inr (step_number hmode hget)))

theorem onTrack_of_ends (hi : s.i ≤ format.bytes.length) (h : Ends (step format args) s r) :
    s.onTrack format = true ∧ format.bytes.length < 2 ^ 31 := by
  obtain ⟨n,hn⟩ := h
  induction n generalizing s with
  | zero => cases hn
  | succ n ih =>
    rw [run] at hn
    rcases step_cases args hi with ⟨honTrack,hlen,-⟩ | ⟨-,hstep⟩ | ⟨-,hstep⟩ |
        ⟨s',hstep,hadv⟩
    · exact ⟨honTrack,hlen⟩
    · rw [hstep] at hn
      exact ih hi hn
    · rw [hstep] at hn
      cases hn
    · rw [hstep] at hn
      obtain ⟨honTrack,hlen⟩ := ih hadv.le hn
      exact ⟨hadv.onTrack ▸ honTrack,hlen⟩

theorem ends_of_onTrack (args : Nat → Arg) (hlen : format.bytes.length < 2 ^ 31) (hi : s.i ≤ format.bytes.length)
    (h : s.onTrack format = true) : ∃ r, Ends (step format args) s r := by
  refine ends_of_measure (I := fun s => s.i ≤ format.bytes.length ∧ s.onTrack format = true)
    (State.left · format) ?_ ⟨hi,h⟩
  rintro c ⟨hle,honTrack⟩
  rcases step_cases args hle with ⟨-,-,hstop⟩ | ⟨hoff,-⟩ | ⟨hlong,-⟩ | ⟨s',hstep,hadv⟩
  · exact .inl hstop
  · rw [honTrack] at hoff
    cases hoff
  · omega
  · exact .inr ⟨s',hstep,⟨hadv.le,hadv.onTrack.trans honTrack⟩,hadv.less⟩

theorem wellFormed_of_returns {written : Int32} {out : List UInt8}
    (h : Returns format args written out) :
    wellFormed false format.bytes = true ∧ format.bytes.length < 2 ^ 31 :=
  onTrack_of_ends (s := {}) (Nat.zero_le _) h

theorem vprintf_returns_iff (format : CString) (args : Nat → Arg) :
    (∃ written out, Returns format args written out) ↔
      wellFormed false format.bytes = true ∧ format.bytes.length < 2 ^ 31 := by
  constructor
  · rintro ⟨written,out,h⟩
    exact wellFormed_of_returns h
  · rintro ⟨hform,hlen⟩
    obtain ⟨⟨written,out⟩,h⟩ := ends_of_onTrack args (s := {}) hlen (Nat.zero_le _) hform
    exact ⟨written,out,h⟩

theorem vprintf_hangs : ¬∀ (format : CString) (args : Nat → Arg),
    ∃ written out, Returns format args written out := by
  intro hall
  obtain ⟨written,out,h⟩ := hall ⟨ascii "100%",by decide⟩ fun _ => ⟨0,fun _ => 0,0,rfl⟩
  exact absurd (wellFormed_of_returns h).1 (by decide)

end SabaOS.Klib.Vprintf
