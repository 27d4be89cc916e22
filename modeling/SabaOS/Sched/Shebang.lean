import SabaOS.Fs.Slashes
import SabaOS.Sched.ExecAtomic
import SabaOS.Sched.InitialStack

namespace SabaOS.Sched

open SabaOS.Klib SabaOS.Lib SabaOS.Elf SabaOS.Fs

open SabaOS.Vfs (cstr)

-- A loop that goes on while `p` holds of the byte at the index; no byte there is a read outside.
def scan (p : UInt8 → Bool) : List UInt8 → Nat → Option Nat
  | [],_ => none
  | c :: cs,i => if p c then scan p cs (i + 1) else some i

def inWord (c : UInt8) : Bool := c ≠ 0 ∧ c ≠ space

-- The loops of `user_exec` over its buffer with their one index; `none` is a read outside.
def scanWords (buf : List UInt8) : Option (Option Shebang) := do
  let i ← scan (· = space) (buf.drop 2) 2
  let c ← buf[i]?
  if c = 0 then return none
  else do
    let j ← scan inWord (buf.drop i) i
    if j - i = 0 then return none
    else do
      let k ← scan inWord (buf.drop j) j
      let arg := (buf.drop j).take (k - j)
      return some ⟨.ofBytes ((buf.drop i).take (j - i)),
        if k - j = 0 then none else some (.ofBytes arg)⟩

def scanShebang (buf : List UInt8) : Option (Option Shebang) :=
  if newline ∉ buf then some none
  else do
    let buf := buf.set (buf.idxOf newline) 0
    let c ← buf[0]?
    if c ≠ 35 then return none
    else do
      let c ← buf[1]?
      if c ≠ 33 then return none
      else scanWords buf

def shebangBuffer (file : File) : List UInt8 := file.readInto (List.replicate 256 0) 0

section Scan

variable {p : UInt8 → Bool} {z rest : List UInt8} {i : Nat}

theorem scan_stops (hp : p 0 = false) :
    scan p (z ++ 0 :: rest) i = some (i + (z.takeWhile p).length) := by
  induction z generalizing i with
  | nil => rw [List.nil_append,scan,if_neg (by simp [hp])]; rfl
  | cons c z ih =>
    rw [List.cons_append,scan,List.takeWhile_cons]
    split_ifs with hc
    · rw [ih,List.length_cons,Nat.add_right_comm,Nat.add_assoc]
    · rfl

theorem split_word (p : UInt8 → Bool) (z rest : List UInt8) :
    (z ++ rest).take (z.takeWhile p).length = z.takeWhile p ∧
      (z ++ rest).drop (z.takeWhile p).length = z.dropWhile p ++ rest := by
  have hsplit : z ++ rest = z.takeWhile p ++ (z.dropWhile p ++ rest) := by
    rw [← List.append_assoc,List.takeWhile_append_dropWhile]
  rw [hsplit]
  exact ⟨List.take_left,List.drop_left⟩

theorem cstr_split (z rest : List UInt8) : ∃ rest', z ++ 0 :: rest = cstr z ++ 0 :: rest' := by
  induction z with
  | nil => exact ⟨rest,rfl⟩
  | cons c z ih =>
    rcases eq_or_ne c 0 with rfl | hc
    · exact ⟨z ++ 0 :: rest,rfl⟩
    · obtain ⟨rest',h⟩ := ih
      refine ⟨rest',?_⟩
      rw [cstr,List.takeWhile_cons_of_pos (by simpa using hc),List.cons_append,h]
      rfl

theorem inWord_eq {c : UInt8} (hc : c ≠ 0) : inWord c = decide (c ≠ space) := by
  simp [inWord,hc]

theorem takeWhile_inWord (hz : 0 ∉ z) : z.takeWhile inWord = z.takeWhile (· ≠ space) ∧
    z.dropWhile inWord = z.dropWhile (· ≠ space) := by
  induction z with
  | nil => exact ⟨rfl,rfl⟩
  | cons c z ih =>
    obtain ⟨hc,hz⟩ := not_or.mp (mt List.mem_cons.mpr hz)
    obtain ⟨htake,hdrop⟩ := ih hz
    rw [List.takeWhile_cons,List.takeWhile_cons,List.dropWhile_cons,List.dropWhile_cons,
      inWord_eq (Ne.symm hc),htake,hdrop]
    exact ⟨rfl,rfl⟩

theorem scan_word (hz : 0 ∉ z) (rest : List UInt8) (i : Nat) :
    scan inWord (z ++ 0 :: rest) i = some (i + (z.takeWhile (· ≠ space)).length) ∧
      (z ++ 0 :: rest).take (z.takeWhile (· ≠ space)).length = z.takeWhile (· ≠ space) ∧
      (z ++ 0 :: rest).drop (z.takeWhile (· ≠ space)).length =
        z.dropWhile (· ≠ space) ++ 0 :: rest := by
  obtain ⟨htake,hdrop⟩ := takeWhile_inWord hz
  rw [← htake,← hdrop]
  exact ⟨scan_stops rfl,split_word inWord z (0 :: rest)⟩

end Scan

def parseWords (z : List UInt8) : Option Shebang :=
  let text := z.dropWhile (· = space)
  if text = [] then none
  else
    let path := text.takeWhile (· ≠ space)
    let arg := (text.dropWhile (· ≠ space)).takeWhile (· ≠ space)
    if path = [] then none
    else some ⟨.ofBytes path,if arg = [] then none else some (.ofBytes arg)⟩

theorem scanWords_eq {a b : UInt8} {z rest : List UInt8} (hz : 0 ∉ z) :
    scanWords (a :: b :: (z ++ 0 :: rest)) = some (parseWords z) := by
  generalize hbuf : a :: b :: (z ++ 0 :: rest) = buf
  have hspaces : scan (· = space) (buf.drop 2) 2 = some (2 + (z.takeWhile (· = space)).length) := by
    rw [← hbuf]
    exact scan_stops rfl
  have htext : buf.drop (2 + (z.takeWhile (· = space)).length) =
      z.dropWhile (· = space) ++ 0 :: rest := by
    rw [← hbuf,Nat.add_comm]
    exact (split_word (· = space) z (0 :: rest)).2
  have hnul : 0 ∉ z.dropWhile (· = space) := fun h => hz ((List.dropWhile_sublist _).subset h)
  rw [scanWords,hspaces,parseWords]
  generalize 2 + (z.takeWhile (· = space)).length = i at htext
  generalize z.dropWhile (· = space) = text at htext hnul
  cases text with
  | nil =>
    have hend : buf[i]? = some 0 := by
      rw [← List.head?_drop,htext]
      rfl
    simp only [Option.bind_eq_bind,Option.bind_some,hend,if_true]
    rfl
  | cons c text =>
    have hhead : buf[i]? = some c := by
      rw [← List.head?_drop,htext]
      rfl
    have hc : c ≠ 0 := fun h => hnul (h ▸ List.mem_cons_self)
    obtain ⟨hpath,hword,hrest⟩ := scan_word hnul rest i
    have htail : 0 ∉ (c :: text).dropWhile (· ≠ space) :=
      fun h => hnul ((List.dropWhile_sublist _).subset h)
    rw [← htext] at hpath hword hrest
    rw [List.drop_drop] at hrest
    generalize (c :: text).takeWhile (· ≠ space) = path at hpath hword hrest
    generalize (c :: text).dropWhile (· ≠ space) = tail at hrest htail
    obtain ⟨harg,hargWord,-⟩ := scan_word htail rest (i + path.length)
    rw [← hrest] at harg hargWord
    generalize tail.takeWhile (· ≠ space) = arg at harg hargWord
    simp only [Option.bind_eq_bind,Option.bind_some,hhead,hc,if_false,hpath,harg,hword,
      Nat.add_sub_cancel_left,hargWord,List.length_eq_zero_iff,List.cons_ne_nil]
    split_ifs
    · rfl
    · rfl
    · rfl

def parseBuffer (buf : List UInt8) : Option Shebang :=
  if newline ∉ buf ∨ (buf.getD 0 0 ≠ 35 ∨ buf.getD 1 0 ≠ 33) then none
  else parseWords (cstr ((buf.takeWhile (· ≠ newline)).drop 2))

theorem parseShebang_eq (file : File) : parseShebang file = parseBuffer (shebangBuffer file) := rfl

theorem newline_split {line : List UInt8} (hline : newline ∉ line) (rest : List UInt8) :
    (line ++ newline :: rest).takeWhile (· ≠ newline) = line ∧
      (line ++ newline :: rest).set ((line ++ newline :: rest).idxOf newline) 0 = line ++ 0 :: rest := by
  constructor
  · rw [List.takeWhile_append_of_pos (fun c hc => by simpa using ne_of_mem_of_not_mem hc hline),
      List.takeWhile_cons_of_neg (by simp),List.append_nil]
  · rw [List.idxOf_append_of_notMem hline,List.idxOf_cons_self,Nat.add_zero,
      List.set_append_right _ _ (Nat.le_refl _),Nat.sub_self]
    rfl

theorem scanShebang_eq (buf : List UInt8) : scanShebang buf = some (parseBuffer buf) := by
  by_cases hmem : newline ∈ buf
  · obtain ⟨line,rest,rfl,hline⟩ := List.eq_append_cons_of_mem hmem
    obtain ⟨htake,hset⟩ := newline_split hline rest
    rw [scanShebang,if_neg (not_not.mpr hmem),parseBuffer,htake,hset]
    match line with
    | [] => rfl
    | [a] =>
      rw [if_pos (.inr (.inr (show newline ≠ 33 from by decide)))]
      by_cases ha : a = 35
      · subst ha
        rfl
      · exact if_pos ha
    | a :: b :: line =>
      by_cases ha : a = 35
      · by_cases hb : b = 33
        · subst ha hb
          obtain ⟨rest',hsplit⟩ := cstr_split line rest
          rw [if_neg (by simp)]
          change scanWords (35 :: 33 :: (line ++ 0 :: rest)) = _
          rw [hsplit]
          exact scanWords_eq (cstr_noNul line)
        · rw [if_pos (.inr (.inr hb))]
          exact (if_neg (not_not.mpr ha)).trans (if_pos hb)
      · rw [if_pos (.inr (.inl ha))]
        exact if_pos ha
  · rw [scanShebang,if_pos hmem,parseBuffer,if_pos (.inl hmem)]

def firstLine (buf : List UInt8) : Option (List UInt8) :=
  if newline ∈ buf then some (buf.takeWhile (· ≠ newline)) else none

structure Says (line : List UInt8) (shebang : Shebang) (spaces : Nat) (rest : List UInt8) : Prop where
  line : line = 35 :: 33 :: (List.replicate spaces space ++ (shebang.interpreterPath.bytes ++ rest))
  path : shebang.interpreterPath.bytes ≠ [] ∧ space ∉ shebang.interpreterPath.bytes
  none : shebang.interpreterArg = none → rest = []
  arg : ∀ arg, shebang.interpreterArg = some arg → arg.bytes ≠ [] ∧ space ∉ arg.bytes ∧
    ∃ n, rest = List.replicate (n + 1) space ++ arg.bytes

def Names (buf : List UInt8) (shebang : Shebang) : Prop :=
  ∃ line spaces rest, firstLine buf = some line ∧ Says line shebang spaces rest

def Bare (buf : List UInt8) (argv : List CString) : Prop :=
  ∀ text, firstLine buf = some (35 :: 33 :: text) →
    (text.dropWhile (· = space)).getD 0 0 = 0 ∨
      space ∉ text.dropWhile (· = space) ∧ 0 ∉ text.dropWhile (· = space) ∧ argv ≠ []

section Words

variable {text word : List UInt8} {buf : List UInt8} {shebang : Shebang}

theorem dropWhile_cstr (text : List UInt8) :
    (cstr text).dropWhile (· = space) = cstr (text.dropWhile (· = space)) := by
  induction text with
  | nil => rfl
  | cons c text ih =>
    rcases eq_or_ne c space with rfl | hc
    · exact ih
    · rw [List.dropWhile_cons_of_neg (p := (· = space)) (by simpa using hc),cstr]
      rcases eq_or_ne c 0 with rfl | hzero
      · rfl
      · rw [List.takeWhile_cons_of_pos (by simpa using hzero),
          List.dropWhile_cons_of_neg (by simpa using hc)]

theorem dropWhile_head {p : UInt8 → Bool} {c : UInt8} (h : text.dropWhile p = c :: word) :
    p c = false := by
  have hne : text.dropWhile p ≠ [] := h ▸ List.cons_ne_nil c word
  have hhead : (text.dropWhile p).head hne = c := by simp only [h,List.head_cons]
  exact hhead ▸ List.head_dropWhile_not p (l := text) hne

theorem parseWords_blank (h : (text.dropWhile (· = space)).getD 0 0 = 0) :
    parseWords (cstr text) = none := by
  have hnil : cstr (text.dropWhile (· = space)) = [] := by
    cases hword : text.dropWhile (· = space) with
    | nil => rfl
    | cons c word =>
      rw [hword] at h
      obtain rfl : c = 0 := h
      rfl
  rw [parseWords,dropWhile_cstr,hnil]
  rfl

theorem parseWords_word (h : (text.dropWhile (· = space)).getD 0 0 ≠ 0) :
    parseWords (cstr text) =
      some ⟨.ofBytes ((cstr (text.dropWhile (· = space))).takeWhile (· ≠ space)),none⟩ := by
  cases hword : text.dropWhile (· = space) with
  | nil => exact absurd (by rw [hword]; rfl) h
  | cons c word =>
    have hc : c ≠ 0 := by
      rw [hword] at h
      exact h
    have hspace : c ≠ space := by simpa using dropWhile_head hword
    have hcstr : cstr (c :: word) = c :: cstr word :=
      List.takeWhile_cons_of_pos (by simpa using hc)
    have harg : ((c :: cstr word).dropWhile (· ≠ space)).takeWhile (· ≠ space) = [] := by
      cases hd : (c :: cstr word).dropWhile (· ≠ space) with
      | nil => rfl
      | cons d rest => exact List.takeWhile_cons_of_neg (by simpa using dropWhile_head hd)
    have hpath : (c :: cstr word).takeWhile (· ≠ space) ≠ [] := by
      rw [List.takeWhile_cons_of_pos (by simpa using hspace)]
      exact List.cons_ne_nil _ _
    rw [parseWords,dropWhile_cstr,hword,hcstr]
    dsimp only
    rw [if_neg (List.cons_ne_nil _ _),if_neg hpath,harg]
    rfl

theorem parseBuffer_line (h : firstLine buf = some (35 :: 33 :: text)) :
    parseBuffer buf = parseWords (cstr text) := by
  rw [firstLine] at h
  split_ifs at h with hmem
  obtain ⟨line,rest,rfl,hline⟩ := List.eq_append_cons_of_mem hmem
  obtain ⟨htake,-⟩ := newline_split hline rest
  rw [htake] at h
  obtain rfl := Option.some.inj h
  rw [parseBuffer,htake,if_neg (by simp)]
  rfl

theorem parseBuffer_some (h : parseBuffer buf = some shebang) :
    ∃ text, firstLine buf = some (35 :: 33 :: text) := by
  rw [parseBuffer] at h
  split_ifs at h with hcond
  obtain ⟨hmem,hmark⟩ := not_or.mp hcond
  obtain ⟨h₀,h₁⟩ := not_or.mp hmark
  obtain ⟨line,rest,rfl,hline⟩ := List.eq_append_cons_of_mem (not_not.mp hmem)
  obtain ⟨htake,-⟩ := newline_split hline rest
  rw [firstLine,if_pos (not_not.mp hmem),htake]
  match line with
  | [] => exact absurd (not_not.mp h₀) (show newline ≠ 35 from by decide)
  | [a] => exact absurd (not_not.mp h₁) (show newline ≠ 33 from by decide)
  | a :: b :: text =>
    obtain rfl : a = 35 := not_not.mp h₀
    obtain rfl : b = 33 := not_not.mp h₁
    exact ⟨text,rfl⟩

theorem Says.words {spaces : Nat} {rest : List UInt8} (h : Says (35 :: 33 :: text) shebang spaces rest) :
    text.dropWhile (· = space) = shebang.interpreterPath.bytes ++ rest := by
  have hline := (List.cons.inj (List.cons.inj h.line).2).2
  rw [hline,List.dropWhile_append_of_pos (fun c hc => by simpa using List.eq_of_mem_replicate hc)]
  obtain ⟨hne,hspace⟩ := h.path
  cases hpath : shebang.interpreterPath.bytes with
  | nil => exact absurd hpath hne
  | cons c path =>
    rw [hpath] at hspace
    exact List.dropWhile_cons_of_neg (by simpa using Ne.symm (List.ne_of_not_mem_cons hspace))

theorem Says.head {spaces : Nat} {rest : List UInt8} (h : Says (35 :: 33 :: text) shebang spaces rest) :
    (text.dropWhile (· = space)).getD 0 0 ≠ 0 := by
  rw [h.words]
  have hnul := shebang.interpreterPath.noNul
  cases hpath : shebang.interpreterPath.bytes with
  | nil => exact absurd hpath h.path.1
  | cons c path =>
    rw [hpath] at hnul
    exact Ne.symm (List.ne_of_not_mem_cons hnul)

end Words

def ExecState.Holds (s : ExecState) (argv : List CString) : Prop :=
  ∃ ptrs, s.argv = ptrs.map some ++ [none] ∧
    List.Forall₂ (fun ptr str => ptr < s.nextString ∧ s.strings ptr = some str) ptrs argv

structure Follows (s : ExecState) (file : File) (path : CString) (argv : List CString) : Prop where
  inside : (scanShebang (shebangBuffer file)).isSome
  extracts : ∀ shebang, Names (shebangBuffer file) shebang → parseShebang file = some shebang
  rejects : (∀ shebang, ¬Names (shebangBuffer file) shebang) → parseShebang file = none
  passes : ∀ shebang, parseShebang file = some shebang → ∀ binary envp,
    binary.shebang = some shebang → ((s.prepare path binary).program path argv.length envp binary).args =
      shebang.interpreterPath :: (shebang.interpreterArg.toList ++ path :: argv.tail)

section Passes

variable {s : ExecState} {argv : List CString} {path : CString} {binary : Binary}
variable {shebang : Shebang} {envp : List CString}

theorem held_strings {ptrs : List Nat} {strings : Nat → Option CString} {rest : List (Option Nat)}
    (h : List.Forall₂ (fun ptr str => strings ptr = some str) ptrs argv) :
    ((ptrs.map some ++ rest).take argv.length).filterMap (fun ptr => ptr.bind strings) = argv := by
  induction h with
  | nil => rfl
  | @cons ptr str ptrs argv hptr _ ih =>
    rw [List.map_cons,List.cons_append,List.length_cons,List.take_succ_cons,
      List.filterMap_cons,Option.bind_some,hptr,ih]

theorem prepared_args (hs : s.Holds argv) (hb : binary.shebang = some shebang) :
    ((s.prepare path binary).program path argv.length envp binary).args =
      shebang.interpreterPath :: (shebang.interpreterArg.toList ++ argv.set 0 path) := by
  obtain ⟨ptrs,hargv,hheld⟩ := hs
  have hprogram : (((s.argv.set 0 (some s.nextString)).take argv.length).filterMap
      fun ptr => ptr.bind (Function.update s.strings s.nextString (some path))) = argv.set 0 path := by
    rw [hargv]
    cases hheld with
    | nil => rfl
    | @cons ptr str ptrs argv hptr hrest =>
      refine @held_strings (path :: argv) (s.nextString :: ptrs) _ [none] (.cons ?_ ?_)
      · exact Function.update_self _ _ _
      · refine hrest.imp fun p c hp => ?_
        rw [Function.update_of_ne (Nat.ne_of_lt hp.1)]
        exact hp.2
  rw [Program.args,ExecState.prepare,hb]
  simp only [ExecState.program,hb]
  exact congrArg (fun l => shebang.interpreterPath :: (shebang.interpreterArg.toList ++ l)) hprogram

end Passes

section Main

variable {s : ExecState} {argv : List CString} {path : CString} {file : File}

theorem cstr_of_noNul {word : List UInt8} (h : 0 ∉ word) : cstr word = word :=
  List.takeWhile_eq_self_iff.mpr fun c hc => by simpa using ne_of_mem_of_not_mem hc h

theorem parseWords_bare {text : List UInt8} (hhead : (text.dropWhile (· = space)).getD 0 0 ≠ 0)
    (hspace : space ∉ text.dropWhile (· = space)) (hnul : 0 ∉ text.dropWhile (· = space)) :
    parseWords (cstr text) = some ⟨⟨text.dropWhile (· = space),hnul⟩,none⟩ := by
  have hpath : (text.dropWhile (· = space)).takeWhile (· ≠ space) = text.dropWhile (· = space) :=
    List.takeWhile_eq_self_iff.mpr fun c hc => by simpa using ne_of_mem_of_not_mem hc hspace
  rw [parseWords_word hhead,cstr_of_noNul hnul,hpath]
  simp only [CString.ofBytes,cstr_of_noNul hnul]

theorem named_parses {buf : List UInt8} {shebang : Shebang} (hb : Bare buf argv)
    (h : Names buf shebang) : parseBuffer buf = some shebang := by
  obtain ⟨line,spaces,rest,hline,hnamed⟩ := h
  obtain ⟨text,rfl⟩ : ∃ text, line = 35 :: 33 :: text := ⟨_,hnamed.line⟩
  obtain ⟨hspace,hnul,-⟩ := (hb text hline).resolve_left hnamed.head
  rw [parseBuffer_line hline,parseWords_bare hnamed.head hspace hnul]
  have hnone : shebang.interpreterArg = none := by
    cases harg : shebang.interpreterArg with
    | none => rfl
    | some arg =>
      obtain ⟨-,-,n,rfl⟩ := hnamed.arg arg harg
      rw [hnamed.words] at hspace
      exact absurd (List.mem_append_right _ (List.mem_append_left _
        (List.mem_replicate.mpr ⟨Nat.succ_ne_zero n,rfl⟩))) hspace
  have hwords := hnamed.words
  rw [hnamed.none hnone,List.append_nil] at hwords
  obtain ⟨word,arg⟩ := shebang
  obtain rfl : arg = none := hnone
  simp only [hwords]

theorem bare_rejects {buf : List UInt8} {shebang : Shebang} (hb : Bare buf argv)
    (h : parseBuffer buf = some shebang) : Names buf shebang ∧ argv ≠ [] := by
  obtain ⟨text,hline⟩ := parseBuffer_some h
  rw [parseBuffer_line hline] at h
  by_cases hhead : (text.dropWhile (· = space)).getD 0 0 = 0
  · rw [parseWords_blank hhead] at h
    cases h
  · obtain ⟨hspace,hnul,hargv⟩ := (hb text hline).resolve_left hhead
    rw [parseWords_bare hhead hspace hnul] at h
    cases h
    refine ⟨⟨_,(text.takeWhile (· = space)).length,[],hline,?_,⟨?_,hspace⟩,fun _ => rfl,?_⟩,hargv⟩
    · have hspaces : List.replicate (text.takeWhile (· = space)).length space =
          text.takeWhile (· = space) :=
        (List.eq_replicate_of_mem fun c hc => by simpa using List.mem_takeWhile_imp hc).symm
      rw [hspaces,List.append_nil,List.takeWhile_append_dropWhile]
    · intro hnil
      exact hhead (by rw [show text.dropWhile (· = space) = [] from hnil]; rfl)
    · intro arg harg
      cases harg

theorem Follows.of_bare (hs : s.Holds argv) (hb : Bare (shebangBuffer file) argv) :
    Follows s file path argv where
  inside := by
    rw [scanShebang_eq]
    rfl
  extracts := fun shebang h => named_parses hb h
  rejects := by
    intro hnone
    cases hparse : parseShebang file with
    | none => rfl
    | some shebang => exact absurd (bare_rejects hb hparse).1 (hnone shebang)
  passes := by
    intro shebang hparse binary envp hbinary
    obtain ⟨a,rest,rfl⟩ := List.exists_cons_of_ne_nil (bare_rejects hb hparse).2
    exact prepared_args hs hbinary

def binaryOf (file : File) (shebang : Shebang) : Binary :=
  ⟨⟨0,[],.regular,file⟩,⟨{},0,none,{}⟩,some shebang⟩

theorem Follows.bare (hs : s.Holds argv) (h : Follows s file path argv) :
    Bare (shebangBuffer file) argv := by
  intro text hline
  refine or_iff_not_imp_left.mpr fun hhead => ?_
  have hparse : parseShebang file = _ := (parseBuffer_line hline).trans (parseWords_word hhead)
  have hargv : argv ≠ [] := by
    rintro rfl
    have hpasses := h.passes _ hparse (binaryOf file _) [] rfl
    rw [prepared_args hs rfl] at hpasses
    simp at hpasses
  have hnamed : ∃ shebang, Names (shebangBuffer file) shebang := by
    by_contra hnone
    rw [h.rejects fun shebang hnames => hnone ⟨shebang,hnames⟩] at hparse
    cases hparse
  obtain ⟨shebang,hnames⟩ := hnamed
  have heq := Option.some.inj ((h.extracts shebang hnames).symm.trans hparse)
  obtain ⟨line,spaces,rest,hline',hnamed⟩ := hnames
  obtain rfl := Option.some.inj (hline'.symm.trans hline)
  have hrest := hnamed.none (by rw [heq])
  have hwords := hnamed.words
  rw [hrest,List.append_nil] at hwords
  rw [hwords]
  exact ⟨hnamed.path.2,shebang.interpreterPath.noNul,hargv⟩

end Main

section Run

variable {env : ExecEnv} {old s s' : ExecState} {path : CString} {argvLen : Nat}
variable {envp : List CString} {node : Node} {err : Int}

theorem loadLinker_ok {ldPath : Option (List UInt8)} {linker : Option Auxval}
    (h : s.loadLinker env ldPath = some (s',.ok linker)) : Loads s s' := by
  unfold ExecState.loadLinker at h
  split at h
  · cases h
    exact .refl s
  · split at h
    · cases h
    · split_ifs at h
      · cases h
      · obtain ⟨⟨s₁,r⟩,hl,h⟩ := Option.bind_eq_some_iff.mp h
        cases r with
        | error e => cases h
        | ok loaded =>
          cases h
          exact (load_ok hl).1

theorem execBinary_rejects (ha : (readHeader node.file).accepted = false)
    (hparse : parseShebang node.file = none)
    (h : old.execBinary env s path argvLen envp node = some (s',err)) : err = -enoexec := by
  have hload : s.load env node.file userBinaryBase true = some (s,.error (-enoexec)) := by
    rw [ExecState.load,Elf.load]
    simp [ha]
  simp only [ExecState.execBinary,ExecState.loadBinary,hload,ExecState.loadInterpreter,hparse,
    Option.bind_eq_bind,Option.bind_some] at h
  cases h
  rfl

section Errors

variable {file : File} {loadBase : UInt64} {withLdPath : Bool} {binary : Binary}

theorem load_errno (h : s.load env file loadBase withLdPath = some (s',.error err)) :
    err = -enoexec := by
  obtain ⟨r,hr,h⟩ := Option.bind_eq_some_iff.mp h
  cases r with
  | ok loaded => cases h
  | error e =>
    cases h
    have ha := elf_error hr
    rw [Elf.load] at hr
    simp only [ha,Bool.false_eq_true,if_false] at hr
    cases hr
    rfl

theorem loadInterpreter_errno {e : Int} (he : e < 0)
    (h : s.loadInterpreter env e node = some (s',.error err)) : err < 0 := by
  unfold ExecState.loadInterpreter at h
  split at h
  · cases h
    exact he
  · split at h
    · cases h
      decide
    · split_ifs at h
      · cases h
        decide
      · obtain ⟨⟨s₁,r⟩,hl,h⟩ := Option.bind_eq_some_iff.mp h
        cases r with
        | ok loaded => cases h
        | error e =>
          cases h
          rw [load_errno hl]
          decide

theorem loadBinary_errno (h : s.loadBinary env node = some (s',.error err)) : err < 0 := by
  obtain ⟨⟨s₁,r⟩,hl,h⟩ := Option.bind_eq_some_iff.mp h
  cases r with
  | ok loaded => cases h
  | error e => exact loadInterpreter_errno (by rw [load_errno hl]; decide) h

theorem loadLinker_errno {ldPath : Option (List UInt8)}
    (h : s.loadLinker env ldPath = some (s',.error err)) : err < 0 := by
  unfold ExecState.loadLinker at h
  split at h
  · cases h
  · split at h
    · cases h
      decide
    · split_ifs at h
      · cases h
        decide
      · obtain ⟨⟨s₁,r⟩,hl,h⟩ := Option.bind_eq_some_iff.mp h
        cases r with
        | ok loaded => cases h
        | error e =>
          cases h
          rw [load_errno hl]
          decide

end Errors

theorem programFrom_shebang {program : Node} {shebang : Option Shebang}
    (ha : (readHeader node.file).accepted = false)
    (h : programFrom env s node = some (program,shebang)) :
    ∃ x, shebang = some x ∧ parseShebang node.file = some x := by
  rw [programFrom,if_neg (by simp [ha])] at h
  cases hparse : parseShebang node.file with
  | none =>
    rw [hparse] at h
    cases h
  | some x =>
    rw [hparse] at h
    dsimp only at h
    split at h
    · cases h
    · split_ifs at h
      cases h
      exact ⟨x,rfl,rfl⟩

theorem closeOnExec_pagemap (s : ExecState) (n : Nat) : (s.closeOnExec n).pagemap = s.pagemap := by
  induction n with
  | zero => rfl
  | succ n ih =>
    rw [ExecState.closeOnExec]
    split
    · exact ih
    · split_ifs
      · exact ih
      · exact ih

theorem commit_bytes (s : ExecState) (binary : Binary) (linker : Option Auxval) :
    ∃ bytes sp, (s.commit path argvLen envp binary linker).pagemap.image.bytes =
      (buildStack bytes sp (s.program path argvLen envp binary)).stack.bytes := by
  refine ⟨s.mapStack.pagemap.image.bytes,s.mapStack.userStack,?_⟩
  rw [ExecState.commit]
  dsimp only
  rw [closeOnExec_pagemap]
  rfl

theorem Loads.prepared {s s₁ s₂ : ExecState} {binary : Binary} (h : Loads s s₁)
    (h' : Loads (s₁.prepare path binary) s₂) :
    s₂.program path argvLen envp binary =
      (s.prepare path binary).program path argvLen envp binary := by
  obtain ⟨h⟩ := h
  obtain ⟨h'⟩ := h'
  rw [h',h]
  unfold ExecState.prepare
  split_ifs
  · rfl
  · rfl

theorem execBinary_script (ha : (readHeader node.file).accepted = false) (herr : 0 ≤ err)
    (h : old.execBinary env s path argvLen envp node = some (s',err)) :
    ∃ shebang binary bytes sp, parseShebang node.file = some shebang ∧
      binary.shebang = some shebang ∧ s'.pagemap.image.bytes =
        (buildStack bytes sp ((s.prepare path binary).program path argvLen envp binary)).stack.bytes := by
  obtain ⟨⟨s₁,r⟩,hb,h⟩ := Option.bind_eq_some_iff.mp h
  cases r with
  | error e =>
    cases h
    exact absurd (loadBinary_errno hb) (Int.not_lt.mpr herr)
  | ok binary =>
    obtain ⟨⟨s₂,r⟩,hl,h⟩ := Option.bind_eq_some_iff.mp h
    cases r with
    | error e =>
      cases h
      exact absurd (loadLinker_errno hl) (Int.not_lt.mpr herr)
    | ok linker =>
      cases h
      obtain ⟨hloaded,hfrom⟩ := loadBinary_ok hb
      obtain ⟨shebang,hshebang,hparse⟩ := programFrom_shebang ha hfrom
      obtain ⟨bytes,sp,hbytes⟩ := @commit_bytes path argvLen envp s₂ binary linker
      refine ⟨shebang,binary,bytes,sp,hparse,hshebang,?_⟩
      rw [hloaded.loads.prepared (loadLinker_ok hl)] at hbytes
      rw [hshebang]
      exact hbytes

end Run

theorem shebang_iff {s : ExecState} {argv : List CString} (hs : s.Holds argv) (file : File)
    (path : CString) : Follows s file path argv ↔ Bare (shebangBuffer file) argv :=
  ⟨fun h => h.bare hs,.of_bare hs⟩

theorem shellProcess_holds : shellProcess.Holds [dynamicPath] :=
  ⟨[0],rfl,.cons ⟨by decide,rfl⟩ .nil⟩

theorem shebang_bare : Follows shellProcess (fileOf [35,33,47,115,104,10]) dynamicPath [dynamicPath] := by
  refine (shebang_iff shellProcess_holds _ _).mpr fun text htext => .inr ?_
  have hline : firstLine (shebangBuffer (fileOf [35,33,47,115,104,10])) = some [35,33,47,115,104] := by
    decide +kernel
  obtain rfl : [47,115,104] = text :=
    (List.cons.inj (List.cons.inj (Option.some.inj (hline.symm.trans htext))).2).2
  decide

def scriptFile : File := fileOf [35,33,47,115,104,32,45,101,10]

theorem argument_lost : shellProcess.Holds [dynamicPath] ∧
    ¬Follows shellProcess scriptFile dynamicPath [dynamicPath] := by
  refine ⟨shellProcess_holds,fun h => ?_⟩
  have hnames : Names (shebangBuffer scriptFile)
      ⟨⟨[47,115,104],by decide⟩,some ⟨[45,101],by decide⟩⟩ := by
    refine ⟨[35,33,47,115,104,32,45,101],0,[32,45,101],by decide +kernel,rfl,by decide,?_,?_⟩
    · intro harg
      cases harg
    · intro arg harg
      cases harg
      exact ⟨by decide,by decide,0,rfl⟩
  have harg : ((parseShebang scriptFile).bind (·.interpreterArg)).isNone = true := by decide +kernel
  rw [h.extracts _ hnames] at harg
  cases harg

end SabaOS.Sched
