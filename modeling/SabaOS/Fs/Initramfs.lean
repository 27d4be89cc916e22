import SabaOS.Fs.Lifetime
import SabaOS.Klib.Memory
import SabaOS.Klib.Word

namespace SabaOS.Initramfs

open SabaOS.Fs SabaOS.Klib SabaOS.Lib SabaOS.Vfs

section Loader

-- The fields that are read, in their order; `leading` is `prefix`.
structure USTARHeader where
  name : List UInt8
  mode : List UInt8
  size : List UInt8
  typeflag : UInt8
  linkname : List UInt8
  magic : List UInt8
  devmajor : List UInt8
  devminor : List UInt8
  leading : List UInt8
deriving DecidableEq, Repr

def readHeader (mem : Bytes) (current : Nat) : USTARHeader where
  name := copyOut mem current 100
  mode := copyOut mem (current + 100) 8
  size := copyOut mem (current + 124) 12
  typeflag := mem (current + 156)
  linkname := copyOut mem (current + 157) 100
  magic := copyOut mem (current + 257) 6
  devmajor := copyOut mem (current + 329) 8
  devminor := copyOut mem (current + 337) 8
  leading := copyOut mem (current + 345) 155

-- `char` is signed.
def addDigit (value : UInt64) (c : UInt8) : UInt64 := value * 8 + (c.toInt8.toInt64 - 48).toUInt64

def octalToBin (str : List UInt8) : UInt64 :=
  ((str.take (str.length - 1)).takeWhile (· ≠ 0)).foldl addDigit 0

def readPath (name leading : List UInt8) : Path :=
  if leading.headD 0 = 0 then name ++ List.replicate 157 0
  else cstr leading ++ slash :: name ++ List.replicate (156 - strlen leading) 0

def makeDevId (major minor : UInt32) : Nat :=
  let minorMask : UInt32 := 0xFF
  let majorMask : UInt32 := 0xFFF
  let low := (minor &&& minorMask) ||| ((major &&& majorMask) <<< 8)
  let minorHigh := minor &&& ~~~minorMask
  let majorHigh := major &&& ~~~majorMask
  (low.toUInt64 ||| (minorHigh.toUInt64 <<< 12) ||| (majorHigh.toUInt64 <<< 32)).toNat

def ustar : List UInt8 := [117,115,116,97,114]

-- `-1` leaves the mode as it is.
def modeOf (mode : UInt64) : Option Nat := if mode.toUInt32 = ~~~0 then none else some mode.toUInt32.toNat

def writeEntry (s : State) (e : Nat) (bytes : List UInt8) : Option State :=
  match (s.entry e).vnode with
  | none => none
  | some v => some (s.setVNode v fun x =>
      if x.nodeType = .directory then x
      else { x with contents := bytes ++ x.contents.drop bytes.length })

def createDevice (env : Env) (s : State) (e devId : Nat) (nodeType : NodeType) (mode : Option Nat) :
    Option State :=
  (if env.registered nodeType devId then s.newVNode e (.fresh nodeType) else s).create e nodeType
    (some 0) (some 0) mode

-- From the assertion on. A type that is not known leaves the negative entry.
def fill (env : Env) (fuel dir : Nat) (mem : Bytes) (current : Nat) (h : USTARHeader) (s : State)
    (e : Nat) : Option State :=
  let mode := modeOf (octalToBin h.mode)
  let devId := makeDevId (octalToBin h.devmajor).toUInt32 (octalToBin h.devminor).toUInt32
  let linkPath := readPath h.linkname h.leading
  if h.typeflag = '0'.toUInt8 ∨ h.typeflag = 0 then do
    let s ← s.create e .regular (some 0) (some 0) mode
    writeEntry s e (copyOut mem (current + 512) (octalToBin h.size).toNat)
  else if h.typeflag = '1'.toUInt8 then do
    let (o,s) ← s.pathToEntry env.frame fuel linkPath (some dir) true
    let v ← (s.entry o).vnode
    (s.setVnode e (some v)).create e .hardLink none none none
  else if h.typeflag = '2'.toUInt8 then do
    let s ← s.create e .symlink (some 0) (some 0) (some 0o777)
    writeEntry s e (cstr linkPath)
  else if h.typeflag = '3'.toUInt8 then createDevice env s e devId .charDevice mode
  else if h.typeflag = '4'.toUInt8 then createDevice env s e devId .blockDevice mode
  else if h.typeflag = '5'.toUInt8 then s.create e .directory (some 0) (some 0) mode
  else some s

def place (env : Env) (fuel dir : Nat) (mem : Bytes) (current : Nat) (h : USTARHeader) (s : State) :
    Option State :=
  if cstr (readPath h.name h.leading) = dot ++ [slash] then some s
  else do
    let (e,s) ← s.pathToEntry env.frame fuel (readPath h.name h.leading) (some dir) true
    if (s.entry e).vnode.isSome then none else fill env fuel dir mem current h s e

def following (current : Nat) (h : USTARHeader) : Nat :=
  uadd current (uadd 512 (alignUp (octalToBin h.size).toNat 512))

-- The header is read before the end of the file is looked at.
def loadFrom (env : Env) (fuel dir : Nat) (mem : Bytes) (fileEnd : Nat) :
    Nat → Nat → State → Option State
  | 0,_,_ => none
  | turns + 1,current,s =>
    let h := readHeader mem current
    if h.magic.take 5 ≠ ustar then some s
    else do
      let s ← place env fuel dir mem current h s
      if fileEnd ≤ following current h then some s
      else loadFrom env fuel dir mem fileEnd turns (following current h) s

def loadInto (env : Env) (fuel turns dir : Nat) (mem : Bytes) (fileAddr fileSize : Nat) (s : State) :
    Option State :=
  loadFrom env fuel dir mem (uadd fileAddr fileSize) turns fileAddr s

end Loader

section Archives

inductive Kind where
  | regular (contents : List UInt8)
  | hardLink (target : List Name)
  | symlink (text : List UInt8)
  | charDevice
  | blockDevice
  | directory
deriving DecidableEq, Repr

structure Member where
  path : List Name
  mode : Nat
  kind : Kind
deriving DecidableEq, Repr

structure Node where
  nodeType : NodeType
  contents : List UInt8
  mode : Nat
deriving DecidableEq, Repr

structure Image where
  nodes : List Node
  files : List Name → Option Nat

def Member.node (m : Member) : Option Node :=
  match m.kind with
  | .regular contents => some ⟨.regular,contents,m.mode⟩
  | .hardLink _ => none
  | .symlink text => some ⟨.symlink,text,0o777⟩
  | .charDevice => some ⟨.charDevice,[],m.mode⟩
  | .blockDevice => some ⟨.blockDevice,[],m.mode⟩
  | .directory => some ⟨.directory,[],m.mode⟩

namespace Image

def empty : Image := ⟨[⟨.directory,[],0o755⟩],fun path => if path = [] then some 0 else none⟩

def node (img : Image) (path : List Name) : Option Node := (img.files path).bind (img.nodes[·]?)

def setFile (img : Image) (path : List Name) (i : Nat) : Image :=
  { img with files := Function.update img.files path (some i) }

def add (img : Image) (m : Member) : Option Image :=
  if (img.files m.path).isSome ∨ ∀ node ∈ img.node m.path.dropLast, node.nodeType ≠ .directory then none
  else match m.kind with
  | .hardLink target => do
    let i ← img.files target
    let node ← img.nodes[i]?
    if node.nodeType = .directory ∨ node.nodeType = .symlink then none
    else some (img.setFile m.path i)
  | _ => m.node.map fun node => { img.setFile m.path img.nodes.length with nodes := img.nodes ++ [node] }

def load (members : List Member) : Option Image := members.foldlM add empty

end Image

def Octal (field : List UInt8) (n : Nat) : Prop :=
  ∃ digits : List Nat, (∀ d ∈ digits, d < 8) ∧ digits.foldl (fun value d => value * 8 + d) 0 = n ∧
    ((∃ t, field = digits.map (fun d => UInt8.ofNat (48 + d)) ++ [t]) ∨
      ∃ rest, field = digits.map (fun d => UInt8.ofNat (48 + d)) ++ 0 :: rest)

structure FileName (n : Name) : Prop where
  clean : CleanName n
  ne_nil : n ≠ []
  notDots : ¬IsDots n

inductive Joined : List Name → List UInt8 → Prop
  | last {n : Name} : FileName n → Joined [n] n
  | slashed {n : Name} : FileName n → Joined [n] (n ++ [slash])
  | cons {n : Name} {path : List Name} {text : List UInt8} : FileName n → Joined path text →
      Joined (n :: path) (n ++ slash :: text)

def Spells (path : List Name) (text : List UInt8) : Prop :=
  Joined path text ∨ ∃ rest, text = dot ++ slash :: rest ∧ Joined path rest

def fullName (name leading : List UInt8) : List UInt8 :=
  if cstr leading = [] then cstr name else cstr leading ++ slash :: cstr name

-- A link's target is `linkname` alone; the loader puts the prefix of the member in front of it.
structure Describes (h : USTARHeader) (m : Member) (length : Nat) : Prop where
  magic : h.magic.take 5 = ustar
  name : Spells m.path (fullName h.name h.leading)
  mode : Octal h.mode m.mode
  size : Octal h.size length
  kind : match m.kind with
    | .regular contents => (h.typeflag = '0'.toUInt8 ∨ h.typeflag = 0) ∧ contents.length = length
    | .hardLink target => h.typeflag = '1'.toUInt8 ∧ cstr h.leading = [] ∧ Spells target (cstr h.linkname)
    | .symlink text => h.typeflag = '2'.toUInt8 ∧ cstr h.leading = [] ∧ text = cstr h.linkname
    | .charDevice => h.typeflag = '3'.toUInt8
    | .blockDevice => h.typeflag = '4'.toUInt8
    | .directory => h.typeflag = '5'.toUInt8

def blocks (size : Nat) : Nat := (size + 511) / 512 * 512

inductive Laid (mem : Bytes) : Nat → List Member → Nat → Prop
  | done {a : Nat} : Laid mem a [] a
  | root {a b size : Nat} {members : List Member} : (readHeader mem a).magic.take 5 = ustar →
      fullName (readHeader mem a).name (readHeader mem a).leading = dot ++ [slash] →
      Octal (readHeader mem a).size size → Laid mem (a + 512 + blocks size) members b →
      Laid mem a members b
  | member {a b size : Nat} {m : Member} {members : List Member} :
      Describes (readHeader mem a) m size →
      (∀ contents, m.kind = .regular contents → copyOut mem (a + 512) size = contents) →
      Laid mem (a + 512 + blocks size) members b → Laid mem a (m :: members) b

end Archives

section Format

variable {name leading field : List UInt8} {n : Nat}

theorem cstr_zeros (text : List UInt8) (k : Nat) : cstr (text ++ List.replicate k 0) = cstr text := by
  by_cases h : 0 ∈ text
  · exact cstr_append_zero h
  · have hzeros : cstr (List.replicate k 0) = [] := by
      cases k with
      | zero => rfl
      | succ k => rfl
    have hself : cstr text = text := by
      refine List.takeWhile_eq_self_iff.mpr fun c hc => ?_
      simpa using ne_of_mem_of_not_mem hc h
    rw [cstr_append h,hzeros,List.append_nil,hself]

theorem fullName_bare (h : cstr leading = []) : fullName name leading = cstr name := if_pos h

theorem cstr_readPath : cstr (readPath name leading) = fullName name leading := by
  have hhead : leading.headD 0 = 0 ↔ cstr leading = [] := by
    cases leading with
    | nil => simp [cstr]
    | cons c rest =>
      by_cases hc : c = 0
      · simp [cstr,hc]
      · simp [cstr,hc]
  by_cases h : leading.headD 0 = 0
  · rw [readPath,if_pos h,fullName,if_pos (hhead.mp h),cstr_zeros]
  · have hslash : (0 : UInt8) ∉ [slash] := by decide
    have hshape : cstr leading ++ slash :: name ++ List.replicate (156 - strlen leading) 0 =
        cstr leading ++ ([slash] ++ (name ++ List.replicate (156 - strlen leading) 0)) := by simp
    rw [readPath,if_neg h,fullName,if_neg (mt hhead.mpr h),hshape,cstr_append zero_notMem_cstr,
      cstr_append hslash,cstr_zeros]
    rfl

theorem addDigit_toNat {value : UInt64} {d : Nat} (hd : d < 8) (h : value.toNat < 8 ^ 20) :
    (addDigit value (UInt8.ofNat (48 + d))).toNat = value.toNat * 8 + d := by
  have hdigit : ∀ d < 8, ((UInt8.ofNat (48 + d)).toInt8.toInt64 - 48).toUInt64 = UInt64.ofNat d := by
    decide
  rw [addDigit,hdigit d hd,UInt64.toNat_add,UInt64.toNat_mul,UInt64.toNat_ofNat']
  simp only [UInt64.reduceToNat]
  omega

theorem foldl_digits {digits : List Nat} (hdigits : ∀ d ∈ digits, d < 8) {k : Nat} {value : UInt64}
    (hk : digits.length + k ≤ 20) (hvalue : value.toNat < 8 ^ k) :
    ((digits.map fun d => UInt8.ofNat (48 + d)).foldl addDigit value).toNat =
        digits.foldl (fun value d => value * 8 + d) value.toNat ∧
      digits.foldl (fun value d => value * 8 + d) value.toNat < 8 ^ (digits.length + k) := by
  induction digits generalizing k value with
  | nil => simpa using hvalue
  | cons d digits ih =>
    have hd : d < 8 := hdigits d (by simp)
    have hlen : digits.length + 1 + k ≤ 20 := hk
    have hpow : 8 ^ k ≤ 8 ^ 20 := Nat.pow_le_pow_right (by decide) (by omega)
    have hnext : (addDigit value (UInt8.ofNat (48 + d))).toNat = value.toNat * 8 + d :=
      addDigit_toNat hd (Nat.lt_of_lt_of_le hvalue hpow)
    have hlt : (addDigit value (UInt8.ofNat (48 + d))).toNat < 8 ^ (k + 1) := by
      rw [hnext,Nat.pow_succ]
      omega
    have hrest := ih (fun x hx => hdigits x (List.mem_cons_of_mem d hx)) (by omega) hlt
    rw [hnext] at hrest
    have hexp : (d :: digits).length + k = digits.length + (k + 1) := by
      rw [List.length_cons]
      omega
    rw [hexp]
    exact hrest

theorem octalToBin_octal (h : Octal field n) (hlen : field.length ≤ 21) :
    (octalToBin field).toNat = n ∧ n < 8 ^ (field.length - 1) := by
  obtain ⟨digits,hdigits,hn,hfield⟩ := h
  have hnonzero : ∀ c ∈ digits.map (fun d => UInt8.ofNat (48 + d)), (decide (c ≠ 0)) = true := by
    have hall : ∀ d < 8, decide (UInt8.ofNat (48 + d) ≠ 0) = true := by decide
    intro c hc
    obtain ⟨d,hd,rfl⟩ := List.mem_map.mp hc
    exact hall d (hdigits d hd)
  have hread : (field.take (field.length - 1)).takeWhile (· ≠ 0) =
      digits.map (fun d => UInt8.ofNat (48 + d)) ∧ digits.length ≤ field.length - 1 := by
    rcases hfield with ⟨t,rfl⟩ | ⟨rest,rfl⟩
    · have htake : ((digits.map fun d => UInt8.ofNat (48 + d)) ++ [t]).length - 1 =
          (digits.map fun d => UInt8.ofNat (48 + d)).length := by simp
      rw [htake,List.take_left]
      exact ⟨List.takeWhile_eq_self_iff.mpr hnonzero,by simp⟩
    · have htake : (digits.map fun d => UInt8.ofNat (48 + d)).length ≤
          ((digits.map fun d => UInt8.ofNat (48 + d)) ++ 0 :: rest).length - 1 := by simp
      have hend : ∀ k, ((0 :: rest).take k).takeWhile (· ≠ 0) = [] := by
        intro k
        cases k with
        | zero => rfl
        | succ k => rfl
      refine ⟨?_,by simp⟩
      rw [List.take_append,List.take_of_length_le htake,List.takeWhile_append_of_pos hnonzero,hend,
        List.append_nil]
  have hzero : (0 : UInt64).toNat = 0 := rfl
  have hvalue : (0 : UInt64).toNat < 8 ^ 0 := by decide
  have hdone := foldl_digits hdigits (by omega) hvalue
  rw [hzero,hn,Nat.add_zero] at hdone
  rw [octalToBin,hread.1]
  exact ⟨hdone.1,Nat.lt_of_lt_of_le hdone.2 (Nat.pow_le_pow_right (by decide) hread.2)⟩

theorem modeOf_octal (h : Octal field n) (hlen : field.length = 8) :
    modeOf (octalToBin field) = some n := by
  obtain ⟨hread,hlt⟩ := octalToBin_octal h (by omega)
  rw [hlen] at hlt
  have hmode : (octalToBin field).toUInt32.toNat = n := by
    rw [UInt64.toNat_toUInt32,hread]
    exact Nat.mod_eq_of_lt (by omega)
  have hne : (octalToBin field).toUInt32 ≠ ~~~0 := by
    intro heq
    rw [heq] at hmode
    have hall : (~~~(0 : UInt32)).toNat = 2 ^ 32 - 1 := by decide
    omega
  rw [modeOf,if_neg hne,hmode]

theorem alignUp_blocks (h : n < 2 ^ 63) : alignUp n 512 = blocks n := by
  rw [alignUp,blocks]
  split_ifs with hn
  · rw [Nat.mod_eq_of_lt (by omega)]
    omega
  · omega

theorem following_eq {current : Nat} {h : USTARHeader} (hsize : Octal h.size n)
    (hlen : h.size.length = 12) (hend : current + 512 + blocks n < 2 ^ 64) :
    following current h = current + 512 + blocks n := by
  obtain ⟨hread,hlt⟩ := octalToBin_octal hsize (by omega)
  rw [hlen] at hlt
  rw [following,hread,alignUp_blocks (by omega),uadd_of_lt (a := 512) (by omega),
    uadd_of_lt (by omega)]
  omega

end Format

section Images

namespace Image

variable {img img' : Image} {path p r : List Name} {n : Name} {node : Node} {i : Nat} {m : Member}

def IsDir (img : Image) (path : List Name) : Prop := ∃ node ∈ img.node path, node.nodeType = .directory

def grow (img : Image) (path : List Name) (node : Node) : Image :=
  { img.setFile path img.nodes.length with nodes := img.nodes ++ [node] }

structure Good (img : Image) : Prop where
  bound : ∀ path i, img.files path = some i → i < img.nodes.length
  closed : ∀ p n i, img.files (p ++ [n]) = some i → img.IsDir p

theorem node_some (h : img.node path = some node) :
    ∃ i, img.files path = some i ∧ img.nodes[i]? = some node :=
  Option.bind_eq_some_iff.mp h

theorem IsDir.ne (hdir : img.IsDir p) (hnew : img.files path = none) : p ≠ path := by
  rintro rfl
  obtain ⟨node,hnode,-⟩ := hdir
  obtain ⟨j,hj,-⟩ := node_some hnode
  rw [hnew] at hj
  cases hj

theorem Good.above (hg : img.Good) (hdir : img.IsDir p) (hpre : r <+: p) : img.IsDir r := by
  induction p using List.reverseRecOn with
  | nil => exact List.prefix_nil.mp hpre ▸ hdir
  | append_singleton p n ih =>
    rcases List.prefix_concat_iff.mp hpre with rfl | hpre'
    · exact hdir
    · obtain ⟨node,hnode,-⟩ := hdir
      obtain ⟨i,hi,-⟩ := node_some hnode
      exact ih (hg.closed p n i hi) hpre'

theorem Good.through (hg : img.Good) (hdir : img.IsDir path.dropLast) (hne : r ≠ path)
    (hpre : r <+: path) : img.IsDir r := by
  rcases List.eq_nil_or_concat' path with rfl | ⟨p,n,rfl⟩
  · exact absurd (List.prefix_nil.mp hpre) hne
  · rw [List.dropLast_concat] at hdir
    exact hg.above hdir ((List.prefix_concat_iff.mp hpre).resolve_left hne)

theorem Good.dropLast (hg : img.Good) (hne : path ≠ []) (hi : img.files path = some i) :
    img.IsDir path.dropLast := by
  obtain ⟨p,n,rfl⟩ := (List.eq_nil_or_concat' path).resolve_left hne
  rw [List.dropLast_concat]
  exact hg.closed p n i hi

theorem setFile_node (hp : p ≠ path) : (img.setFile path i).node p = img.node p := by
  simp [node,setFile,hp]

theorem grow_node (hp : p ≠ path) (hnode : img.node p = some node) {new : Node} :
    (img.grow path new).node p = some node := by
  obtain ⟨i,hi,hget⟩ := node_some hnode
  have hlt : i < img.nodes.length := (List.getElem?_eq_some_iff.mp hget).1
  simp [Image.node,grow,setFile,hp,hi,List.getElem?_append_left hlt,hget]

theorem grow_set {new : Node} : { img.grow path node with
    nodes := (img.grow path node).nodes.set img.nodes.length new } = img.grow path new := by
  simp [grow,setFile]

theorem Good.empty : Image.empty.Good := by
  refine ⟨fun path i hi => ?_,fun p n i hi => ?_⟩
  · simp only [Image.empty,Option.ite_none_right_eq_some,Option.some.injEq] at hi ⊢
    exact hi.2 ▸ Nat.zero_lt_one
  · simp [Image.empty] at hi

section Added

variable (hg : img.Good) (hnew : img.files path = none) (hdir : img.IsDir path.dropLast)

include hg hnew hdir

theorem Good.setFile (hi : i < img.nodes.length) : (img.setFile path i).Good := by
  have hkept : ∀ {p : List Name}, img.IsDir p → (img.setFile path i).IsDir p := by
    intro p hp
    have hne : p ≠ path := hp.ne hnew
    obtain ⟨node,hnode,htype⟩ := hp
    exact ⟨node,(setFile_node hne).trans hnode,htype⟩
  refine ⟨fun q j hj => ?_,fun p n j hj => ?_⟩
  · by_cases hq : q = path
    · simp only [Image.setFile,hq,Function.update_self,Option.some.injEq] at hj
      exact hj ▸ hi
    · simp only [Image.setFile,ne_eq,hq,not_false_eq_true,Function.update_of_ne] at hj
      exact hg.bound q j hj
  · by_cases hq : p ++ [n] = path
    · rw [← hq,List.dropLast_concat] at hdir
      exact hkept hdir
    · simp only [Image.setFile,ne_eq,hq,not_false_eq_true,Function.update_of_ne] at hj
      exact hkept (hg.closed p n j hj)

theorem Good.grow : (img.grow path node).Good := by
  have hkept : ∀ {p : List Name}, img.IsDir p → (img.grow path node).IsDir p := by
    intro p hp
    have hne : p ≠ path := hp.ne hnew
    obtain ⟨old,hold,htype⟩ := hp
    exact ⟨old,grow_node hne hold,htype⟩
  refine ⟨fun q j hj => ?_,fun p n j hj => ?_⟩
  · have hlen : (img.grow path node).nodes.length = img.nodes.length + 1 := by simp [Image.grow]
    rw [hlen]
    by_cases hq : q = path
    · simp only [Image.grow,Image.setFile,hq,Function.update_self,Option.some.injEq] at hj
      omega
    · simp only [Image.grow,Image.setFile,ne_eq,hq,not_false_eq_true,Function.update_of_ne] at hj
      exact Nat.lt_succ_of_lt (hg.bound q j hj)
  · by_cases hq : p ++ [n] = path
    · rw [← hq,List.dropLast_concat] at hdir
      exact hkept hdir
    · simp only [Image.grow,Image.setFile,ne_eq,hq,not_false_eq_true,Function.update_of_ne] at hj
      exact hkept (hg.closed p n j hj)

end Added

theorem add_cases (h : img.add m = some img') : img.files m.path = none ∧
    img.IsDir m.path.dropLast ∧ ((∃ target i node, m.kind = .hardLink target ∧
      img.files target = some i ∧ img.nodes[i]? = some node ∧ node.nodeType ≠ .directory ∧
      node.nodeType ≠ .symlink ∧ img' = img.setFile m.path i) ∨
        ∃ node, m.node = some node ∧ img' = img.grow m.path node) := by
  rw [Image.add] at h
  split_ifs at h with hno
  obtain ⟨hnew,hdir⟩ := not_or.mp hno
  push Not at hdir
  refine ⟨by simpa using hnew,hdir,?_⟩
  split at h
  · rename_i target hkind
    simp only [Option.bind_eq_bind,Option.bind_eq_some_iff] at h
    obtain ⟨i,hi,node,hnode,hadd⟩ := h
    split_ifs at hadd with htype
    obtain ⟨hnd,hns⟩ := not_or.mp htype
    exact .inl ⟨target,i,node,hkind,hi,hnode,hnd,hns,(Option.some.inj hadd).symm⟩
  · obtain ⟨node,hnode,heq⟩ := Option.map_eq_some_iff.mp h
    exact .inr ⟨node,hnode,heq.symm⟩

theorem Good.add (hg : img.Good) (h : img.add m = some img') : img'.Good := by
  obtain ⟨hnew,hdir,⟨target,i,node,-,hi,-,-,-,rfl⟩ | ⟨node,-,rfl⟩⟩ := add_cases h
  · exact hg.setFile hnew hdir (hg.bound target i hi)
  · exact hg.grow hnew hdir

end Image

end Images

end SabaOS.Initramfs
