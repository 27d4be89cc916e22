import Mathlib.Logic.Function.Basic
import SabaOS.Lib.LittleEndian
import SabaOS.Lib.Iterate

namespace SabaOS.Dev.Hid

open SabaOS.Lib

def evKey : UInt16 := 1

def evRel : UInt16 := 2

structure InputItem where
  sizeBits : UInt32
  type : UInt16 := 0
  code : UInt16 := 0
  usageMin : UInt32 := 0
  usageMax : UInt32 := 0
  isArray : Bool := false
  isConstant : Bool := false
  previousValue : Int := 0
deriving DecidableEq, Repr

def page (usage : UInt32) : UInt32 := usage >>> 16

def keyboardPage : UInt32 := 7

-- `usb_to_linux_keycode_table`, whose entries are named by a header outside the sources.
abbrev KeycodeTable : Type := UInt8 → UInt16

def KeycodeTable.keycode (table : KeycodeTable) (usage : UInt32) : UInt16 := table (usage &&& 0xff).toUInt8

def usageEvent (table : KeycodeTable) (usage : UInt32) : UInt16 × UInt16 :=
  if page usage = keyboardPage then (evKey,table.keycode usage)
  else if usage = 0x90001 then (evKey,0x110)
  else if usage = 0x90002 then (evKey,0x111)
  else if usage = 0x90003 then (evKey,0x112)
  else if usage = 0x90004 then (evKey,0x113)
  else if usage = 0x90005 then (evKey,0x114)
  else if usage = 0x10030 then (evRel,0)
  else if usage = 0x10031 then (evRel,1)
  else if usage = 0x10038 then (evRel,8)
  else (0,0)

-- What `parse_report_descriptor` keeps while it reads; the logical bounds are never read back.
structure Parser where
  i : UInt16 := 0
  usagePage : UInt32 := 0
  reportSize : UInt32 := 0
  reportCount : UInt32 := 0
  usages : List UInt32 := []
  usageMinimum : UInt32 := 0
  usageMaximum : UInt32 := 0
  reportProtocolUsable : Bool := true
  inputItems : List InputItem := []
deriving DecidableEq, Repr

namespace Parser

def usageOf (p : Parser) (i : UInt32) : Option UInt32 :=
  match p.usages[i.toNat]?.or p.usages.getLast? with
  | some usage => some usage
  | none => if p.usageMinimum ≠ 0 then some (min (p.usageMinimum + i) p.usageMaximum) else none

def pushItems (p : Parser) (items : List InputItem) : Parser := { p with inputItems := p.inputItems ++ items }

def pushVariables (table : KeycodeTable) : Nat → UInt32 → Parser → Parser
  | 0,_,p => p
  | n + 1,i,p => match p.usageOf i with
    | none => { p with reportProtocolUsable := false }
    | some usage =>
      let event := usageEvent table usage
      pushVariables table n (i + 1)
        (p.pushItems [{ sizeBits := p.reportSize, type := event.1, code := event.2 }])

def input (table : KeycodeTable) (itemData : UInt32) (p : Parser) : Parser :=
  let isConstant := itemData &&& 1 ≠ 0
  let isArray := (itemData >>> 1) &&& 1 = 0
  if isConstant then p.pushItems [{ sizeBits := p.reportSize * p.reportCount, isConstant := true }]
  else if isArray then
    p.pushItems (List.replicate p.reportCount.toNat
      { sizeBits := p.reportSize, usageMin := p.usageMinimum, usageMax := p.usageMaximum, isArray := true })
  else pushVariables table p.reportCount.toNat 0 p

def mainItem (table : KeycodeTable) (itemTag : UInt8) (itemData : UInt32) (p : Parser) : Parser :=
  let p := if itemTag = 8 then p.input table itemData else p
  { p with usages := [], usageMinimum := 0, usageMaximum := 0 }

def globalItem (itemTag : UInt8) (itemData : UInt32) (p : Parser) : Parser :=
  if itemTag = 0 then { p with usagePage := itemData }
  else if itemTag = 7 then { p with reportSize := itemData }
  else if itemTag = 9 then { p with reportCount := itemData }
  else p

def localItem (itemTag itemSize : UInt8) (itemData : UInt32) (p : Parser) : Parser :=
  let usage := if itemSize = 4 then itemData else itemData ||| (p.usagePage <<< 16)
  if itemTag = 0 then { p with usages := p.usages ++ [usage] }
  else if itemTag = 1 then { p with usageMinimum := usage }
  else if itemTag = 2 then { p with usageMaximum := usage }
  else p

-- The byte after the descriptor's last one may be read, so the data is the memory from its start on.
def itemData (data : Nat → UInt8) (length i : UInt16) (itemSize : UInt8) : UInt32 :=
  let offsets := (List.range itemSize.toNat).takeWhile fun offset => i.toNat + offset < length.toNat
  offsets.foldl (fun n offset => n ||| ((data (i.toNat + offset + 1)).toUInt32 <<< (offset * 8).toUInt32)) 0

def dispatch (table : KeycodeTable) (itemType itemTag itemSize : UInt8) (n : UInt32) (p : Parser) : Parser :=
  if itemType = 0 then p.mainItem table itemTag n
  else if itemType = 1 then p.globalItem itemTag n
  else if itemType = 2 then p.localItem itemTag itemSize n
  else { p with reportProtocolUsable := false }

def item (table : KeycodeTable) (data : Nat → UInt8) (length : UInt16) (p : Parser) : Parser :=
  let item := data p.i.toNat
  let itemSize := if item &&& 3 = 3 then 4 else item &&& 3
  let itemType := (item >>> 2) &&& 3
  let itemTag := (item >>> 4) &&& 15
  let n := itemData data length p.i itemSize
  let p := { p with i := p.i + itemSize.toUInt16 }.dispatch table itemType itemTag itemSize n
  { p with i := p.i + 1 }

end Parser

namespace InputItem

def supported (item : InputItem) (bitOffset : UInt32) : Bool :=
  item.type = 0 || item.sizeBits = 1 || bitOffset % 8 = 0 && (item.sizeBits = 8 || item.sizeBits = 16)

end InputItem

def allSupported : UInt32 → List InputItem → Bool
  | _,[] => true
  | bitOffset,item :: items => item.supported bitOffset && allSupported (bitOffset + item.sizeBits) items

-- The items are dropped when anything was wrong; the capability bitmaps, which `event` does not read, are left out.
def Parser.finish (p : Parser) : Bool × List InputItem :=
  if p.reportProtocolUsable && allSupported 0 p.inputItems then (true,p.inputItems) else (false,[])

def parseStep (table : KeycodeTable) (data : Nat → UInt8) (length : UInt16) (p : Parser) :
    Turn Parser (Bool × List InputItem) :=
  if p.i < length then .again (p.item table data length) else .stop p.finish

def parseReportDescriptor (table : KeycodeTable) (data : Nat → UInt8) (length : UInt16) (old : List InputItem)
    (fuel : Nat) : Option (Bool × List InputItem) :=
  run (parseStep table data length) fuel { inputItems := old }

def Accepts (table : KeycodeTable) (data : Nat → UInt8) (length : UInt16) (old items : List InputItem) : Prop :=
  ∃ fuel, parseReportDescriptor table data length old fuel = some (true,items)

structure Pushed (table : KeycodeTable) (P : InputItem → Prop) : Prop where
  constant : ∀ sizeBits, P { sizeBits := sizeBits, isConstant := true }
  array : ∀ sizeBits usageMin usageMax,
    P { sizeBits := sizeBits, usageMin := usageMin, usageMax := usageMax, isArray := true }
  field : ∀ sizeBits usage,
    P { sizeBits := sizeBits, type := (usageEvent table usage).1, code := (usageEvent table usage).2 }

namespace Parser

section Items

variable {table : KeycodeTable} {P : InputItem → Prop} {p q : Parser} {itemData : UInt32}
  {itemTag itemType itemSize : UInt8} {data : Nat → UInt8} {length : UInt16}

theorem forall_pushItems {items : List InputItem} (h : ∀ item ∈ p.inputItems, P item)
    (hitems : ∀ item ∈ items, P item) : ∀ item ∈ (p.pushItems items).inputItems, P item :=
  List.forall_mem_append.mpr ⟨h,hitems⟩

theorem Pushed.pushVariables (hP : Pushed table P) {n : Nat} {i : UInt32}
    (h : ∀ item ∈ p.inputItems, P item) : ∀ item ∈ (pushVariables table n i p).inputItems, P item := by
  induction n generalizing i p with
  | zero => exact h
  | succ n ih =>
    rw [Parser.pushVariables]
    cases p.usageOf i with
    | none => exact h
    | some usage => exact ih (forall_pushItems h (List.forall_mem_singleton.mpr (hP.field _ _)))

theorem Pushed.input (hP : Pushed table P) (h : ∀ item ∈ p.inputItems, P item) :
    ∀ item ∈ (p.input table itemData).inputItems, P item := by
  unfold Parser.input
  dsimp only
  split_ifs
  · exact forall_pushItems h (List.forall_mem_singleton.mpr (hP.constant _))
  · refine forall_pushItems h ?_
    intro item hmem
    rw [List.eq_of_mem_replicate hmem]
    exact hP.array _ _ _
  · exact Pushed.pushVariables hP h

theorem Pushed.dispatch (hP : Pushed table P) {n : UInt32} (h : ∀ item ∈ p.inputItems, P item) :
    ∀ item ∈ (p.dispatch table itemType itemTag itemSize n).inputItems, P item := by
  unfold Parser.dispatch
  split_ifs
  · unfold Parser.mainItem
    dsimp only
    split_ifs
    · exact Pushed.input hP h
    · exact h
  · unfold Parser.globalItem
    split_ifs <;> exact h
  · unfold Parser.localItem
    dsimp only
    split_ifs <;> exact h
  · exact h

theorem Pushed.visits (hP : Pushed table P) (hq : Visits (parseStep table data length) p q)
    (h : ∀ item ∈ p.inputItems, P item) : ∀ item ∈ q.inputItems, P item := by
  induction hq with
  | refl => exact h
  | tail _ hstep ih =>
    rename_i b c _
    unfold parseStep at hstep
    split_ifs at hstep
    cases hstep
    exact Pushed.dispatch (p := { b with i := _ }) hP ih

end Items

end Parser

structure InputEvent where
  type : UInt16
  code : UInt16
  value : UInt32
deriving DecidableEq, Repr

-- `pushed` has every event that was pushed, without its time; `flush_events` hands them on.
structure Keys where
  keyStatus : UInt16 → Bool := fun _ => false
  pushed : List InputEvent := []

namespace Keys

def set (k : Keys) (code : UInt16) (state : Bool) : Keys :=
  { k with keyStatus := Function.update k.keyStatus code state }

def pushEvent (k : Keys) (type code : UInt16) (value : UInt32) : Keys :=
  { k with pushed := k.pushed ++ [⟨type,code,value⟩] }

def processButton (k : Keys) (code : UInt16) (state : Bool) : Keys :=
  if state ≠ k.keyStatus code then (k.set code state).pushEvent evKey code state.toUInt32 else k

end Keys

inductive Field where
  | outside
  | unreachable
  | value (n : Int)
deriving DecidableEq, Repr

namespace InputItem

-- The processor takes the count of a shift modulo 32.
def field (item : InputItem) (data : List UInt8) (bitOffset : UInt32) : Field :=
  let byteOffset := (bitOffset / 8).toNat
  if data.length ≤ byteOffset then .outside
  else if item.sizeBits = 1 then
    .value (if (data.getD byteOffset 0).toUInt32 &&& (1 <<< bitOffset) ≠ 0 then 1 else 0)
  else if bitOffset % 8 = 0 then
    if item.sizeBits = 8 then .value (signed 8 (data.getD byteOffset 0).toNat)
    else if item.sizeBits = 16 then
      if data.length ≤ byteOffset + 1 then .outside
      else
        .value (signed 16 ((data.getD byteOffset 0).toUInt16 ||| ((data.getD (byteOffset + 1) 0).toUInt16 <<< 8)).toNat)
    else .unreachable
  else .value 0

def changeSlot (table : KeycodeTable) (item : InputItem) (n : Int) (k : Keys) : InputItem × Keys :=
  let usage := item.usageMin + .ofInt n
  let oldUsage := item.usageMin + .ofInt item.previousValue
  if page usage = keyboardPage then
    let keycode := table.keycode usage
    let oldKeycode := table.keycode oldUsage
    if n ≠ item.previousValue then
      let k := ((k.set keycode true).set oldKeycode false).pushEvent evKey keycode 1
      ({ item with previousValue := n },k.pushEvent evKey oldKeycode 0)
    else (item,k)
  else (item,k)

def report (item : InputItem) (n : Int) (k : Keys) : Keys :=
  if item.type = evKey then k.processButton item.code (n ≠ 0)
  else if item.type = evRel then if n ≠ 0 then k.pushEvent evRel item.code (.ofInt n) else k
  else k

def handle (table : KeycodeTable) (item : InputItem) (n : Int) (k : Keys) : InputItem × Keys :=
  if item.isArray then item.changeSlot table n k
  else if !item.isConstant then (item,item.report n k)
  else (item,k)

end InputItem

structure Visit where
  value : Int
  before : Keys
  after : Keys

structure Reported where
  inputItems : List InputItem
  keys : Keys
  visits : List Visit

def eventLoop (table : KeycodeTable) (data : List UInt8) : UInt32 → List InputItem → Keys → Option Reported
  | _,[],k => some ⟨[],k,[]⟩
  | bitOffset,item :: items,k => match item.field data bitOffset with
    | .outside => some ⟨item :: items,k,[]⟩
    | .unreachable => none
    | .value n =>
      let handled := item.handle table n k
      match eventLoop table data (bitOffset + item.sizeBits) items handled.2 with
      | none => none
      | some r => some ⟨handled.1 :: r.inputItems,r.keys,⟨n,k,handled.2⟩ :: r.visits⟩

def event (table : KeycodeTable) (data : List UInt8) (items : List InputItem) (k : Keys) : Option Reported :=
  eventLoop table data 0 items k

end SabaOS.Dev.Hid
