import Mathlib.Data.UInt
import Mathlib.Logic.Function.Basic
import SabaOS.Klib.Memory
import SabaOS.Klib.Word
import SabaOS.Lib.Iterate

namespace SabaOS.Gfx

section Screen

open SabaOS.Klib

-- `addr` is the address of the screen's memory, `width` and `height` are in pixels.
structure Framebuffer where
  addr : Nat
  width : BitVec 32
  height : BitVec 32
  pitch : BitVec 32

-- `size` is the 32-bit product of the height and the pitch.
structure FramebufferDevNode where
  fb : Framebuffer
  bytes : Bytes

namespace FramebufferDevNode

def size (n : FramebufferDevNode) : Nat := (n.fb.height * n.fb.pitch).toNat

def read (n : FramebufferDevNode) (count offset : Nat) : List UInt8 :=
  if n.size ≤ offset then []
  else
    let actualCount := if n.size < uadd offset count then n.size - offset else count
    copyOut n.bytes (n.fb.addr + offset) actualCount

def write (n : FramebufferDevNode) (buf : List UInt8) (offset : Nat) : FramebufferDevNode × Nat :=
  if n.size ≤ offset then (n,0)
  else
    let actualCount := if n.size < uadd offset buf.length then n.size - offset else buf.length
    ({ n with bytes := copyIn n.bytes (n.fb.addr + offset) (buf.take actualCount) },actualCount)

theorem size_lt (n : FramebufferDevNode) : n.size < 2 ^ 64 :=
  Nat.lt_of_lt_of_le (n.fb.height * n.fb.pitch).isLt (by decide)

end FramebufferDevNode

end Screen

open SabaOS.Lib

def rgb (r g b : UInt32) : UInt32 := (r <<< 16) ||| (g <<< 8) ||| b

def colorTable : List UInt32 :=
  [rgb 0 0 0,rgb 205 49 49,rgb 13 188 121,rgb 229 229 16,rgb 36 114 200,rgb 188 63 188,rgb 17 168 205,
    rgb 229 229 229,rgb 102 102 102,rgb 241 76 76,rgb 35 209 139,rgb 245 245 67,rgb 59 142 234,
    rgb 214 112 214,rgb 41 184 219,rgb 229 229 229]

def color (i : Int) : UInt32 := colorTable.getD i.toNat 0

def defaultFgColor : UInt32 := color 15

def defaultBgColor : UInt32 := color 0

def boldFlag : UInt32 := (1 : UInt32) <<< 24

def maxCsiArgs : Int := 16

def int (n : Int) : Int := n.bmod (2 ^ 32)

def clamp (v low high : Int) : Int := min (max v low) high

def alignUp (i alignment : Int) : Int :=
  if i % alignment ≠ 0 then (i / alignment + 1) * alignment else i

-- `c` is a signed `char`
structure ColoredChar where
  encoded : UInt64
deriving DecidableEq, Repr

namespace ColoredChar

def signExtend (c : UInt8) : UInt64 := if c < 0x80 then c.toUInt64 else c.toUInt64 ||| 0xffffffffffffff00

def of (c : UInt8) (fg bg : UInt32) : ColoredChar :=
  ⟨signExtend c ||| ((fg &&& 0x1ffffff).toUInt64 <<< 8) ||| ((bg &&& 0xffffff).toUInt64 <<< 40)⟩

def c (k : ColoredChar) : UInt8 := (k.encoded &&& 0xff).toUInt8

def fg (k : ColoredChar) : UInt32 := ((k.encoded >>> 8) &&& 0x1ffffff).toUInt32

def bg (k : ColoredChar) : UInt32 := ((k.encoded >>> 40) &&& 0xffffff).toUInt32

end ColoredChar

-- `accesses` has the column and row of every cell that is read or written.
structure VirtualTerminal where
  widthChars : Int
  heightChars : Int
  buffer : Int → ColoredChar
  currentFg : UInt32 := defaultFgColor
  currentBg : UInt32 := defaultBgColor
  isBold : Bool := false
  cursorX : Int := 0
  cursorY : Int := 0
  oldCursorX : Int := 0
  oldCursorY : Int := 0
  cursorNeedsUndrawing : Bool := false
  csiProgress : Int := 0
  csiArgs : Int → Int := fun _ => 0
  csiArgIndex : Int := 0
  csiArgCount : Int := 0
  csiQuestionMark : Bool := false
  insertMode : Bool := false
  accesses : List (Int × Int) := []

namespace VirtualTerminal

def touch (s : VirtualTerminal) (x y : Int) : VirtualTerminal := { s with accesses := (x,y) :: s.accesses }

def cell (s : VirtualTerminal) (x y : Int) : ColoredChar := s.buffer (y * s.widthChars + x)

def setCharAt (s : VirtualTerminal) (x y : Int) (c : UInt8) (fg bg : UInt32) : VirtualTerminal :=
  let s := s.touch x y
  if s.cell x y = .of c fg bg then s
  else
    { s with
      buffer := Function.update s.buffer (y * s.widthChars + x) (.of c fg bg)
      cursorNeedsUndrawing := false }

def space : UInt8 := 0x20

def erase (s : VirtualTerminal) (x y : Int) : VirtualTerminal :=
  s.setCharAt x y space defaultFgColor defaultBgColor

def setCharAtCursor (s : VirtualTerminal) (c : UInt8) : VirtualTerminal :=
  s.setCharAt s.cursorX s.cursorY c (s.currentFg ||| (if s.isBold then boldFlag else 0)) s.currentBg

def moveChar (s : VirtualTerminal) (oldX oldY newX newY : Int) : VirtualTerminal :=
  let k := s.cell oldX oldY
  ((s.touch oldX oldY).setCharAt newX newY k.c k.fg k.bg).erase oldX oldY

def scrollCell (y x : Int) (s : VirtualTerminal) : VirtualTerminal :=
  let k := s.cell x (y + 1)
  (s.touch x (y + 1)).setCharAt x y k.c k.fg k.bg

def scroll (s : VirtualTerminal) : VirtualTerminal :=
  let s := each (up 0 (s.heightChars - 1)) (fun y s => each (up 0 s.widthChars) (scrollCell y) s) s
  let s := each (up 0 s.widthChars) (fun x s => s.erase x (s.heightChars - 1)) s
  { s with cursorNeedsUndrawing := true }

def redrawCursor (s : VirtualTerminal) : VirtualTerminal :=
  let s := if s.cursorNeedsUndrawing then s.touch s.oldCursorX s.oldCursorY else s
  { s with oldCursorX := s.cursorX, oldCursorY := s.cursorY }

def moveCursor (s : VirtualTerminal) (x y : Int) : VirtualTerminal :=
  { s with cursorX := x, cursorY := y, cursorNeedsUndrawing := true }.redrawCursor

def redrawCell (y x : Int) (s : VirtualTerminal) : VirtualTerminal :=
  let k := s.cell x y
  (s.touch x y).setCharAt x y k.c k.fg k.bg

def redraw (s : VirtualTerminal) : VirtualTerminal :=
  each (up 0 s.heightChars) (fun y s => each (up 0 s.widthChars) (redrawCell y) s) s.redrawCursor

def blank (widthChars heightChars oldCursorX oldCursorY : Int) : VirtualTerminal where
  widthChars := widthChars
  heightChars := heightChars
  buffer := fun _ => .of space defaultFgColor defaultBgColor
  oldCursorX := oldCursorX
  oldCursorY := oldCursorY

-- The constructor, for a framebuffer of this many characters; the old cursor is not initialized.
def create (widthChars heightChars oldCursorX oldCursorY : Int) : VirtualTerminal :=
  (blank widthChars heightChars oldCursorX oldCursorY).redraw

def resetControlSequence (s : VirtualTerminal) : VirtualTerminal :=
  { s with
    csiProgress := 0
    csiArgIndex := 0
    csiArgCount := 0
    csiArgs := fun _ => 0
    csiQuestionMark := false }

def selectGraphicRendition (n : Int) (s : VirtualTerminal) : VirtualTerminal :=
  if n = 0 then { s with currentFg := defaultFgColor, currentBg := defaultBgColor, isBold := false }
  else if n = 1 then { s with isBold := true }
  else if n = 7 then { s with currentFg := s.currentBg, currentBg := s.currentFg }
  else if n = 22 then { s with isBold := false }
  else if 30 ≤ n ∧ n ≤ 37 then { s with currentFg := color (n - 30) }
  else if 90 ≤ n ∧ n ≤ 97 then { s with currentFg := color (n + 8 - 90) }
  else if n = 39 then { s with currentFg := defaultFgColor }
  else if 40 ≤ n ∧ n ≤ 47 then { s with currentBg := color (n - 40) }
  else if n = 49 then { s with currentBg := defaultBgColor }
  else if 100 ≤ n ∧ n ≤ 107 then { s with currentBg := color (n + 8 - 100) }
  else s

def eraseWhere (s : VirtualTerminal) (p : Int → Int → Bool) : VirtualTerminal :=
  each (up 0 s.heightChars)
    (fun y s => each (up 0 s.widthChars) (fun x s => if p x y then s.erase x y else s) s) s

def eraseDisplay (s : VirtualTerminal) (n : Int) : VirtualTerminal :=
  let cursor := (s.cursorY + 1) * s.widthChars + s.cursorX
  if n = 0 then s.eraseWhere fun x y => (y + 1) * s.widthChars + x ≥ cursor
  else if n = 1 then s.eraseWhere fun x y => (y + 1) * s.widthChars + x ≤ cursor
  else if n = 2 ∨ n = 3 then s.eraseWhere fun _ _ => true
  else s

def eraseLine (s : VirtualTerminal) (n : Int) : VirtualTerminal :=
  let eraseCell (x : Int) (t : VirtualTerminal) : VirtualTerminal := t.erase x s.cursorY
  if n = 0 then each (up s.cursorX s.widthChars) eraseCell s
  else if n = 1 then each (down s.cursorX 0) eraseCell s
  else if n = 2 then each (up 0 s.widthChars) eraseCell s
  else s

def defaultArg (s : VirtualTerminal) : VirtualTerminal :=
  if s.csiArgCount = 0 then { s with csiArgs := Function.update s.csiArgs 0 1 } else s

def lastErased (s : VirtualTerminal) : Int := clamp (int (s.cursorX + s.csiArgs 0)) 0 s.widthChars

def eraseChars (s : VirtualTerminal) : VirtualTerminal :=
  each (up s.cursorX s.lastErased) (fun x t => t.erase x s.cursorY) s

def deleteChars (s : VirtualTerminal) : VirtualTerminal :=
  let count := s.widthChars - s.lastErased
  each (up 0 count) (fun i t => t.moveChar (s.lastErased + i) s.cursorY (s.cursorX + i) s.cursorY)
    s.eraseChars

def byte (c : Char) : UInt8 := c.toNat.toUInt8

def applyControlSequence (s : VirtualTerminal) (code : UInt8) : VirtualTerminal :=
  let n := s.csiArgs 0
  let steps := max n 1
  let column (x : Int) : Int := clamp (int x) 0 (s.widthChars - 1)
  let row (y : Int) : Int := clamp (int y) 0 (s.heightChars - 1)
  if code = byte 'm' then
    each (up 0 (s.csiArgIndex + 1)) (fun i t => t.selectGraphicRendition (s.csiArgs i)) s
  else if code = byte 'J' then s.eraseDisplay n
  else if code = byte 'K' then s.eraseLine n
  else if s.csiQuestionMark ∧ code = byte 'h' then s
  else if s.csiQuestionMark ∧ code = byte 'l' then s
  else if code = byte 'A' then s.moveCursor s.cursorX (row (s.cursorY - steps))
  else if code = byte 'B' then s.moveCursor s.cursorX (row (s.cursorY + steps))
  else if code = byte 'C' then s.moveCursor (column (s.cursorX + steps)) s.cursorY
  else if code = byte 'D' then s.moveCursor (column (s.cursorX - steps)) s.cursorY
  else if code = byte 'E' then s.moveCursor 0 (row (s.cursorY + steps))
  else if code = byte 'F' then s.moveCursor 0 (row (s.cursorY - steps))
  else if code = byte 'G' then s.moveCursor (column (n - 1)) s.cursorY
  else if code = byte 'H' ∨ code = byte 'f' then s.moveCursor (column (n - 1)) (row (s.csiArgs 1 - 1))
  else if code = byte 'd' then s.moveCursor s.cursorX (row (n - 1))
  else if code = byte 'r' then s.moveCursor 0 0
  else if code = byte 'P' then s.defaultArg.deleteChars
  else if code = byte 'X' then s.defaultArg.eraseChars
  else if code = byte 'h' ∨ code = byte 'l' then
    if n = 4 then { s with insertMode := code = byte 'h' } else s
  else s

def addDigit (s : VirtualTerminal) (c : UInt8) : VirtualTerminal :=
  let arg := int (int (s.csiArgs s.csiArgIndex * 10) + (c.toNat - 0x30 : Int))
  { s with csiArgs := Function.update s.csiArgs s.csiArgIndex arg, csiArgCount := s.csiArgIndex + 1 }

def nextArg (s : VirtualTerminal) : VirtualTerminal :=
  let s := { s with csiArgIndex := s.csiArgIndex + 1 }
  let s := if s.csiArgIndex ≥ maxCsiArgs then s.resetControlSequence else s
  { s with csiArgs := Function.update s.csiArgs s.csiArgIndex 0 }

def isDigit (c : UInt8) : Bool := byte '0' ≤ c && c ≤ byte '9'

def isLetter (c : UInt8) : Bool := byte 'a' ≤ c && c ≤ byte 'z' || byte 'A' ≤ c && c ≤ byte 'Z'

def controlChar (s : VirtualTerminal) (c : UInt8) : VirtualTerminal :=
  if isDigit c then s.addDigit c
  else if isLetter c then (s.applyControlSequence c).resetControlSequence
  else if c = byte ';' then s.nextArg
  else if c = byte '?' then { s with csiQuestionMark := true }
  else s.resetControlSequence

def backspace (s : VirtualTerminal) : VirtualTerminal :=
  if s.cursorX > 0 then
    { s with cursorX := s.cursorX - 1, cursorNeedsUndrawing := true }.redrawCursor
  else { s with cursorNeedsUndrawing := false }

def shiftRight (s : VirtualTerminal) : VirtualTerminal :=
  each (down (s.widthChars - 1) s.cursorX) (fun i t => t.moveChar i s.cursorY (i + 1) s.cursorY) s

def printChar (s : VirtualTerminal) (c : UInt8) : VirtualTerminal :=
  let s := if s.insertMode then s.shiftRight else s
  let s := s.setCharAtCursor c
  { s with cursorX := s.cursorX + 1 }

def plainChar (s : VirtualTerminal) (c : UInt8) : VirtualTerminal :=
  if c = 0x09 then { s with cursorX := alignUp (s.cursorX + 1) 8 }
  else if c = 0x0d then { s with cursorX := 0 }
  else if c = 0x0b ∨ c = 0x0c ∨ c = 0x0a then
    { s with cursorX := 0, cursorY := s.cursorY + 1, cursorNeedsUndrawing := true }
  else if c = 0x1b then { s with csiProgress := 1 }
  else if c = 0x07 ∨ c = 0 ∨ c = 0x7f ∨ c = 14 ∨ c = 15 then s
  else s.printChar c

def settle (s : VirtualTerminal) : VirtualTerminal :=
  let s := if s.cursorX ≥ s.widthChars then { s with cursorX := 0, cursorY := s.cursorY + 1 } else s
  let s := if s.cursorY ≥ s.heightChars then { s.scroll with cursorY := s.scroll.cursorY - 1 } else s
  { s.redrawCursor with cursorNeedsUndrawing := true }

def writeChar (s : VirtualTerminal) (c : UInt8) : VirtualTerminal :=
  if s.csiProgress = 1 then
    if c = byte '[' then { s with csiProgress := 2 } else s.resetControlSequence
  else if s.csiProgress = 2 then s.controlChar c
  else if c = 0x08 then s.backspace
  else (s.plainChar c).settle

end VirtualTerminal

end SabaOS.Gfx
