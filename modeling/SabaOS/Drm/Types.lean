import Mathlib.Logic.Function.Basic
import Mathlib.Tactic.Ring
import SabaOS.Klib.Memory
import SabaOS.Klib.Vprintf
import SabaOS.Klib.Word
import SabaOS.Lib.Exec

namespace SabaOS.Drm

open SabaOS.Lib SabaOS.Klib

def u32Bound : Nat := 4294967296

@[irreducible]
def increment (n : Nat) : Nat := (n + 1) % u32Bound

@[irreducible]
def decrement (n : Nat) : Nat := (n + (u32Bound - 1)) % u32Bound

def einval : Int := -22

def enomem : Int := -12

def enoent : Int := -2

def ebusy : Int := -16

def ebadf : Int := -9

def enotty : Int := -25

structure GemObject where
  handle : Nat
  name : Nat
  size : Nat
  paddr : Nat
  refcount : Nat
deriving DecidableEq, Repr

instance planesNonempty : NeZero 4 := ⟨by decide⟩

structure Framebuffer where
  id : Nat
  width : Nat
  height : Nat
  pitch : Nat
  bpp : Nat
  depth : Nat
  pixelFormat : Nat
  obj : Fin 4 → Option Nat
  pitches : Fin 4 → Nat
  offsets : Fin 4 → Nat
  modifiers : Fin 4 → Nat

abbrev Mode := List UInt8

structure Crtc where
  id : Nat
  fb : Option Nat
  mode : Mode
  enabled : Bool
  x : Nat
  y : Nat
  pageFlipPending : Bool
  pageFlipUserData : Nat
  pendingFb : Option Nat
deriving DecidableEq, Repr

structure Encoder where
  id : Nat
  encoderType : Nat
  crtc : Option Nat
  possibleCrtcs : Nat
  possibleClones : Nat
deriving DecidableEq, Repr

structure Connector where
  id : Nat
  encoder : Option Encoder
  connection : Nat
  mmWidth : Nat
  mmHeight : Nat
  subconnector : Nat
  numModes : Nat
deriving DecidableEq, Repr

structure FlipEvent where
  crtcId : Nat
  userData : Nat
deriving DecidableEq, Repr

structure File where
  objects : List Nat
  events : List FlipEvent
deriving DecidableEq, Repr

structure Caps where
  dumbBuffer : Bool
  prime : Bool
  asyncPageFlip : Bool
  modifiers : Bool
  cursorWidth : Nat
  cursorHeight : Nat
deriving DecidableEq, Repr

structure Limits where
  minWidth : Nat
  maxWidth : Nat
  minHeight : Nat
  maxHeight : Nat
deriving DecidableEq, Repr

def coherentSize : Nat := 32 * 1024 * 1024

-- Memory is taken from the pool and never given back.
structure Pool where
  base : Nat
  used : Nat
  within : used ≤ coherentSize
deriving DecidableEq, Repr

structure Display where
  pitch : Nat
  height : Nat
deriving DecidableEq, Repr

-- The pool (`none` before it is set up), physical memory, and what the screen shows.
structure Hardware where
  pool : Option Pool
  ram : Bytes
  display : Display
  screen : List UInt8

-- Objects, framebuffers and files are named by their addresses; `none` is memory that is not theirs.
structure Device where
  gems : Nat → Option GemObject
  framebuffers : Nat → Option Framebuffer
  file : Nat → Option File
  crtc : Nat → Crtc
  files : List Nat
  gemObjects : List Nat
  fbs : List Nat
  crtcs : List Nat
  encoders : List Encoder
  connectors : List Connector
  caps : Caps
  limits : Limits
  nextFbId : Nat
  nextHandle : Nat
  nextGemName : Nat
  hw : Hardware

inductive Lock where
  | device
  | gemName
  | event (file : Nat)
deriving DecidableEq, Repr

structure State where
  dev : Device
  held : List Lock

-- A thread spins on a lock that it holds itself, uses memory that is not there, or never returns from
-- `printf`.
inductive Stop where
  | deadlock
  | fault
  | spins
deriving DecidableEq, Repr

-- A command that stops leaves the state as it is then.
abbrev Command (α : Type) : Type := Exec State (Stop × State) α

def stop {α : Type} (e : Stop) : Command α := fun s => .error (e,s)

-- The formats that `printf` returns from.
class Console where
  returns : String → Bool

-- The console of the kernel, whose `printf` is `vprintf_template`.
@[reducible]
def kernelConsole : Console := ⟨fun format => Vprintf.wellFormed false (Vprintf.ascii format)⟩

def printf [Console] (format : String) : Command Unit := fun s =>
  if Console.returns format then .ok ((),s) else .error (.spins,s)

def lock (l : Lock) : Command Unit := fun s =>
  if l ∈ s.held then .error (.deadlock,s) else .ok ((),{ s with held := l :: s.held })

def unlock (l : Lock) : Command Unit := Exec.modify fun s => { s with held := s.held.erase l }

def device : Command Device := do
  let s ← Exec.get
  pure s.dev

def setDevice (f : Device → Device) : Command Unit := Exec.modify fun s => { s with dev := f s.dev }

def orFault {α : Type} : Option α → Command α
  | some a => pure a
  | none => stop .fault

def readGem (o : Nat) : Command GemObject := do
  let dev ← device
  orFault (dev.gems o)

def readFramebuffer (p : Nat) : Command Framebuffer := do
  let dev ← device
  orFault (dev.framebuffers p)

def readFile (f : Nat) : Command File := do
  let dev ← device
  orFault (dev.file f)

def Device.setGem (d : Device) (o : Nat) (g : Option GemObject) : Device :=
  { d with gems := Function.update d.gems o g }

def Device.setFramebuffer (d : Device) (p : Nat) (fb : Option Framebuffer) : Device :=
  { d with framebuffers := Function.update d.framebuffers p fb }

def Device.setFile (d : Device) (f : Nat) (x : Option File) : Device :=
  { d with file := Function.update d.file f x }

def Device.setCrtc (d : Device) (c : Nat) (x : Crtc) : Device :=
  { d with crtc := Function.update d.crtc c x }

def findBy {α : Type} (read : Nat → Command α) (p : α → Bool) : List Nat → Command (Option Nat)
  | [] => pure none
  | x :: xs => do
    let a ← read x
    if p a then pure (some x) else findBy read p xs

-- The same search on what is live: it goes no further than the first address that is not.
def firstLive {α : Type} (heap : Nat → Option α) (p : α → Bool) : List Nat → Option Nat
  | [] => none
  | x :: xs => match heap x with
    | none => none
    | some a => if p a then some x else firstLive heap p xs

theorem kernelConsole_spins {format : String} (hz : 0 ∉ Vprintf.ascii format)
    (h : kernelConsole.returns format = false) (args : Nat → Vprintf.Arg) :
    ¬∃ written out, Vprintf.Returns ⟨Vprintf.ascii format,hz⟩ args written out := by
  rintro ⟨written,out,hreturns⟩
  cases h.symm.trans (Vprintf.wellFormed_of_returns hreturns).1

theorem firstLive_some {α : Type} {heap : Nat → Option α} {p : α → Bool} {xs : List Nat} {x : Nat}
    (h : firstLive heap p xs = some x) : x ∈ xs ∧ ∃ a, heap x = some a ∧ p a = true := by
  induction xs with
  | nil => cases h
  | cons y ys ih =>
    rw [firstLive] at h
    cases ha : heap y with
    | none => simp [ha] at h
    | some a =>
      simp only [ha] at h
      split_ifs at h with hp
      · cases h
        exact ⟨List.mem_cons_self,a,ha,hp⟩
      · obtain ⟨hmem,hlive⟩ := ih h
        exact ⟨List.mem_cons_of_mem _ hmem,hlive⟩

theorem findBy_cases {α : Type} {read : Nat → Command α} {heap : Nat → Option α} {p : α → Bool}
    {s : State} (hread : ∀ x, read x s = orFault (heap x) s) (xs : List Nat) :
    findBy read p xs s = .ok (firstLive heap p xs,s) ∨
      findBy read p xs s = .error (.fault,s) ∧ firstLive heap p xs = none ∧ ∃ x ∈ xs, heap x = none := by
  induction xs with
  | nil => exact .inl rfl
  | cons x xs ih =>
    rw [findBy,firstLive]
    cases hx : heap x with
    | none =>
      rw [Exec.bind_error (e := (.fault,s)) (by rw [hread,hx]; rfl)]
      exact .inr ⟨rfl,rfl,x,List.mem_cons_self,hx⟩
    | some a =>
      have hok : read x s = .ok (a,s) := by
        rw [hread,hx]
        rfl
      rw [Exec.bind_ok hok]
      dsimp only
      split_ifs
      · exact .inl rfl
      · rcases ih with h | ⟨h,hnone,y,hy,hdead⟩
        · exact .inl h
        · exact .inr ⟨h,hnone,y,List.mem_cons_of_mem _ hy,hdead⟩

def Device.findFb (d : Device) (id : Nat) : Option Nat :=
  if id = 0 then none else firstLive d.framebuffers (fun fb => fb.id = id) d.fbs

def Device.findCrtc (d : Device) (id : Nat) : Option Nat :=
  if id = 0 then none else d.crtcs.find? fun c => (d.crtc c).id = id

end SabaOS.Drm
