import Mathlib.Logic.Relation
import SabaOS.Drm.Modeset

namespace SabaOS.Drm

open SabaOS.Lib

variable [Console]

-- The argument of an ioctl is `none` when the pointer is null; `alloc` is what the allocators return.
inductive Request where
  | version (arg : Option Unit)
  | getCap (arg : Option Nat)
  | setClientCap
  | gemClose (arg : Option Nat)
  | gemFlink (arg : Option Nat)
  | gemOpen (arg : Option Nat)
  | getResources (arg : Option CardRes)
  | getCrtc (arg : Option Nat)
  | setCrtc (arg : Option ModeCrtc)
  | getEncoder (arg : Option Nat)
  | getConnector (arg : Option GetConnector)
  | getFb (arg : Option Nat)
  | rmFb (arg : Option Nat)
  | pageFlip (arg : Option PageFlip)
  | createDumb (alloc : Option Nat) (arg : Option CreateDumb)
  | mapDumb (arg : Option Nat)
  | destroyDumb (arg : Option Nat)
  | addFb2 (alloc : Option Nat) (arg : Option FbCmd2)
  | unknown

def capValue (d : Device) (capability : Nat) : Nat :=
  match capability with
  | 0x1 => if d.caps.dumbBuffer then 1 else 0
  | 0x2 => 0
  | 0x3 => 24
  | 0x4 => 0
  | 0x5 => if d.caps.prime then 1 else 0
  | 0x6 => 1
  | 0x7 => if d.caps.asyncPageFlip then 1 else 0
  | 0x8 => d.caps.cursorWidth
  | 0x9 => d.caps.cursorHeight
  | 0x10 => if d.caps.modifiers then 1 else 0
  | _ => 0

def getCap (capability : Nat) : Command Reply := do
  let dev ← device
  pure (.cap (capValue dev capability))

def Reply.ofCode (ret : Int) : Reply := if ret < 0 then .error ret else .done

def Reply.ofName : Except Int Nat → Reply
  | .error e => .error e
  | .ok n => .name n

def Reply.ofOpened : Except Int (Nat × Nat) → Reply
  | .error e => .error e
  | .ok r => .opened r.1 r.2

def nonNull {α : Type} (arg : Option α) (k : α → Command Reply) : Command Reply :=
  match arg with
  | none => pure (.error einval)
  | some a => k a

def Request.serve (file : Nat) : Request → Command Reply
  | .version arg => nonNull arg fun _ => pure (.version 1 6 0)
  | .getCap arg => nonNull arg Drm.getCap
  | .setClientCap => pure .done
  | .gemClose arg => nonNull arg fun handle => do
    let ret ← gemHandleDelete file handle
    pure (.ofCode ret)
  | .gemFlink arg => nonNull arg fun handle => do
    let ret ← Drm.gemFlink file handle
    pure (.ofName ret)
  | .gemOpen arg => nonNull arg fun name => do
    let ret ← Drm.gemOpen file name
    pure (.ofOpened ret)
  | .getResources arg => nonNull arg modeGetResources
  | .getCrtc arg => nonNull arg modeGetCrtc
  | .setCrtc arg => nonNull arg modeSetCrtc
  | .getEncoder arg => nonNull arg modeGetEncoder
  | .getConnector arg => nonNull arg modeGetConnector
  | .getFb arg => nonNull arg modeGetfb
  | .rmFb arg => do
    let fbId ← orFault arg
    modeRmfb fbId
  | .pageFlip arg => nonNull arg modePageFlip
  | .createDumb alloc arg => nonNull arg (modeCreateDumb file alloc)
  | .mapDumb arg => nonNull arg (modeMapDumb file)
  | .destroyDumb arg => nonNull arg fun handle => do
    let ret ← gemHandleDelete file handle
    pure (.ofCode ret)
  | .addFb2 alloc arg => nonNull arg (modeAddfb2 file alloc)
  | .unknown => pure (.error enotty)

def drmIoctl (file : Nat) (request : Request) : Command Reply := do
  let dev ← device
  match dev.file file with
  | none => pure (.error ebadf)
  | some _ => request.serve file

def drmOpen (alloc : Option Nat) : Command Reply :=
  match alloc with
  | none => pure (.error enomem)
  | some file => do
    setDevice fun d => d.setFile file (some ⟨[],[]⟩)
    lock .device
    setDevice fun d => { d with files := d.files ++ [file] }
    unlock .device
    pure .done

def drmClose (file : Nat) : Command Reply := do
  let dev ← device
  match dev.file file with
  | none => pure (.error ebadf)
  | some f => do
    lock .device
    setDevice fun d => { d with files := d.files.erase file }
    unlock .device
    destroyAll f.objects
    setDevice fun d => d.setFile file none
    pure .done

inductive Op where
  | open (alloc : Option Nat)
  | close (file : Nat)
  | ioctl (file : Nat) (request : Request)

def Op.run : Op → Command Reply
  | .open alloc => drmOpen alloc
  | .close file => drmClose file
  | .ioctl file request => drmIoctl file request

-- The allocators never return memory that is in use.
def Op.fresh (d : Device) : Op → Bool
  | .open (some file) => (d.file file).isNone
  | .ioctl _ (.createDumb (some o) _) => (d.gems o).isNone
  | .ioctl _ (.addFb2 (some p) _) => (d.framebuffers p).isNone
  | _ => true

inductive Step : State → State → Prop
  | op {s s' : State} {r : Reply} (o : Op) : o.fresh s.dev → o.run s = .ok (r,s') → Step s s'

def bootCrtc : Crtc := ⟨1,none,[],true,0,0,false,0,none⟩

def bootEncoder : Encoder := ⟨1,0,some 0,0xFFFFFFFF,0⟩

def bootDevice (connector : Connector) (mode : Mode) (hw : Hardware) : Device where
  gems := fun _ => none
  framebuffers := fun _ => none
  file := fun _ => none
  crtc := fun _ => { bootCrtc with mode := mode }
  files := []
  gemObjects := []
  fbs := []
  crtcs := [0]
  encoders := [bootEncoder]
  connectors := [{ connector with id := 1, encoder := some bootEncoder }]
  caps := ⟨true,true,false,false,64,64⟩
  limits := ⟨0,16384,0,16384⟩
  nextFbId := 1
  nextHandle := 1
  nextGemName := 1
  hw := hw

def boot (connector : Connector) (mode : Mode) (hw : Hardware) : State :=
  ⟨bootDevice connector mode hw,[]⟩

def Reachable (s : State) : Prop :=
  ∃ connector mode hw, Relation.ReflTransGen Step (boot connector mode hw) s

def runAll : List Op → State → Option State
  | [],s => some s
  | op :: ops,s => if op.fresh s.dev then match op.run s with
      | .ok r => runAll ops r.2
      | .error _ => none
    else none

theorem Reachable.runAll {ops : List Op} {s s' : State} (h : Reachable s)
    (hrun : runAll ops s = some s') : Reachable s' := by
  induction ops generalizing s with
  | nil =>
    cases hrun
    exact h
  | cons op ops ih =>
    rw [Drm.runAll] at hrun
    split_ifs at hrun with hfresh
    cases hs : op.run s with
    | error e => simp [hs] at hrun
    | ok r =>
      rw [hs] at hrun
      obtain ⟨connector,mode,hw,hruns⟩ := h
      exact ih ⟨connector,mode,hw,hruns.tail (.op op hfresh hs)⟩ hrun

def bootConnector : Connector := ⟨1,none,1,0,0,0,5⟩

def bootHardware : Hardware := ⟨some ⟨0x1000000,0,Nat.zero_le _⟩,fun _ => 0,⟨64,64⟩,[]⟩

def booted : State := boot bootConnector [] bootHardware

theorem booted_reachable : Reachable booted := ⟨bootConnector,[],bootHardware,.refl⟩

-- A console that could print everything.
@[reducible]
def fullConsole : Console := ⟨fun _ => true⟩

end SabaOS.Drm
