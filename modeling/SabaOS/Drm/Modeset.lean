import Mathlib.Data.List.FinRange
import SabaOS.Drm.Types

namespace SabaOS.Drm

section Gem

open SabaOS.Lib SabaOS.Klib

variable [Console]

-- The formats with a conversion that `printf` has no case for. Every other format of the driver is one
-- that it returns from.
def createdFormat : String := "DRM GEM: Created object %p, size %u, phys %#lX\n"

def destroyingFormat : String := "DRM GEM: Destroying object %p\n"

def handleFormat : String := "DRM GEM: Created handle %u for object %p\n"

def outOfMemoryFormat : String := "DMA: Out of coherent memory (requested %zu, available %zu)\n"

def flipFormat : String := "Fishix DRM: Page flip to FB %u, GEM %p\n"

def alignedSize (size : Nat) : Nat := uadd size 4095 / 4096 * 4096

def Pool.allocCoherent (p : Pool) (size : Nat) : Option (Pool × Nat) :=
  if h : coherentSize < uadd p.used (alignedSize size) then none
  else some (⟨p.base,uadd p.used (alignedSize size),Nat.not_lt.mp h⟩,p.base + p.used)

def Hardware.take (hw : Hardware) (pool : Pool) (phys size : Nat) : Hardware :=
  { hw with pool := some pool, ram := memset hw.ram phys 0 (alignedSize size) }

def allocCoherent (size : Nat) : Command (Option Nat) := do
  let dev ← device
  match dev.hw.pool with
  | none => pure none
  | some pool => match pool.allocCoherent size with
    | none => do
      printf outOfMemoryFormat
      pure none
    | some r => do
      setDevice fun d => { d with hw := d.hw.take r.1 r.2 size }
      pure (some r.2)

def alignPage (size : Nat) : Nat := (size + 4095) / 4096 * 4096 % u32Bound

def takeId (next : Nat) : Nat × Nat :=
  if next = 0 then (increment 0,increment (increment 0)) else (next,increment next)

-- `alloc` is what `new` returns.
def gemObjectCreate (alloc : Option Nat) (size : Nat) : Command (Option Nat) :=
  if size = 0 then pure none
  else match alloc with
    | none => pure none
    | some o => do
      let phys ← allocCoherent (alignPage size)
      match phys with
      | none => pure none
      | some phys => do
        setDevice fun d => d.setGem o (some ⟨0,0,alignPage size,phys,1⟩)
        printf createdFormat
        pure (some o)

def gemObjectDestroy (o : Nat) : Command Unit := do
  let obj ← readGem o
  setDevice fun d => d.setGem o (some { obj with refcount := decrement obj.refcount })
  if 0 < decrement obj.refcount then pure ()
  else do
    printf destroyingFormat
    lock .device
    setDevice fun d => { d with gemObjects := d.gemObjects.erase o }
    unlock .device
    setDevice fun d => d.setGem o none

def gemObjectLookup (file handle : Nat) : Command (Option Nat) :=
  if handle = 0 then pure none
  else do
    lock .device
    let f ← readFile file
    let found ← findBy readGem (fun obj => obj.handle = handle) f.objects
    match found with
    | none => do
      unlock .device
      pure none
    | some o => do
      let obj ← readGem o
      setDevice fun d => d.setGem o (some { obj with refcount := increment obj.refcount })
      unlock .device
      pure (some o)

def newHandle : Command Nat := do
  let dev ← device
  setDevice fun d => { d with nextHandle := (takeId d.nextHandle).2 }
  pure (takeId dev.nextHandle).1

def pushObject (file o : Nat) : Command Unit := do
  let f ← readFile file
  setDevice fun d => d.setFile file (some { f with objects := f.objects ++ [o] })

def gemHandleCreate (file o : Nat) : Command Nat := do
  lock .device
  let handle ← newHandle
  let obj ← readGem o
  setDevice fun d => d.setGem o (some { obj with handle := handle })
  pushObject file o
  setDevice fun d => { d with gemObjects := d.gemObjects ++ [o] }
  unlock .device
  printf handleFormat
  pure handle

def gemHandleDelete (file handle : Nat) : Command Int :=
  if handle = 0 then pure einval
  else do
    lock .device
    let f ← readFile file
    let found ← findBy readGem (fun obj => obj.handle = handle) f.objects
    match found with
    | none => do
      unlock .device
      pure enoent
    | some o => do
      setDevice fun d => d.setFile file (some { f with objects := f.objects.erase o })
      unlock .device
      gemObjectDestroy o
      pure 0

def gemFlink (file handle : Nat) : Command (Except Int Nat) :=
  if handle = 0 then pure (.error einval)
  else do
    let found ← gemObjectLookup file handle
    match found with
    | none => pure (.error enoent)
    | some o => do
      lock .gemName
      let dev ← device
      let obj ← readGem o
      setDevice fun d => { d.setGem o (some { obj with name := (takeId dev.nextGemName).1 }) with
        nextGemName := (takeId dev.nextGemName).2 }
      unlock .gemName
      gemObjectDestroy o
      pure (.ok (takeId dev.nextGemName).1)

def gemOpen (file name : Nat) : Command (Except Int (Nat × Nat)) :=
  if name = 0 then pure (.error einval)
  else do
    lock .device
    let dev ← device
    let found ← findBy readGem (fun obj => obj.name = name) dev.gemObjects
    match found with
    | none => do
      unlock .device
      pure (.error enoent)
    | some o => do
      let handle ← newHandle
      let obj ← readGem o
      setDevice fun d => d.setGem o
        (some { obj with handle := handle, refcount := increment obj.refcount })
      pushObject file o
      unlock .device
      pure (.ok (handle,obj.size))

end Gem

section Modeset

open SabaOS.Lib SabaOS.Klib

variable [Console]

inductive Reply where
  | error (e : Int)
  | done
  | version (major minor patchlevel : Nat)
  | cap (value : Nat)
  | name (name : Nat)
  | opened (handle size : Nat)
  | dumb (handle pitch size : Nat)
  | offset (offset : Nat)
  | fbId (id : Nat)
  | fb (width height pitch bpp depth handle : Nat)
  | crtc (fbId x y gammaSize : Nat) (modeValid : Bool) (mode : Option Mode)
  | encoder (encoderType crtcId possibleCrtcs possibleClones : Nat)
  | connector (countModes : Nat) (encoders : Option Nat) (countEncoders encoderId connection mmWidth
      mmHeight subconnector countProps : Nat)
  | resources (fbs crtcs connectors encoders : Option (List Nat)) (countFbs countCrtcs countConnectors
      countEncoders : Nat) (limits : Limits)
deriving DecidableEq, Repr

section Framebuffers

def framebufferCreate (alloc : Option Nat) : Command (Option Nat) :=
  match alloc with
  | none => pure none
  | some p => do
    setDevice fun d => { d.setFramebuffer p (some ⟨d.nextFbId,0,0,0,0,0,0,fun _ => none,fun _ => 0,
      fun _ => 0,fun _ => 0⟩) with
      nextFbId := increment d.nextFbId
      fbs := d.fbs ++ [p] }
    pure (some p)

def destroyAll : List Nat → Command Unit
  | [] => pure ()
  | o :: os => do
    gemObjectDestroy o
    destroyAll os

def Framebuffer.planes (fb : Framebuffer) : List Nat := (List.finRange 4).filterMap fb.obj

def framebufferDestroy (p : Nat) : Command Unit := do
  let fb ← readFramebuffer p
  destroyAll fb.planes
  setDevice fun d => d.setFramebuffer p none

def framebufferLookup (id : Nat) : Command (Option Nat) :=
  if id = 0 then pure none
  else do
    let dev ← device
    findBy readFramebuffer (fun fb => fb.id = id) dev.fbs

def crtcFind (id : Nat) : Command (Option Nat) := do
  let dev ← device
  pure (dev.findCrtc id)

structure FbCmd2 where
  width : Nat
  height : Nat
  pixelFormat : Nat
  handles : Fin 4 → Nat
  pitches : Fin 4 → Nat
  offsets : Fin 4 → Nat
  modifier : Fin 4 → Nat

def fourccCode (a b c d : Char) : Nat :=
  a.toNat + b.toNat * 2 ^ 8 + c.toNat * 2 ^ 16 + d.toNat * 2 ^ 24

def formatBits (format : Nat) : Nat × Nat :=
  if format ∈ [fourccCode 'X' 'R' '2' '4',fourccCode 'A' 'R' '2' '4',fourccCode 'X' 'B' '2' '4',
      fourccCode 'A' 'B' '2' '4'] then (32,24)
  else if format ∈ [fourccCode 'R' 'G' '2' '4',fourccCode 'B' 'G' '2' '4'] then (24,24)
  else if format ∈ [fourccCode 'R' 'G' '1' '6',fourccCode 'B' 'G' '1' '6'] then (16,16)
  else (32,24)

def attachObjects (file p : Nat) (cmd : FbCmd2) : List (Fin 4) → Command Bool
  | [] => pure true
  | i :: is =>
    if cmd.handles i = 0 then attachObjects file p cmd is
    else do
      let found ← gemObjectLookup file (cmd.handles i)
      match found with
      | none => pure false
      | some o => do
        let fb ← readFramebuffer p
        setDevice fun d => d.setFramebuffer p (some { fb with
          obj := Function.update fb.obj i (some o)
          pitches := Function.update fb.pitches i (cmd.pitches i)
          offsets := Function.update fb.offsets i (cmd.offsets i)
          modifiers := Function.update fb.modifiers i (cmd.modifier i) })
        attachObjects file p cmd is

def fishixFbCreate : Int := 0

def modeAddfb2 (file : Nat) (alloc : Option Nat) (cmd : FbCmd2) : Command Reply :=
  if cmd.width = 0 ∨ cmd.height = 0 then pure (.error einval)
  else if cmd.handles 0 = 0 then pure (.error einval)
  else do
    let created ← framebufferCreate alloc
    match created with
    | none => pure (.error enomem)
    | some p => do
      let fb ← readFramebuffer p
      setDevice fun d => d.setFramebuffer p (some { fb with
        width := cmd.width
        height := cmd.height
        pixelFormat := cmd.pixelFormat
        pitch := cmd.pitches 0
        bpp := (formatBits cmd.pixelFormat).1
        depth := (formatBits cmd.pixelFormat).2 })
      let attached ← attachObjects file p cmd (List.finRange 4)
      if attached then
        if fishixFbCreate < 0 then do
          framebufferDestroy p
          pure (.error fishixFbCreate)
        else do
          let fb ← readFramebuffer p
          pure (.fbId fb.id)
      else do
        framebufferDestroy p
        pure (.error enoent)

def modeRmfb (fbId : Nat) : Command Reply :=
  if fbId = 0 then pure (.error einval)
  else do
    lock .device
    let found ← framebufferLookup fbId
    match found with
    | none => do
      unlock .device
      pure (.error enoent)
    | some p => do
      setDevice fun d => { d with fbs := d.fbs.erase p }
      unlock .device
      framebufferDestroy p
      pure .done

def modeGetfb (fbId : Nat) : Command Reply := do
  lock .device
  let found ← framebufferLookup fbId
  match found with
  | none => do
    unlock .device
    pure (.error enoent)
  | some p => do
    let fb ← readFramebuffer p
    let handle ← match fb.obj 0 with
      | none => pure 0
      | some o => do
        let obj ← readGem o
        pure obj.handle
    unlock .device
    pure (.fb fb.width fb.height fb.pitch fb.bpp fb.depth handle)

end Framebuffers

section Crtcs

structure ModeCrtc where
  crtcId : Nat
  fbId : Nat
  modeValid : Bool
  mode : Mode
  x : Nat
  y : Nat

def Crtc.configure (c : Crtc) (m : ModeCrtc) (fb : Option Nat) : Crtc :=
  { c with
    mode := if m.modeValid then m.mode else c.mode
    enabled := m.modeValid
    x := m.x
    y := m.y
    fb := fb }

def fishixCrtcSetConfig : Int := 0

def modeSetCrtc (m : ModeCrtc) : Command Reply := do
  lock .device
  let found ← crtcFind m.crtcId
  match found with
  | none => do
    unlock .device
    pure (.error enoent)
  | some c => do
    let fb ← if m.fbId = 0 then pure none else framebufferLookup m.fbId
    if m.fbId ≠ 0 ∧ fb = none then do
      unlock .device
      pure (.error enoent)
    else do
      setDevice fun d => d.setCrtc c ((d.crtc c).configure m fb)
      unlock .device
      pure (if fishixCrtcSetConfig < 0 then .error fishixCrtcSetConfig else .done)

def modeGetCrtc (crtcId : Nat) : Command Reply := do
  lock .device
  let found ← crtcFind crtcId
  match found with
  | none => do
    unlock .device
    pure (.error enoent)
  | some c => do
    let dev ← device
    let crtc := dev.crtc c
    let fbId ← match crtc.fb with
      | none => pure 0
      | some p => do
        let fb ← readFramebuffer p
        pure fb.id
    unlock .device
    pure (.crtc fbId crtc.x crtc.y 0 crtc.enabled (if crtc.enabled then some crtc.mode else none))

def sendFlipEvent (crtcId userData file : Nat) : Command Unit := do
  lock (.event file)
  let f ← readFile file
  setDevice fun d => d.setFile file (some { f with events := f.events ++ [⟨crtcId,userData⟩] })
  unlock (.event file)

def sendFlipEvents (crtcId userData : Nat) : List Nat → Command Unit
  | [] => pure ()
  | f :: fs => do
    sendFlipEvent crtcId userData f
    sendFlipEvents crtcId userData fs

def modePageFlipComplete (c : Nat) : Command Unit := do
  lock .device
  let dev ← device
  let crtc := dev.crtc c
  match crtc.pageFlipPending,crtc.pendingFb with
  | true,some fb => do
    setDevice fun d => d.setCrtc c
      { crtc with fb := some fb, pendingFb := none, pageFlipPending := false }
    sendFlipEvents crtc.id crtc.pageFlipUserData dev.files
  | _,_ => pure ()
  unlock .device

def Display.bytes (display : Display) : Nat := display.pitch * display.height % u32Bound

def Hardware.show (hw : Hardware) (src : Nat) : Hardware :=
  { hw with screen := copyOut hw.ram src hw.display.bytes ++ hw.screen.drop hw.display.bytes }

def fishixPageFlip (c p : Nat) : Command Int := do
  let fb ← readFramebuffer p
  match fb.obj 0 with
  | none => pure einval
  | some o => do
    printf flipFormat
    let obj ← readGem o
    setDevice fun d => { d with hw := d.hw.show obj.paddr }
    modePageFlipComplete c
    pure 0

structure PageFlip where
  crtcId : Nat
  fbId : Nat
  userData : Nat
deriving DecidableEq, Repr

def modePageFlip (flip : PageFlip) : Command Reply := do
  lock .device
  let foundCrtc ← crtcFind flip.crtcId
  match foundCrtc with
  | none => do
    unlock .device
    pure (.error enoent)
  | some c => do
    let dev ← device
    if (dev.crtc c).pageFlipPending then do
      unlock .device
      pure (.error ebusy)
    else do
      let foundFb ← framebufferLookup flip.fbId
      match foundFb with
      | none => do
        unlock .device
        pure (.error enoent)
      | some p => do
        setDevice fun d => d.setCrtc c { d.crtc c with
          pageFlipPending := true
          pageFlipUserData := flip.userData
          pendingFb := some p }
        let ret ← fishixPageFlip c p
        if ret < 0 then do
          setDevice fun d => d.setCrtc c { d.crtc c with pageFlipPending := false, pendingFb := none }
          unlock .device
          pure (.error ret)
        else do
          unlock .device
          pure .done

end Crtcs

section Resources

def copyIds (room : Option Nat) (ids : List Nat) : Option (List Nat) :=
  match room with
  | none => none
  | some n => if ids.length ≤ n then some ids else none

def readIds : List Nat → Command (List Nat)
  | [] => pure []
  | p :: ps => do
    let fb ← readFramebuffer p
    let ids ← readIds ps
    pure (fb.id :: ids)

structure CardRes where
  fbs : Option Nat
  crtcs : Option Nat
  connectors : Option Nat
  encoders : Option Nat
deriving DecidableEq, Repr

def modeGetResources (res : CardRes) : Command Reply := do
  lock .device
  let dev ← device
  let fbs ← match copyIds res.fbs dev.fbs with
    | none => pure none
    | some ps => do
      let ids ← readIds ps
      pure (some ids)
  unlock .device
  pure (.resources fbs (copyIds res.crtcs (dev.crtcs.map fun c => (dev.crtc c).id))
    (copyIds res.connectors (dev.connectors.map Connector.id))
    (copyIds res.encoders (dev.encoders.map Encoder.id)) dev.fbs.length dev.crtcs.length
    dev.connectors.length dev.encoders.length dev.limits)

def encoderIdOf (encoder : Option Encoder) : Nat :=
  match encoder with
  | none => 0
  | some e => e.id

structure GetConnector where
  connectorId : Nat
  encoders : Option Nat
deriving DecidableEq, Repr

def modeGetConnector (conn : GetConnector) : Command Reply := do
  lock .device
  let dev ← device
  match (if conn.connectorId = 0 then none else dev.connectors.find? fun c => c.id = conn.connectorId) with
  | none => do
    unlock .device
    pure (.error enoent)
  | some c => do
    unlock .device
    pure (.connector c.numModes
      (match conn.encoders,c.encoder with
        | some n,some e => if 1 ≤ n then some e.id else none
        | _,_ => none)
      (if c.encoder.isSome then 1 else 0) (encoderIdOf c.encoder) c.connection c.mmWidth c.mmHeight
      c.subconnector 0)

def modeGetEncoder (encoderId : Nat) : Command Reply := do
  lock .device
  let dev ← device
  match (if encoderId = 0 then none else dev.encoders.find? fun e => e.id = encoderId) with
  | none => do
    unlock .device
    pure (.error enoent)
  | some e => do
    unlock .device
    pure (.encoder e.encoderType (match e.crtc with
      | none => 0
      | some c => (dev.crtc c).id) e.possibleCrtcs e.possibleClones)

end Resources

section Dumb

structure CreateDumb where
  width : Nat
  height : Nat
  bpp : Nat
deriving DecidableEq, Repr

def CreateDumb.pitch (dumb : CreateDumb) : Nat :=
  dumb.width * ((dumb.bpp + 7) % u32Bound / 8) % u32Bound

def CreateDumb.size (dumb : CreateDumb) : Nat := alignPage (dumb.pitch * dumb.height % u32Bound)

def modeCreateDumb (file : Nat) (alloc : Option Nat) (dumb : CreateDumb) : Command Reply := do
  let created ← gemObjectCreate alloc dumb.size
  match created with
  | none => pure (.error enomem)
  | some o => do
    let handle ← gemHandleCreate file o
    pure (.dumb handle dumb.pitch dumb.size)

def modeMapDumb (file handle : Nat) : Command Reply := do
  let found ← gemObjectLookup file handle
  match found with
  | none => pure (.error enoent)
  | some o => do
    gemObjectDestroy o
    pure (.offset (handle * 4096))

end Dumb

end Modeset

end SabaOS.Drm
