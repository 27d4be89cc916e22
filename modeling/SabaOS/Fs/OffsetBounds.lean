import SabaOS.Lib.Window
import SabaOS.Fs.TmpfsRun
import SabaOS.Fs.ProcfsRun
import SabaOS.Userland.MemFd
import SabaOS.Gfx.Terminal

namespace SabaOS.Fs

open SabaOS.Klib SabaOS.Mem SabaOS.Lib SabaOS.Userland SabaOS.Gfx

inductive Storage where
  | tmpfs (n : Tmpfs.Node)
  | memFd (m : MemFd)
  | info (n : Procfs.InfoNode)
  | framebuffer (n : FramebufferDevNode)

namespace Storage

def size : Storage → Nat
  | .tmpfs n => n.data.size
  | .memFd m => m.size
  | .info n => n.file.data.size
  | .framebuffer n => n.size

def capacity : Storage → Nat
  | .tmpfs n => n.data.capacity
  | .memFd m => m.capacity
  | .info n => n.file.data.capacity
  | .framebuffer n => n.size

def isDirectory : Storage → Prop
  | .tmpfs n => n.nodeType = .directory
  | _ => False

instance (s : Storage) : Decidable s.isDirectory :=
  match s with
  | .tmpfs n => inferInstanceAs (Decidable (n.nodeType = .directory))
  | .memFd _ => isFalse id
  | .info _ => isFalse id
  | .framebuffer _ => isFalse id

def growPast : Storage → Nat → Option Storage
  | .tmpfs n,length => (n.growPast length).map .tmpfs
  | .memFd m,length => (m.growPast length).map .memFd
  | .info n,length => (n.file.growPast length).map fun file => .info { n with file := file }
  | .framebuffer n,_ => some (.framebuffer n)

def readWindow (s : Storage) (count offset : Nat) : Option Window :=
  if s.isDirectory then none else some (.clamp (2 ^ 64) s.size count offset)

def growWindow (s : Storage) (count offset : Nat) : Option (Window × Storage) :=
  if s.isDirectory ∨ count = 0 then none
  else (s.growPast (uadd offset count)).map fun grown => (⟨offset,count⟩,grown)

def writeWindow : Storage → Nat → Nat → Option (Window × Storage)
  | .framebuffer n,count,offset =>
    some (.clamp (2 ^ 64) n.size count offset,.framebuffer n)
  | .tmpfs n,count,offset => growWindow (.tmpfs n) count offset
  | .memFd m,count,offset => growWindow (.memFd m) count offset
  | .info n,count,offset => growWindow (.info n) count offset

def Reads (s : Storage) (count offset : Nat) : Prop :=
  ∀ w, s.readWindow count offset = some w → w.Serves s.size count offset

def Writes (s : Storage) (count offset : Nat) : Prop :=
  ∀ w grown, s.writeWindow count offset = some (w,grown) → w.Inside grown.capacity

-- The capacity of a memory file is a whole number of pages.
def top : Storage → Nat
  | .memFd _ => 2 ^ 64 - Userland.pageSize
  | _ => 2 ^ 64 - 1

def pastScreen : Storage → Nat → Prop
  | .framebuffer n,offset => n.size ≤ offset
  | _,_ => False

def Idle (s : Storage) (count offset : Nat) : Prop :=
  s.isDirectory ∨ count = 0 ∨ s.growPast (uadd offset count) = none ∨ s.pastScreen offset

def Fits (s : Storage) (count offset : Nat) : Prop :=
  offset + count ≤ s.top ∨ s.Idle count offset

structure Sound (s : Storage) : Prop where
  size_le : s.size ≤ s.capacity
  capacity_le : s.capacity ≤ s.top
  directory : s.isDirectory → s.size = 0

inductive Created : Storage → Prop
  | tmpfs (nodeType : NodeType) (heap : Bump) : Created (.tmpfs ⟨nodeType,⟨0,0,0⟩,heap⟩)
  | memFd (k : Kernel) : Created (.memFd (.create k))
  | info (nodeType : NodeType) (heap : Bump) : Created (.info (Procfs.fresh nodeType heap))
  | framebuffer (n : FramebufferDevNode) : Created (.framebuffer n)

def FitsTmpfs (n : Tmpfs.Node) : Tmpfs.Op → Prop
  | .write buf offset => (tmpfs n).Fits buf.length offset
  | .truncate _ => True
  | .others => True

def FitsMemFd (m : MemFd) : MemFd.Op → Prop
  | .write buf offset => (memFd m).Fits buf.length offset
  | .truncate length => length ≤ (memFd m).top
  | .others => True

-- After a write outside the storage nothing is known of the kernel's memory.
inductive Step : Storage → Storage → Prop
  | tmpfs {n n' : Tmpfs.Node} {op : Tmpfs.Op} : FitsTmpfs n op → Tmpfs.Step n op n' →
      Step (.tmpfs n) (.tmpfs n')
  | memFd {m m' : MemFd} {op : MemFd.Op} : FitsMemFd m op → MemFd.Step m op m' →
      Step (.memFd m) (.memFd m')
  | info {n n' : Procfs.InfoNode} {op : Procfs.Op} : Procfs.Step n op n' →
      Step (.info n) (.info n')
  | framebuffer {n : FramebufferDevNode} {buf : List UInt8} {offset : Nat} :
      (framebuffer n).Fits buf.length offset →
      Step (.framebuffer n) (.framebuffer (n.write buf offset).1)

inductive Reached : Storage → Prop
  | created {s : Storage} : Created s → Reached s
  | step {s s' : Storage} : Reached s → Step s s' → Reached s'

section Ties

theorem growWindow_grown {s g : Storage} {count offset : Nat} (hdir : ¬s.isDirectory)
    (hcount : count ≠ 0) (hg : s.growPast (uadd offset count) = some g) :
    s.growWindow count offset = some (⟨offset,count⟩,g) := by
  rw [growWindow,if_neg (not_or.mpr ⟨hdir,hcount⟩),hg]
  rfl

theorem copyOut_clamp (bytes : Bytes) (address size count offset : Nat) :
    copyOut bytes address (Window.clamp (2 ^ 64) size count offset).length =
      if size ≤ offset then []
      else copyOut bytes address (if size < uadd offset count then size - offset else count) := by
  rw [Window.clamp_length,uadd]
  split_ifs
  · rfl
  · rfl
  · rfl

theorem growWindow_some {s g : Storage} {count offset : Nat} {w : Window}
    (h : s.growWindow count offset = some (w,g)) :
    ¬s.isDirectory ∧ count ≠ 0 ∧ s.growPast (uadd offset count) = some g ∧ w = ⟨offset,count⟩ := by
  rw [growWindow] at h
  split_ifs at h with hidle
  obtain ⟨g',hg,heq⟩ := Option.map_eq_some_iff.mp h
  cases heq
  exact ⟨fun hd => hidle (.inl hd),fun hzero => hidle (.inr hzero),hg,rfl⟩

theorem tmpfs_read (n : Tmpfs.Node) (count offset : Nat) : n.read count offset =
    match (tmpfs n).readWindow count offset with
    | none => .error .eisdir
    | some w => .ok (copyOut n.heap.bytes (n.data.storage + w.start) w.length) := by
  rw [readWindow]
  by_cases hdir : n.nodeType = .directory
  · rw [if_pos (show (tmpfs n).isDirectory from hdir),Tmpfs.Node.read,if_pos hdir]
  · rw [if_neg (show ¬(tmpfs n).isDirectory from hdir),Tmpfs.Node.read,if_neg hdir]
    dsimp only
    rw [copyOut_clamp,Window.clamp_start,size]
    split_ifs
    · rfl
    · rfl
    · rfl

theorem info_read (n : Procfs.InfoNode) (count offset : Nat) :
    ∃ w, (info n).readWindow count offset = some w ∧ n.served count offset =
      copyOut n.file.heap.bytes (n.file.data.storage + w.start) w.length := by
  refine ⟨_,if_neg id,?_⟩
  rw [copyOut_clamp,Window.clamp_start]
  rfl

theorem memFd_read (m : MemFd) (count offset : Nat) :
    ∃ w, (memFd m).readWindow count offset = some w ∧ m.read count offset =
      if m.kernel.mappedAll (uadd m.address w.start) w.length then
        some (copyOut m.kernel.bytes (uadd m.address w.start) w.length) else none := by
  refine ⟨_,if_neg id,?_⟩
  rw [Window.clamp_start,Window.clamp_length,MemFd.read,size]
  by_cases h : m.size ≤ offset
  · rw [if_pos h,if_pos h,if_pos (by simp [Kernel.mappedAll])]
    rfl
  · rw [if_neg h,if_neg h]
    rfl

theorem framebuffer_read (n : FramebufferDevNode) (count offset : Nat) :
    ∃ w, (framebuffer n).readWindow count offset = some w ∧ n.read count offset =
      copyOut n.bytes (n.fb.addr + w.start) w.length := by
  refine ⟨_,if_neg id,?_⟩
  rw [copyOut_clamp,Window.clamp_start]
  rfl

variable {buf : List UInt8} {offset : Nat} {w : Window} {grown : Storage}

theorem tmpfs_write {n n' : Tmpfs.Node} {ret : Except Errno Nat}
    (h : n.write buf offset = some (n',ret)) :
    (tmpfs n).writeWindow buf.length offset = none ∧ n' = n ∨
      ∃ g, (tmpfs n).writeWindow buf.length offset = some (⟨offset,buf.length⟩,tmpfs g) ∧
        n' = g.setBytes (copyIn g.heap.bytes (g.data.storage + offset) buf) := by
  rw [Tmpfs.Node.write] at h
  split_ifs at h with hdir hzero
  · exact .inl ⟨if_pos (.inl hdir),(Prod.ext_iff.mp (Option.some.inj h)).1.symm⟩
  · exact .inl ⟨if_pos (.inr hzero),(Prod.ext_iff.mp (Option.some.inj h)).1.symm⟩
  · obtain ⟨g,hg,h⟩ := Option.bind_eq_some_iff.mp h
    cases h
    exact .inr ⟨g,growWindow_grown hdir hzero (by rw [growPast,hg]; rfl),rfl⟩

theorem info_write {n : Procfs.InfoNode} {file : Tmpfs.Node}
    (h : Procfs.writeContents n.file buf offset = some file) :
    (info n).writeWindow buf.length offset = none ∧ file = n.file ∨
      ∃ g, (info n).writeWindow buf.length offset =
          some (⟨offset,buf.length⟩,info { n with file := g }) ∧
        file = g.setBytes (copyIn g.heap.bytes (g.data.storage + offset) buf) := by
  rw [Procfs.writeContents] at h
  split_ifs at h with hzero
  · exact .inl ⟨if_pos (.inr hzero),(Option.some.inj h).symm⟩
  · obtain ⟨g,hg,h⟩ := Option.bind_eq_some_iff.mp h
    cases h
    exact .inr ⟨g,growWindow_grown id hzero (by rw [growPast,hg]; rfl),rfl⟩

theorem memFd_write {m m' : MemFd} {ret : Nat} (h : m.write buf offset = some (m',ret)) :
    (memFd m).writeWindow buf.length offset = none ∧ m' = m ∨
      ∃ g, (memFd m).writeWindow buf.length offset = some (⟨offset,buf.length⟩,memFd g) ∧
        m' = g.setBytes (copyIn g.kernel.bytes (uadd g.address offset) buf) := by
  rw [MemFd.write] at h
  split_ifs at h with hzero
  · exact .inl ⟨if_pos (.inr hzero),(Prod.ext_iff.mp (Option.some.inj h)).1.symm⟩
  · obtain ⟨g,hg,h⟩ := Option.bind_eq_some_iff.mp h
    obtain ⟨-,-,h⟩ := Option.bind_eq_some_iff.mp h
    cases h
    exact .inr ⟨g,growWindow_grown id hzero (by rw [growPast,hg]; rfl),rfl⟩

theorem framebuffer_write (n : FramebufferDevNode) (buf : List UInt8) (offset : Nat) :
    ∃ w, (framebuffer n).writeWindow buf.length offset = some (w,framebuffer n) ∧
      (n.write buf offset).2 = w.length ∧
      (0 < w.length → (n.write buf offset).1.bytes =
        copyIn n.bytes (n.fb.addr + w.start) (buf.take w.length)) := by
  refine ⟨_,rfl,?_⟩
  rw [Window.clamp_length,Window.clamp_start,FramebufferDevNode.write]
  by_cases h : n.size ≤ offset
  · rw [if_pos h,if_pos h]
    exact ⟨rfl,fun hpos => absurd hpos (Nat.lt_irrefl 0)⟩
  · rw [if_neg h,if_neg h]
    exact ⟨rfl,fun _ => rfl⟩

end Ties

section Growth

structure Contained (n : Tmpfs.Node) : Prop where
  size_le : n.data.size ≤ n.data.capacity
  capacity_lt : n.data.capacity < 2 ^ 64

variable {n n' : Tmpfs.Node} {length : Nat}

theorem growCapacity_le {fuel c c' : Nat} (h : Tmpfs.growCapacity length fuel c = some c')
    (hc : c < 2 ^ 64) : length ≤ c' ∧ c' < 2 ^ 64 := by
  induction fuel generalizing c with
  | zero =>
    rw [Tmpfs.growCapacity] at h
    split_ifs at h with hlt
    cases h
    exact ⟨Nat.le_of_not_lt hlt,hc⟩
  | succ fuel ih =>
    rw [Tmpfs.growCapacity] at h
    split_ifs at h with hlt
    · exact ih h (by omega)
    · cases h
      exact ⟨Nat.le_of_not_lt hlt,hc⟩

theorem Contained.growTo (hn : Contained n) (h : n.growTo length = some n') :
    Contained n' ∧ n'.data.size = length ∧ n'.nodeType = n.nodeType := by
  rw [Tmpfs.Node.growTo] at h
  split_ifs at h with hcap
  · obtain ⟨c,hc,h⟩ := Option.bind_eq_some_iff.mp h
    obtain ⟨⟨heap,storage⟩,-,h⟩ := Option.bind_eq_some_iff.mp h
    cases h
    obtain ⟨hle,hlt⟩ := growCapacity_le hc hn.capacity_lt
    exact ⟨⟨hle,hlt⟩,rfl,rfl⟩
  · cases h
    exact ⟨⟨Nat.le_of_not_lt hcap,hn.capacity_lt⟩,rfl,rfl⟩

theorem Contained.growPast (hn : Contained n) (h : n.growPast length = some n') :
    Contained n' ∧ length ≤ n'.data.capacity ∧ n'.nodeType = n.nodeType := by
  rw [Tmpfs.Node.growPast] at h
  split_ifs at h with hlt
  · obtain ⟨hn',hsize,htype⟩ := hn.growTo h
    exact ⟨hn',hsize ▸ hn'.size_le,htype⟩
  · cases h
    have := hn.size_le
    exact ⟨hn,by omega,rfl⟩

theorem Contained.setSize (hn : Contained n) (h : length ≤ n.data.size) :
    Contained (n.setSize length) :=
  ⟨Nat.le_trans h hn.size_le,hn.capacity_lt⟩

theorem Contained.setBytes (hn : Contained n) (bytes : Bytes) : Contained (n.setBytes bytes) :=
  ⟨hn.size_le,hn.capacity_lt⟩

theorem Contained.extend (hn : Contained n) (h : n.extend length = some n') :
    Contained n' ∧ length ≤ n'.data.size ∧ n'.nodeType = n.nodeType := by
  rw [Tmpfs.Node.extend] at h
  split_ifs at h with hlt
  · obtain ⟨g,hg,h⟩ := Option.bind_eq_some_iff.mp h
    cases h
    obtain ⟨hn',hsize,htype⟩ := hn.growTo hg
    exact ⟨hn'.setBytes _,Nat.le_of_eq hsize.symm,htype⟩
  · cases h
    exact ⟨hn,Nat.le_of_not_lt hlt,rfl⟩

theorem Contained.writeContents {buf : List UInt8} {offset : Nat} (hn : Contained n)
    (h : Procfs.writeContents n buf offset = some n') : Contained n' := by
  rw [Procfs.writeContents] at h
  split_ifs at h
  · cases h
    exact hn
  · obtain ⟨g,hg,h⟩ := Option.bind_eq_some_iff.mp h
    cases h
    exact (hn.growPast hg).1.setBytes _

theorem Contained.flushTempBuffer {p p' : Procfs.Printing} (hp : Contained p.file)
    (h : p.flushTempBuffer = some p') : Contained p'.file := by
  obtain ⟨file,hfile,h⟩ := Option.bind_eq_some_iff.mp h
  cases h
  exact hp.writeContents hfile

theorem Contained.printChars {p p' : Procfs.Printing} {text : List UInt8} (hp : Contained p.file)
    (h : text.foldlM Procfs.Printing.printChar p = some p') : Contained p'.file := by
  induction text generalizing p with
  | nil =>
    cases h
    exact hp
  | cons c text ih =>
    rw [List.foldlM_cons] at h
    obtain ⟨q,hq,h⟩ := Option.bind_eq_some_iff.mp h
    refine ih ?_ h
    rw [Procfs.Printing.printChar] at hq
    dsimp only at hq
    split_ifs at hq
    · exact flushTempBuffer (p := { p with tempBuffer := p.tempBuffer ++ [c] }) hp hq
    · cases hq
      exact hp

theorem Contained.printContents {p p' : Procfs.Printing} {printed : Procfs.Printed}
    (hp : Contained p.file) (h : p.printContents printed = some p') : Contained p'.file := by
  cases printed with
  | chars text => exact hp.printChars h
  | memory count copied fits =>
    obtain ⟨file,hfile,h⟩ := Option.bind_eq_some_iff.mp h
    cases h
    obtain ⟨hn,hsize,-⟩ := hp.growTo hfile
    exact (hn.setBytes _).setSize (Nat.le_trans fits.2 (Nat.le_of_eq hsize.symm))

theorem Contained.generateContents {n n' : Procfs.InfoNode} {printed : Procfs.Printed}
    (hn : Contained n.file) (h : n.generateContents printed = some n') : Contained n'.file := by
  obtain ⟨p,hp,h⟩ := Option.bind_eq_some_iff.mp h
  obtain ⟨q,hq,h⟩ := Option.bind_eq_some_iff.mp h
  cases h
  have hprinted : Contained p.file :=
    printContents (p := ⟨n.file,[],0⟩) hn hp
  exact hprinted.flushTempBuffer hq

end Growth

section MemFd

variable {m m' : MemFd} {length : Nat}

theorem alignUp_le : Klib.alignUp length Userland.pageSize ≤ 2 ^ 64 - Userland.pageSize ∨
    2 ^ 64 ≤ length := by
  rcases Nat.lt_or_ge length (2 ^ 64) with hlt | hge
  · refine .inl ?_
    rcases Nat.lt_or_ge (2 ^ 64 - Userland.pageSize) length with hwrap | hfit
    · rw [MemFd.alignUp_pageSize_wraps hwrap hlt]
      exact Nat.zero_le _
    · exact (alignUp_bounds hfit (by decide) (by decide)).2
  · exact .inr hge

theorem memFd_growTo (hcap : m.capacity ≤ 2 ^ 64 - Userland.pageSize) (hlength : length < 2 ^ 64)
    (h : m.growTo length = some m') :
    m'.size = length ∧ m'.capacity ≤ 2 ^ 64 - Userland.pageSize ∧
      (length ≤ 2 ^ 64 - Userland.pageSize → length ≤ m'.capacity) := by
  rw [MemFd.growTo] at h
  split_ifs at h with hlt
  · obtain ⟨k,-,h⟩ := Option.bind_eq_some_iff.mp h
    cases h
    exact ⟨rfl,alignUp_le.resolve_right (Nat.not_le.mpr hlength),
      fun hfit => (MemFd.alignUp_pageSize hfit).1⟩
  · cases h
    exact ⟨rfl,hcap,fun _ => Nat.le_of_not_lt hlt⟩

theorem Sound.memFd_growPast (hm : (memFd m).Sound) (hlength : length < 2 ^ 64)
    (h : m.growPast length = some m') :
    m'.capacity ≤ 2 ^ 64 - Userland.pageSize ∧
      (length ≤ 2 ^ 64 - Userland.pageSize → (memFd m').Sound ∧ length ≤ m'.capacity) := by
  have hsize : m.size ≤ m.capacity := hm.size_le
  rw [MemFd.growPast] at h
  split_ifs at h with hlt
  · obtain ⟨hgrown,hcap,hfit⟩ := memFd_growTo hm.capacity_le hlength h
    refine ⟨hcap,fun hle => ⟨⟨?_,hcap,fun hd => hd.elim⟩,hfit hle⟩⟩
    exact Nat.le_trans (Nat.le_of_eq hgrown) (hfit hle)
  · cases h
    exact ⟨hm.capacity_le,fun _ => ⟨hm,Nat.le_trans (Nat.le_of_not_lt hlt) hsize⟩⟩

theorem Sound.memFd_truncate (hm : (memFd m).Sound) (hlength : length ≤ 2 ^ 64 - Userland.pageSize)
    (h : m.truncate length = some m') : (memFd m').Sound := by
  obtain ⟨g,hg,h⟩ := Option.bind_eq_some_iff.mp h
  cases h
  have hsize : m.size ≤ m.capacity := hm.size_le
  rw [MemFd.resize] at hg
  split_ifs at hg with hlt
  · obtain ⟨-,hcap,hfit⟩ :=
      memFd_growTo hm.capacity_le (Nat.lt_of_le_of_lt hlength (by decide)) hg
    exact ⟨hfit hlength,hcap,fun hd => hd.elim⟩
  · obtain ⟨-,-,hg⟩ := Option.bind_eq_some_iff.mp hg
    cases hg
    exact ⟨Nat.le_trans (Nat.le_of_not_lt hlt) hsize,hm.capacity_le,fun hd => hd.elim⟩

end MemFd

section Runs

variable {s s' : Storage} {count offset : Nat}

theorem top_lt (s : Storage) : s.top < 2 ^ 64 := by
  cases s with
  | memFd m => exact (by decide : 2 ^ 64 - Userland.pageSize < 2 ^ 64)
  | tmpfs n => exact (by decide : 2 ^ 64 - 1 < 2 ^ 64)
  | info n => exact (by decide : 2 ^ 64 - 1 < 2 ^ 64)
  | framebuffer n => exact (by decide : 2 ^ 64 - 1 < 2 ^ 64)

theorem Sound.contained {n : Tmpfs.Node} (hn : (tmpfs n).Sound) : Contained n :=
  ⟨hn.size_le,Nat.lt_of_le_pred (by decide) hn.capacity_le⟩

theorem Contained.sound {n : Tmpfs.Node} (hn : Contained n)
    (hdir : n.nodeType = .directory → n.data.size = 0) : (tmpfs n).Sound :=
  ⟨hn.size_le,Nat.le_sub_one_of_lt hn.capacity_lt,hdir⟩

theorem Sound.created (h : Created s) : s.Sound := by
  cases h with
  | tmpfs nodeType heap => exact ⟨Nat.le_refl _,Nat.zero_le _,fun _ => rfl⟩
  | memFd k => exact ⟨Nat.le_refl _,Nat.zero_le _,fun hd => hd.elim⟩
  | info nodeType heap => exact ⟨Nat.le_refl _,Nat.zero_le _,fun hd => hd.elim⟩
  | framebuffer n => exact ⟨Nat.le_refl _,Nat.le_sub_one_of_lt n.size_lt,fun hd => hd.elim⟩

theorem Sound.tmpfs_step {n n' : Tmpfs.Node} {op : Tmpfs.Op} (hn : (tmpfs n).Sound)
    (h : Tmpfs.Step n op n') : (tmpfs n').Sound := by
  cases h with
  | write h =>
    rcases tmpfs_write h with ⟨-,rfl⟩ | ⟨g,hg,rfl⟩
    · exact hn
    · obtain ⟨hdir,-,hgrown,-⟩ := growWindow_some hg
      obtain ⟨g',hg',heq⟩ := Option.map_eq_some_iff.mp hgrown
      cases heq
      obtain ⟨hcontained,-,htype⟩ := hn.contained.growPast hg'
      exact (hcontained.setBytes _).sound fun hd => absurd (htype.symm.trans hd) hdir
  | truncate h =>
    rw [Tmpfs.Node.truncate] at h
    split_ifs at h with hdir
    · cases h
      exact hn
    · obtain ⟨g,hg,h⟩ := Option.bind_eq_some_iff.mp h
      cases h
      obtain ⟨hcontained,hle,htype⟩ := hn.contained.extend hg
      exact (hcontained.setSize hle).sound fun hd => absurd (htype.symm.trans hd) hdir
  | others _ _ _ => exact ⟨hn.size_le,hn.capacity_le,hn.directory⟩

theorem Fits.le_top {g : Storage} {w : Window} (h : s.Fits count offset)
    (hscreen : ¬s.pastScreen offset) (hg : s.growWindow count offset = some (w,g)) :
    offset + count ≤ s.top := by
  obtain ⟨hdir,hcount,hgrown,-⟩ := growWindow_some hg
  rcases h with hle | hd | hzero | hnone | hpast
  · exact hle
  · exact absurd hd hdir
  · exact absurd hzero hcount
  · exact absurd (hnone.symm.trans hgrown) (by simp)
  · exact absurd hpast hscreen

theorem Sound.memFd_step {m m' : MemFd} {op : MemFd.Op} (hm : (memFd m).Sound)
    (hfits : FitsMemFd m op) (h : MemFd.Step m op m') : (memFd m').Sound := by
  cases h with
  | write h =>
    rcases memFd_write h with ⟨-,rfl⟩ | ⟨g,hg,rfl⟩
    · exact hm
    · have hle := Fits.le_top hfits id hg
      have hend := uadd_of_lt (Nat.lt_of_le_of_lt hle (top_lt _))
      obtain ⟨-,-,hgrown,-⟩ := growWindow_some hg
      obtain ⟨g',hg',heq⟩ := Option.map_eq_some_iff.mp hgrown
      cases heq
      obtain ⟨hsound,-⟩ := (hm.memFd_growPast (uadd_lt _ _) hg').2 (hend ▸ hle)
      exact ⟨hsound.size_le,hsound.capacity_le,fun hd => hd.elim⟩
  | truncate h => exact hm.memFd_truncate hfits h
  | others _ _ _ _ => exact ⟨hm.size_le,hm.capacity_le,fun hd => hd.elim⟩

theorem Sound.info_step {n n' : Procfs.InfoNode} {op : Procfs.Op} (hn : (info n).Sound)
    (h : Procfs.Step n op n') : (info n').Sound := by
  have hfile : Contained n.file := ⟨hn.size_le,Nat.lt_of_le_pred (by decide) hn.capacity_le⟩
  suffices Contained n'.file from
    ⟨this.size_le,Nat.le_sub_one_of_lt this.capacity_lt,fun hd => hd.elim⟩
  cases h with
  | read h =>
    rw [Procfs.InfoNode.read] at h
    split_ifs at h
    · obtain ⟨g,hg,h⟩ := Option.bind_eq_some_iff.mp h
      cases h
      obtain ⟨g',hg',rfl⟩ := Option.map_eq_some_iff.mp hg
      have hgenerated : Contained g'.file := hfile.generateContents hg'
      exact hgenerated
    · cases h
      exact hfile
  | others _ _ _ => exact ⟨hfile.size_le,hfile.capacity_lt⟩

theorem Reached.sound (h : Reached s) : s.Sound := by
  induction h with
  | created h => exact .created h
  | step _ hstep ih =>
    cases hstep with
    | tmpfs _ hstep => exact ih.tmpfs_step hstep
    | memFd hfits hstep => exact ih.memFd_step hfits hstep
    | info hstep => exact ih.info_step hstep
    | @framebuffer n buf offset _ =>
      exact ⟨Nat.le_refl _,Nat.le_sub_one_of_lt (n.write buf offset).1.size_lt,fun hd => hd.elim⟩

theorem Sound.reads_iff (hs : s.Sound) (hoffset : offset < 2 ^ 64) (hcount : count < 2 ^ 64) :
    s.Reads count offset ↔ s.size ≤ offset ∨ offset + count < 2 ^ 64 := by
  have hsize : s.size < 2 ^ 64 :=
    Nat.lt_of_le_of_lt (Nat.le_trans hs.size_le hs.capacity_le) s.top_lt
  by_cases hdir : s.isDirectory
  · refine iff_of_true (fun w hw => ?_) (.inl (hs.directory hdir ▸ Nat.zero_le _))
    rw [readWindow,if_pos hdir] at hw
    cases hw
  · rw [← Window.serves_clamp_iff hsize hoffset hcount,Reads,readWindow,if_neg hdir]
    exact ⟨fun h => h _ rfl,fun h w hw => Option.some.inj hw ▸ h⟩

theorem Sound.grows {g : Storage} {length : Nat} (hs : s.Sound) (hlength : length < 2 ^ 64)
    (hscreen : ∀ n, s ≠ framebuffer n) (hg : s.growPast length = some g) :
    g.capacity ≤ s.top ∧ (length ≤ s.top → length ≤ g.capacity) := by
  cases s with
  | tmpfs n =>
    obtain ⟨n',hn',rfl⟩ := Option.map_eq_some_iff.mp hg
    obtain ⟨hcontained,hle,-⟩ := hs.contained.growPast hn'
    exact ⟨Nat.le_sub_one_of_lt hcontained.capacity_lt,fun _ => hle⟩
  | memFd m =>
    obtain ⟨m',hm',rfl⟩ := Option.map_eq_some_iff.mp hg
    obtain ⟨hcap,hfit⟩ := hs.memFd_growPast hlength hm'
    exact ⟨hcap,fun hle => (hfit hle).2⟩
  | info n =>
    obtain ⟨n',hn',rfl⟩ := Option.map_eq_some_iff.mp hg
    have hfile : Contained n.file := ⟨hs.size_le,Nat.lt_of_le_pred (by decide) hs.capacity_le⟩
    obtain ⟨hcontained,hle,-⟩ := hfile.growPast hn'
    exact ⟨Nat.le_sub_one_of_lt hcontained.capacity_lt,fun _ => hle⟩
  | framebuffer n => exact absurd rfl (hscreen n)

theorem Sound.grown_inside_iff (hs : s.Sound) (hscreen : ∀ n, s ≠ framebuffer n) :
    (∀ w g, s.growWindow count offset = some (w,g) → w.Inside g.capacity) ↔
      s.Fits count offset := by
  have hpast : ¬s.pastScreen offset := by
    cases s with
    | framebuffer n => exact absurd rfl (hscreen n)
    | tmpfs n => exact id
    | memFd m => exact id
    | info n => exact id
  constructor
  · intro h
    by_contra hnot
    obtain ⟨htop,hidle⟩ := not_or.mp hnot
    have hdir : ¬s.isDirectory := fun hd => hidle (.inl hd)
    have hcount : count ≠ 0 := fun hzero => hidle (.inr (.inl hzero))
    have hgrow : s.growPast (uadd offset count) ≠ none :=
      fun hnone => hidle (.inr (.inr (.inl hnone)))
    obtain ⟨g,hg⟩ := Option.ne_none_iff_exists'.mp hgrow
    have hin := Window.inside_iff.mp (h _ g (growWindow_grown hdir hcount hg))
    have hcap := (hs.grows (uadd_lt _ _) hscreen hg).1
    dsimp only at hin
    omega
  · intro hfits w g hg
    have hle := hfits.le_top hpast hg
    have hend : uadd offset count = offset + count := uadd_of_lt (Nat.lt_of_le_of_lt hle s.top_lt)
    obtain ⟨-,-,hgrown,rfl⟩ := growWindow_some hg
    exact Window.inside_iff.mpr
      (.inr ((hend ▸ (hs.grows (uadd_lt _ _) hscreen hgrown).2) hle))

theorem Sound.writes_iff (hs : s.Sound) (hoffset : offset < 2 ^ 64) (hcount : count < 2 ^ 64) :
    s.Writes count offset ↔ s.Fits count offset := by
  cases s with
  | tmpfs n => exact hs.grown_inside_iff fun _ => Storage.noConfusion
  | memFd m => exact hs.grown_inside_iff fun _ => Storage.noConfusion
  | info n => exact hs.grown_inside_iff fun _ => Storage.noConfusion
  | framebuffer n =>
    have hclamp := Window.inside_clamp_iff n.size_lt hoffset hcount
    have hwrites : (framebuffer n).Writes count offset ↔
        (Window.clamp (2 ^ 64) n.size count offset).Inside n.size :=
      ⟨fun h => h _ _ rfl,fun h w g hg => by cases hg; exact h⟩
    rw [hwrites,hclamp]
    constructor
    · rintro (h | h)
      · exact .inr (.inr (.inr (.inr h)))
      · exact .inl (Nat.le_sub_one_of_lt h)
    · rintro (h | hd | hzero | hnone | h)
      · exact .inr (Nat.lt_of_le_pred (by decide) h)
      · exact hd.elim
      · exact .inr (by omega)
      · cases hnone
      · exact .inl h

end Runs

theorem offsets_iff {s : Storage} (h : Reached s) (count offset : UInt64) :
    (s.Reads count.toNat offset.toNat ↔
      s.size ≤ offset.toNat ∨ offset.toNat + count.toNat < 2 ^ 64) ∧
    (s.Writes count.toNat offset.toNat ↔ s.Fits count.toNat offset.toNat) :=
  ⟨h.sound.reads_iff offset.toNat_lt count.toNat_lt,h.sound.writes_iff offset.toNat_lt count.toNat_lt⟩

def lettered : Tmpfs.Node × Except Errno Nat :=
  ((Tmpfs.fresh Tmpfs.zeroHeap).write [97,98,99] 2).get (by decide +kernel)

theorem offsets_lettered : lettered.1.read 16 1 = .ok [0,97,98,99] ∧
    (tmpfs lettered.1).Reads 16 1 ∧ (tmpfs lettered.1).Writes 16 3 := by
  have hwrite : Tmpfs.Step (Tmpfs.fresh Tmpfs.zeroHeap) (.write [97,98,99] 2) lettered.1 :=
    .write (Option.some_get (by decide +kernel)).symm
  have hfits : FitsTmpfs (Tmpfs.fresh Tmpfs.zeroHeap) (.write [97,98,99] 2) := Or.inl (by decide)
  have hreached : Reached (tmpfs lettered.1) :=
    (Reached.created (.tmpfs .regular _)).step (.tmpfs hfits hwrite)
  refine ⟨by decide +kernel,?_,?_⟩
  · exact (offsets_iff hreached 16 1).1.mpr (.inr (by decide))
  · exact (offsets_iff hreached 16 3).2.mpr (.inl (by decide))

def created : Storage := tmpfs (Tmpfs.fresh Tmpfs.zeroHeap)

-- `pwrite(fd, buf, 2, -1)` on an empty file: the storage is grown to one byte.
theorem end_wraps : Reached created ∧ ¬created.Writes 2 (2 ^ 64 - 1) := by
  refine ⟨.created (.tmpfs .regular _),fun h => ?_⟩
  have hin := Window.inside_iff.mp (h _ _ (growWindow_grown (by decide) (by decide) (Option.some_get
    (show (created.growPast (uadd (2 ^ 64 - 1) 2)).isSome from by decide)).symm))
  revert hin
  decide

end Storage

end SabaOS.Fs
