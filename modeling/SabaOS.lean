import SabaOS.Mem.Backing
import SabaOS.Mem.ProtectRun
import SabaOS.Mem.AccessMemory
import SabaOS.Mem.Mirror
import SabaOS.Mem.Placement
import SabaOS.Mem.Reach
import SabaOS.Mem.Mprotect
import SabaOS.Mem.MmapFixed
import SabaOS.Mem.ForkFidelity
import SabaOS.Mem.Insertion
import SabaOS.Mem.BumpHeap
import SabaOS.Mem.PmmAbsorb
import SabaOS.Mem.PmmSearch
import SabaOS.Mem.DmaMap
import SabaOS.Mem.VmemRun
import SabaOS.Sched.Isolation
import SabaOS.Sched.Changes
import SabaOS.Sched.Timers
import SabaOS.Fs.TmpfsRun
import SabaOS.Fs.Vectored
import SabaOS.Userland.MemFd
import SabaOS.Userland.SeqpacketRun
import SabaOS.Userland.DatagramRun
import SabaOS.Fs.MissingParent
import SabaOS.Fs.Slashes
import SabaOS.Fs.Renamed
import SabaOS.Dev.UsedRing
import SabaOS.Dev.BlockWrite
import SabaOS.Dev.BlockCall
import SabaOS.Drm.Registry
import SabaOS.Drm.HandleRun
import SabaOS.Drm.DumbMemory
import SabaOS.Sched.PollRun
import SabaOS.Sched.AltRun
import SabaOS.Userland.EventFd
import SabaOS.Klib.Async
import SabaOS.Klib.RingQueue
import SabaOS.Klib.HashLinks
import SabaOS.Klib.Qsort
import SabaOS.Klib.VprintfIntegers
import SabaOS.Sched.InitialStack
import SabaOS.Sched.ExecAtomic
import SabaOS.Lib.Ring
import SabaOS.Sched.Registry
import SabaOS.Sched.RegistryRun
import SabaOS.Net.Fragments
import SabaOS.Net.UdpPorts
import SabaOS.Fs.ProcfsRun
import SabaOS.Userland.PollAgrees
import SabaOS.Userland.PipeFifo
import SabaOS.Userland.EpollInterest
import SabaOS.Userland.EpollEdges
import SabaOS.Userland.EpollLife
import SabaOS.Userland.ElfRobust
import SabaOS.Userland.Cred
import SabaOS.Net.UdpReceive
import SabaOS.Dev.IoService
import SabaOS.Net.Arp
import SabaOS.Dev.Pty
import SabaOS.Gfx.TerminalBounds
import SabaOS.Dev.HidKeyboard
import SabaOS.Dev.HidReads
import SabaOS.Dev.HidTotal
import SabaOS.Dev.UsbConfig
import SabaOS.Dev.XhciTraffic
import SabaOS.Dev.Input
import SabaOS.Dev.XhciPorts
import SabaOS.Fs.LowestDescriptor
import SabaOS.Fs.OffsetBounds
import SabaOS.Fs.Readdir
import SabaOS.Sched.Shebang
import SabaOS.Fs.Expansion
import SabaOS.Fs.Lifetime
import SabaOS.Klib.TimeSpec
import SabaOS.Sched.FutexOp
import SabaOS.Sched.ProcessRun
import SabaOS.Fs.Initramfs
import SabaOS.Fs.InitramfsTree
import SabaOS.Fs.InitramfsLoad
import SabaOS.Sched.SignalFd
