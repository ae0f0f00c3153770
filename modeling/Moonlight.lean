import Moonlight.Capability.CNode
import Moonlight.Capability.Cap
import Moonlight.Capability.Mdb
import Moonlight.Capability.MdbAccounting
import Moonlight.Capability.MdbFlat
import Moonlight.Capability.MdbForest
import Moonlight.Capability.Slots
import Moonlight.Ipc.Conservation
import Moonlight.Ipc.Endpoint
import Moonlight.Ipc.Tcb
import Moonlight.Kernel.Paging
import Moonlight.Kernel.Terminal
import Moonlight.Kernel.Types
import Moonlight.Kernel.Vga
import Moonlight.Lib.Bytes
import Moonlight.Lib.CString
import Moonlight.Lib.Fuel
import Moonlight.Lib.Mmu
import Moonlight.Lib.Noninterference
import Moonlight.Lib.Radix
import Moonlight.Lib.Ring
import Moonlight.Lib.Riscv
import Moonlight.Lib.Run
import Moonlight.Lib.Simulation
import Moonlight.Lib.Sum
import Moonlight.Lib.Threaded
import Moonlight.Lib.Word
import Moonlight.Loader.Elf
import Moonlight.Memory.Alloc
import Moonlight.Memory.Coloring
import Moonlight.Memory.DeviceIsolation
import Moonlight.Memory.DmaAuthority
import Moonlight.Memory.FrameRanges
import Moonlight.Memory.InstalledColors
import Moonlight.Memory.Iommu
import Moonlight.Memory.PageLoops
import Moonlight.Memory.PageMap
import Moonlight.Memory.PagePool
import Moonlight.Memory.PageTable
import Moonlight.Memory.PageTableFrames
import Moonlight.Memory.PartialMap
import Moonlight.Memory.Remap
import Moonlight.Memory.SpaceIsolation
import Moonlight.Memory.Sv39
import Moonlight.Memory.Switch
import Moonlight.Memory.TableDemand
import Moonlight.Memory.VSpace
import Moonlight.Process.Admission
import Moonlight.Process.Agreement
import Moonlight.Process.Bookkeeping
import Moonlight.Process.Calls
import Moonlight.Process.Create
import Moonlight.Process.Destroy
import Moonlight.Process.Isolation
import Moonlight.Process.Lifecycle
import Moonlight.Process.Ownership
import Moonlight.Process.QueueRefinement
import Moonlight.Process.Rejection
import Moonlight.Process.Silence
import Moonlight.Process.Traces
import Moonlight.Sched.CyclicExecutive
import Moonlight.Sched.ExactUtilisation
import Moonlight.Sched.Replenish
import Moonlight.Sched.State
import Moonlight.Sched.Tick
import Moonlight.Sched.Utilisation
import Moonlight.Sched.Windows
import Moonlight.Syscall.Atomicity
import Moonlight.Syscall.Authority
import Moonlight.Syscall.Blocking
import Moonlight.Syscall.Boot
import Moonlight.Syscall.Bounds
import Moonlight.Syscall.Confinement
import Moonlight.Syscall.Domains
import Moonlight.Syscall.FrameMap
import Moonlight.Syscall.Handler
import Moonlight.Syscall.Ipc
import Moonlight.Syscall.Kernel
import Moonlight.Syscall.Lineage
import Moonlight.Syscall.Mediation
import Moonlight.Syscall.Result
import Moonlight.Syscall.Retype
import Moonlight.Syscall.Revocation
import Moonlight.Syscall.Sealing
import Moonlight.Syscall.Transfer
import Moonlight.Syscall.Transitions
import Moonlight.System.Budgets
import Moonlight.System.Exhaustion
import Moonlight.System.Machine
import Moonlight.System.Provenance
import Moonlight.System.Step
import Moonlight.Trap.Cause
import Moonlight.Trap.Entry
import Moonlight.Trap.Irq
import Moonlight.Trap.Start
import Moonlight.Userspace.MemProgress
import Moonlight.Userspace.MemServer
import Moonlight.Userspace.SchedRequests
import Moonlight.Userspace.SchedServer
import Moonlight.Userspace.VfsLoop
import Moonlight.Userspace.VfsServer
import Moonlight.Userspace.VirtioNet
