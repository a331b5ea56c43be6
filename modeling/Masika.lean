import Masika.Core.Runs
import Masika.Arch.Paging.Entry
import Masika.Arch.Paging.Fields
import Masika.Core.RadixForest
import Masika.Arch.Paging.Hardware
import Masika.Arch.Paging.Tables
import Masika.Arch.Paging.Refinement
import Masika.Arch.Paging.Agreement
import Masika.Arch.Paging.Clone
import Masika.Core.Strides
import Masika.Arch.Paging.Ranges
import Masika.Core.Usize
import Masika.Memory.Virtual.Manager
import Masika.Memory.Virtual.Rights
import Masika.Memory.Virtual.Operations
import Masika.Memory.Virtual.Refinement
import Masika.Memory.Virtual.StaleFrames
import Masika.Memory.Virtual.OldData
import Masika.Memory.Virtual.LostFrames
import Masika.Memory.Virtual.Clone
import Masika.Memory.Virtual.CopyOnWrite
import Masika.Memory.Virtual.Rounds
import Masika.Memory.Virtual.Demand
import Masika.Memory.Virtual.Placement
import Masika.Memory.Virtual.Unmapping
import Masika.Memory.Virtual.Rollback
import Masika.Memory.Virtual.PageCount
import Masika.Memory.Virtual.AccessCheck
import Masika.Core.Extents
import Masika.Memory.Physical.Manager
import Masika.Core.Loops
import Masika.Memory.Physical.Allocation
import Masika.Memory.Physical.Search
import Masika.Core.MaximalRuns
import Masika.Memory.Physical.Fragmentation
import Masika.Memory.Physical.Ranges
import Masika.Memory.Physical.Requests
import Masika.Memory.Physical.Fullness
import Masika.Memory.Physical.Ownership
import Masika.Core.Progress
import Masika.Core.Threads
import Masika.Memory.Physical.Races
import Masika.Memory.Physical.Accounting
import Masika.Memory.Physical.Reservations
import Masika.Memory.Physical.Regions
import Masika.Core.Bytes
import Masika.Core.Chains
import Masika.Memory.Heap.Manager
import Masika.Memory.Heap.Links
import Masika.Memory.Heap.FreeLists
import Masika.Memory.Heap.Partition
import Masika.Memory.Heap.BestFit
import Masika.Memory.Heap.Answers
import Masika.Memory.Heap.Reserved
import Masika.Memory.Heap.Headers
import Masika.Memory.Heap.Conservation
import Masika.Core.Accesses
import Masika.Core.Blocks
import Masika.Syscall.PhysicalPages
import Masika.Syscall.Exhaustion
import Masika.Syscall.BumpPages
import Masika.Syscall.BumpRaces
import Masika.Syscall.Brk
import Masika.Syscall.Heap
import Masika.Syscall.Mmap
import Masika.Syscall.Coverage
import Masika.Syscall.UserCopy
import Masika.Syscall.TypedCopy
import Masika.Syscall.PageCopy
import Masika.Syscall.Strings
import Masika.Syscall.Racing
import Masika.Memory.Virtual.UserSpace
import Masika.Memory.Virtual.StringCopy
import Masika.Syscall.Core
import Masika.Syscall.Extra
import Masika.Core.Overflow
import Masika.Process.ControlBlock
import Masika.Process.Signals
import Masika.Process.Names
import Masika.Timer.Clock
import Masika.Syscall.Nanosleep
import Masika.Core.Calendar
import Masika.Timer.Date
import Masika.Scheduler.Tasks
import Masika.Scheduler.Queue
import Masika.Scheduler.Reached
import Masika.Scheduler.Priority
import Masika.Scheduler.Dispatch
import Masika.Core.Orbits
import Masika.Scheduler.RoundRobin
import Masika.Scheduler.Ids
import Masika.Scheduler.Sleep
import Masika.Sync.Spinlock
import Masika.Sync.WeakGuard
import Masika.Sync.RawSpinlock
import Masika.Sync.IrqSafe
import Masika.Irq.Handler
import Masika.Irq.Flags
import Masika.Irq.IoApic
import Masika.Core.BitFields
import Masika.Irq.Routing
import Masika.Console
import Masika.Console.Screen
import Masika.Console.Buffer
import Masika.Console.Numbers
import Masika.Core.WordMemory
import Masika.Arch.Machine
import Masika.Arch.EntryCode
import Masika.Arch.Routines
import Masika.Arch.Segments
import Masika.Arch.Idt
