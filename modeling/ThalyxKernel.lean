import ThalyxKernel.Work.Finality
import ThalyxKernel.Kernel.Handoff.Result
import ThalyxKernel.Kernel.Window.Result
import ThalyxKernel.Kernel.Sharing.Result
import ThalyxKernel.Kernel.Provided
import ThalyxKernel.Kernel.Memory.Ram
import ThalyxKernel.Kernel.Change.Tree
import ThalyxKernel.Store.Resolution
import ThalyxKernel.Format.Record
import ThalyxKernel.Native.LifeCycle
import ThalyxKernel.Native.Heap.Requests
import ThalyxKernel.Kernel.Table
import ThalyxKernel.Kernel.Fencing
import ThalyxKernel.Kernel.Receipts
import ThalyxKernel.Kernel.Firmware
import ThalyxKernel.Kernel.Assign
import ThalyxKernel.Kernel.Supply
import ThalyxKernel.Kernel.Ended
import ThalyxKernel.Kernel.Wakes
import ThalyxKernel.Kernel.Closure
import ThalyxKernel.Store.Workspaces
import ThalyxKernel.Work.Changes
import ThalyxKernel.Store.Checkpointing
import ThalyxKernel.Store.Admission
import ThalyxKernel.Disk.Answers
import ThalyxKernel.Native.Locks.Result
import ThalyxKernel.Boot.Package
import ThalyxKernel.Kernel.Elf
import ThalyxKernel.Kernel.Ecam
import ThalyxKernel.Work.Finish
import ThalyxKernel.Kernel.Ucopy
import ThalyxKernel.Disk.Reordering
import ThalyxKernel.Work.Judging
import ThalyxKernel.Kernel.BrLock
import ThalyxKernel.Native.Cxxrt
import ThalyxKernel.Store.Staging
import ThalyxKernel.Store.Durability
import ThalyxKernel.Kernel.Change.Onward
import ThalyxKernel.Store.Reading
import ThalyxKernel.Native.Sorting
