import Codrive.Basis.Run
import Codrive.Basis.Tiling
import Codrive.Basis.OrderedMap
import Codrive.Basis.Machine
import Codrive.Device.Allocator
import Codrive.Device.FreeList
import Codrive.Device.AllocatorSpec
import Codrive.Device.AllocatorInv
import Codrive.Device.AllocatorRuns
import Codrive.Heap.SimpleHeap
import Codrive.Heap.SimpleHeapInv
import Codrive.Heap.SimpleHeapAlloc
import Codrive.Heap.SimpleHeapFree
import Codrive.Heap.SimpleHeapDiscard
import Codrive.Heap.SimpleHeapRuns
import Codrive.Basis.Records
import Codrive.Dqm.Manager
import Codrive.Dqm.Counters
import Codrive.Dqm.Runs
import Codrive.Svm.Range
import Codrive.Svm.SetAttr
import Codrive.Basis.Segments
import Codrive.Svm.RangeSpec
import Codrive.Svm.OverlapSpec
import Codrive.Svm.Transaction
import Codrive.Svm.CarriedOut
import Codrive.Svm.ChangeRuns
import Codrive.Basis.Bitmap
import Codrive.Gtt.SubAllocator
import Codrive.Gtt.SubAllocatorRuns
import Codrive.Sync.Deps
import Codrive.Sync.DepsRuns
import Codrive.Basis.Slots
import Codrive.Irq.Sources
import Codrive.Irq.SourcesRuns
import Codrive.Vm.BoMap
import Codrive.Vm.BoMapRuns
import Codrive.Basis.ComparatorMap
import Codrive.Device.MemObjPool
import Codrive.Basis.Bytes
import Codrive.Device.MemObjPoolRuns
import Codrive.Loader.Executable
import Codrive.Loader.LoadFailure
import Codrive.Loader.Relocations
import Codrive.Csq.AsyncOps
import Codrive.Csq.AsyncOpsRuns
import Codrive.Csq.RocrQueues
import Codrive.Csq.RocrQueuesRuns
import Codrive.Basis.Seniority
import Codrive.Csq.Rings
import Codrive.Csq.RingsInv
import Codrive.Csq.RingsCalls
import Codrive.Csq.RingsRuns
import Codrive.Csq.Order
import Codrive.Csq.OrderRuns
import Codrive.Vm.SplitMapping
import Codrive.Basis.Radix
import Codrive.Vm.UpdatePtes
import Codrive.Vm.Flush
import Codrive.Vm.FlushRuns
import Codrive.Basis.Pool
import Codrive.Dqm.Resources
import Codrive.Dqm.ResourceSteps
import Codrive.Dqm.Life
import Codrive.Dqm.ResourceRuns
import Codrive.Dqm.TerminationRuns
import Codrive.Dqm.Evictions
import Codrive.Dqm.EvictionRuns
import Codrive.Dqm.ProcessEvictions
import Codrive.Doorbell.Slices
import Codrive.Events.Process
import Codrive.Events.Slots
import Codrive.Events.Interrupts
import Codrive.Events.Waits
import Codrive.Events.WaitsRuns
import Codrive.Pqm.Manager
import Codrive.Dqm.Lists
import Codrive.Pqm.Devices
import Codrive.Pqm.Runs
import Codrive.Svm.Splits
import Codrive.Svm.Accounts
import Codrive.Svm.Rollback
import Codrive.Svm.AccountRuns
import Codrive.Mapping.MappingRuns
import Codrive.Aperture.AreaSpec
import Codrive.Aperture.Objects
import Codrive.Aperture.Sharing
import Codrive.Aperture.SharingSpec
import Codrive.Registration.Memory
import Codrive.Registration.MemoryRuns
import Codrive.Memobj.Allocation
import Codrive.Memobj.AllocationSpec
import Codrive.Memobj.AllocationRuns
import Codrive.Dma.Chunks
import Codrive.Dma.ChunksRuns
import Codrive.Basis.Dfs
import Codrive.Vm.PageTables
import Codrive.Vm.PageTablesInv
import Codrive.Vm.PageTablesRuns
import Codrive.Vm.PageTablesFree
import Codrive.Basis.SwapRemove
import Codrive.Runtime.Memory
import Codrive.Runtime.MemorySpec
import Codrive.Runtime.MemoryRuns
import Codrive.Runtime.Ipc
import Codrive.Runtime.IpcRuns
import Codrive.Runtime.References
import Codrive.Loader.Descriptors
import Codrive.Loader.HostAddress
import Codrive.Basis.CursorPool
import Codrive.Csq.Pools
import Codrive.Loader.Bundles
import Codrive.Csq.PoolsRuns
import Codrive.Csq.Pointers
import Codrive.Csq.PointersRuns
import Codrive.Dma.BlitCpDma
import Codrive.Dma.BlitCpDmaRuns
import Codrive.Aperture.SvmApertures
import Codrive.Aperture.SvmAperturesSpec
import Codrive.Aperture.SvmLayout
import Codrive.Basis.PageTree
import Codrive.Emu.ProcessVM
import Codrive.Emu.ProcessVMSpec
import Codrive.Emu.ProcessVMRuns
import Codrive.Device.AllocatorFit
import Codrive.Device.AllocatorFree
import Codrive.Aperture.MmapAreas
import Codrive.Aperture.ReservedAreas
import Codrive.Svm.FaultRange
import Codrive.Runtime.FillMemory
import Codrive.Basis.Words
import Codrive.Options.Parser
import Codrive.Options.Groups
import Codrive.Options.ParserSpec
import Codrive.Basis.AsyncCopy
import Codrive.UnpinnedCopy.Engine
import Codrive.UnpinnedCopy.Pipeline
import Codrive.UnpinnedCopy.StagingRuns
import Codrive.UnpinnedCopy.StagingSpec
import Codrive.UnpinnedCopy.Methods
import Codrive.Basis.Ledger
import Codrive.QueueMgr.QueueSpec
import Codrive.QueueMgr.QueueRuns
import Codrive.Vm.Cursor
import Codrive.Vm.UpdateTable
import Codrive.Vm.UpdateWalk
import Codrive.Vm.UpdateRange
import Codrive.Basis.Circular
import Codrive.Kq.Ring
import Codrive.Kq.RingRuns
import Codrive.Basis.DfsChain
import Codrive.Vm.Geometry
import Codrive.Vm.DfsWalk
import Codrive.Vm.DfsWalkSpec
import Codrive.Vm.GeometryPages
import Codrive.Vm.SharedPages
import Codrive.Basis.InPlace
import Codrive.Strings.Alnum
import Codrive.Basis.Pieces
import Codrive.Strings.Spaces
import Codrive.Strings.SpacesSpec
import Codrive.Strings.ToInt
import Codrive.Strings.Numbers
import Codrive.Strings.ToIntSpec
import Codrive.Objects.Pool
import Codrive.Objects.PoolInv
import Codrive.Objects.PoolRuns
import Codrive.Basis.Blocks
import Codrive.Vm.DevPageTable
import Codrive.Vm.DevPageTableSpec
import Codrive.Basis.Partition
import Codrive.Svm.Granularity
import Codrive.Basis.StructLayout
import Codrive.Csq.KernelArgs
import Codrive.Basis.EarlyExit
import Codrive.Basis.Extents
import Codrive.Svm.Migrate
import Codrive.Svm.MigrateToVram
import Codrive.Svm.MigrateToRam
import Codrive.Svm.MigrateBoth
import Codrive.Svm.Unmap
import Codrive.Svm.UnmapSpec
import Codrive.Svm.UnmapRuns
import Codrive.Svm.UnmapWork
