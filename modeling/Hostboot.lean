import Hostboot.Lib.Run
import Hostboot.Lib.Buckets
import Hostboot.PageMgr.Core
import Hostboot.PageMgr.Pages
import Hostboot.PageMgr.Partition
import Hostboot.HeapMgr.Core
import Hostboot.Lib.Tiling
import Hostboot.HeapMgr.Chunks
import Hostboot.HeapMgr.Alloc
import Hostboot.HeapMgr.Coalesce
import Hostboot.HeapMgr.SmallHeap
import Hostboot.PtMgr.Core
import Hostboot.PtMgr.Lookup
import Hostboot.PtMgr.Translations
import Hostboot.Vmm.Block
import Hostboot.Vmm.Pages
import Hostboot.Lib.Lists
import Hostboot.Vmm.Messages
import Hostboot.Vmm.Ownership
import Hostboot.Vmm.WriteBack
import Hostboot.Vmm.Deferred
import Hostboot.Msg.Syscalls
import Hostboot.Msg.Objects
import Hostboot.Msg.Delivery
import Hostboot.Msg.Synchronous
import Hostboot.Sync.Futex
import Hostboot.Sync.LockWord
import Hostboot.Sync.Mutex
import Hostboot.Sync.RecursiveMutex
import Hostboot.Sync.Condition
import Hostboot.Sync.Signal
import Hostboot.Sync.Barrier
import Hostboot.TaskMgr.Core
import Hostboot.TaskMgr.Tree
import Hostboot.TaskMgr.Join
import Hostboot.TaskMgr.Tids
import Hostboot.TaskMgr.Forest
import Hostboot.Lib.Tally
import Hostboot.Trace.ClaimEntry
import Hostboot.Trace.CounterLock
import Hostboot.Vmm.DeviceEntries
import Hostboot.Lib.Atomic
import Hostboot.PageMgr.Manager
import Hostboot.Util.LockfreeStack
import Hostboot.Msg.Timeout
import Hostboot.HeapMgr.Steps
import Hostboot.HeapMgr.Preempt
import Hostboot.Lib.Wire
import Hostboot.Prdf.Expr
import Hostboot.Prdf.LoadChip
import Hostboot.Prdf.RoundTrip
import Hostboot.Prdf.FileRoundTrip
import Hostboot.Prdf.BitString
import Hostboot.Prdf.FlyWeight
import Hostboot.Lib.RingBuffer
import Hostboot.Trace.RsvdBuffer
import Hostboot.Lib.Parity
import Hostboot.Pnor.Ecc
import Hostboot.Lib.Marshal
import Hostboot.Pnor.Ffs
import Hostboot.Trusted.Events
import Hostboot.Trusted.LogMgr
import Hostboot.Prdf.Interning
import Hostboot.Hwas.FieldCoreOverride
import Hostboot.Hwas.GardRecords
import Hostboot.Hwas.GardFlush
import Hostboot.Hwas.GardInvariant
import Hostboot.Hwas.PresentByAssoc
import Hostboot.Hwas.PresentClosure
import Hostboot.Vmm.Permissions
import Hostboot.PtMgr.VirtAddr
import Hostboot.HeapMgr.Maximal
import Hostboot.PageMgr.Aligned
import Hostboot.PageMgr.Buddies
import Hostboot.Tce.UtilTceMgr
import Hostboot.Tce.Ownership
import Hostboot.NodeComm.Transfer
import Hostboot.NodeComm.Agreement
import Hostboot.Errl.PnorSlots
import Hostboot.Errl.SlotStore
import Hostboot.Errl.StoredLogs
import Hostboot.Errl.UniqueErrId
import Hostboot.Util.ThreadPool
import Hostboot.Util.HandOut
import Hostboot.Errl.Sections
import Hostboot.Errl.FruCallouts
import Hostboot.Errl.Src
import Hostboot.Errl.DuplicateTraces
import Hostboot.Errl.Flatten
import Hostboot.Lib.LinkedTree
import Hostboot.Lib.WeakOrder
import Hostboot.Util.SplayTree
import Hostboot.Util.SplayErase
import Hostboot.Util.SplaySearch
import Hostboot.Lib.OrderedMap
import Hostboot.Util.StlMap
import Hostboot.Util.MapBounds
import Hostboot.Util.MapIterators
import Hostboot.Util.SplayClosed
import Hostboot.Util.MapCopy
import Hostboot.Lib.Bisect
import Hostboot.Util.BinarySearch
import Hostboot.Util.QsortRange
import Hostboot.Lib.LinkedRing
import Hostboot.Util.StlList
import Hostboot.Libc.Memmove
import Hostboot.Libc.Strncmp
import Hostboot.Prdf.Threshold
import Hostboot.TimeMgr.Core
import Hostboot.Msg.Remaining
import Hostboot.Prdf.CaptureData
import Hostboot.Lib.LinkedQueue
import Hostboot.Lib.StableOrder
import Hostboot.Util.LockedPQueue
import Hostboot.TimeMgr.Delay
import Hostboot.Lib.WordMemory
import Hostboot.Prdf.BitFields
import Hostboot.Prdf.BitOperators
import Hostboot.Prdf.BitKey
import Hostboot.Prdf.BitKeySets
import Hostboot.Libc.Sprintf
import Hostboot.Libc.IsoPrintf
import Hostboot.Libc.PrintfParse
import Hostboot.Libc.PrintfOutput
import Hostboot.Libc.PrintfIso
import Hostboot.Libc.Stdio
import Hostboot.Trusted.AppendErrors
import Hostboot.Trusted.Responses
import Hostboot.Trusted.ResponseSafety
import Hostboot.Lib.Postfix
import Hostboot.Targeting.PostfixExpr
import Hostboot.Util.UtilMem
import Hostboot.Tce.FirstFit
import Hostboot.Prdf.ThresholdResolutions
import Hostboot.Lib.Fields
import Hostboot.Secureboot.ContainerHeader
import Hostboot.Secureboot.HeaderValidity
import Hostboot.Hwas.GardCompleteness
import Hostboot.Lib.Loop
import Hostboot.Vpd.IpVpd
import Hostboot.Vpd.KeywordWalk
import Hostboot.Vpd.RecordLookup
import Hostboot.Hwas.CorePlacement
import Hostboot.Hwas.PartialGood
import Hostboot.PtMgr.Eviction
import Hostboot.Errl.OpenSlot
import Hostboot.HeapMgr.BucketSearch
import Hostboot.Libc.NumberBuffer
import Hostboot.Errl.CalloutList
import Hostboot.Errl.TargetCallouts
import Hostboot.NodeComm.Receive
import Hostboot.Lib.FixedReader
import Hostboot.Errl.UnflattenBounds
import Hostboot.Targeting.AttributeTank
import Hostboot.Targeting.TankChunks
