import Interprocess.Base.Transition
import Interprocess.Allocators.CacheImpl.Conservation
import Interprocess.Detail.OpenOrCreate.Publication
import Interprocess.Detail.RobustSpinMutex.Recovery
import Interprocess.MemAlgo.SimpleSeqFit.ResizingRuns
import Interprocess.OffsetPtr.RawAgreement
import Interprocess.OffsetPtr.PointerPlusBits
import Interprocess.SegmentManager.Refinement
import Interprocess.SegmentManager.ArrayConstruction
import Interprocess.MemAlgo.RbtreeBestFit.Allocate
import Interprocess.MemAlgo.RbtreeBestFit.CheckAndAllocate
import Interprocess.MemAlgo.RbtreeBestFit.Deallocate
import Interprocess.MemAlgo.RbtreeBestFit.BackwardsMultiples
import Interprocess.ManagedMemory.Resizing
import Interprocess.MappedRegion.Runs
import Interprocess.Ipc.MessageQueue.WrappedSizes
import Interprocess.Ipc.MessageQueue.NoStrandedWaiter
import Interprocess.TimedUtils
import Interprocess.Sync.ConditionAlgorithm8a.Signals
import Interprocess.Sync.ConditionAny.NoLostWakeup
import Interprocess.Sync.LockGuards.Soundness
import Interprocess.Sync.SharableMutex.Safety
import Interprocess.Sync.SpinCondition.Notifications
import Interprocess.Sync.SyncHandles.Runs
import Interprocess.Sync.UpgradableMutex.Ownership
import Interprocess.Sync.UpgradableMutex.NoStrandedWaiter
import Interprocess.SmartPtr.ReferenceCounting
import Interprocess.Streams.BufferRefinement
import Interprocess.Streams.VectorReserve
import Interprocess.Detail.IntermoduleSingleton.Initialization
import Interprocess.SegmentManager.Construction.RollBack
import Interprocess.MemAlgo.RbtreeBestFit.Aligning
import Interprocess.MemAlgo.RbtreeBestFit.Backwards
import Interprocess.MemAlgo.RbtreeBestFit.BothSides
import Interprocess.MemAlgo.RbtreeBestFit.Shrinking
import Interprocess.MemAlgo.RbtreeBestFit.Contracts
import Interprocess.Sync.SpinRecursiveMutex
import Interprocess.MemAlgo.SimpleSeqFit.Accounting
