import NvmeVirt.ConvCapacity
import NvmeVirt.IndexChain
import NvmeVirt.IoWorkers
import NvmeVirt.IoTable
import NvmeVirt.IoDispatch
import NvmeVirt.IoDelivery
import NvmeVirt.RangeTiling
import NvmeVirt.ZonedFtl
import NvmeVirt.ZonedAccounting
import NvmeVirt.ZonedRuns
import NvmeVirt.ByteMemory
import NvmeVirt.PrpTransfer
import NvmeVirt.ZonedRejections
import NvmeVirt.ConvBuffer
import NvmeVirt.IoExecution
import NvmeVirt.AdminQueues
import NvmeVirt.PhaseRing
import NvmeVirt.CompletionPhase
import NvmeVirt.CompletionOverrun
import NvmeVirt.QueueDeletion
import NvmeVirt.SubmissionRing
import NvmeVirt.DispatchOrder
import NvmeVirt.SlotRelease
import NvmeVirt.CoalescedChains
import NvmeVirt.KeyValueFtl
import NvmeVirt.KeyValueChains
import NvmeVirt.KeyValueSteps
import NvmeVirt.KeyValueDeletion
import NvmeVirt.MappingBytes
import NvmeVirt.KeyValueExtents
import NvmeVirt.HostBuffer
import NvmeVirt.KeyValueMap
import NvmeVirt.KeyValueRefinement
import NvmeVirt.ChannelModel
import NvmeVirt.ChannelTimeline
import NvmeVirt.NandTiming
import NvmeVirt.NandOrdering
import NvmeVirt.IoUnits
import NvmeVirt.DmaTransfer
import NvmeVirt.ZrwaReachability
import NvmeVirt.ZrwaResources
import NvmeVirt.LocalSteps
import NvmeVirt.ZoneMachine
import NvmeVirt.ZonedCommutation
import NvmeVirt.ConvAdmission
import NvmeVirt.ConvProgress
import NvmeVirt.HeapOrder
import NvmeVirt.ConvVictims
import NvmeVirt.ConvTransparency
import NvmeVirt.ConvReads
import NvmeVirt.DescriptorSteps
import NvmeVirt.PrpAddressing
import NvmeVirt.ZoneAddressing
import NvmeVirt.ZoneWrites
import NvmeVirt.ZoneFill
import NvmeVirt.ZoneBuffers
import NvmeVirt.ZoneResets
import NvmeVirt.ZoneReport
import NvmeVirt.AdminRegisters
import NvmeVirt.AdminRestart
import NvmeVirt.KeyValueCapacity
import NvmeVirt.KeyValueKeys
import NvmeVirt.BatchedStores
import NvmeVirt.BatchParser
import NvmeVirt.KeyValueIterators
import NvmeVirt.IteratorHandles
import NvmeVirt.IteratorReads
import NvmeVirt.BitmapAllocator
import NvmeVirt.ChannelCredits
import NvmeVirt.ChannelLatency
import NvmeVirt.CompletionDoorbell
import NvmeVirt.QueueOrder
import NvmeVirt.PageNumbering
import NvmeVirt.WritePointerSweep
import NvmeVirt.ZoneStriping
import NvmeVirt.SequentialBlocks
import NvmeVirt.NandDiscipline
import NvmeVirt.NandTraffic
import NvmeVirt.MaskedBytes
import NvmeVirt.PciConfig
import NvmeVirt.ReadyFlag
import NvmeVirt.InterruptScan
import NvmeVirt.HeapRefinement
import NvmeVirt.DataPath
import NvmeVirt.RunProjection
import NvmeVirt.CommandLog
import NvmeVirt.CommandTiming
import NvmeVirt.CommandCompletion
import NvmeVirt.RingFifo
import NvmeVirt.InFlight
import NvmeVirt.AdminDialogue
