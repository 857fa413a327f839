import DreamAifd.FirstMin
import DreamAifd.Averages
import DreamAifd.Segments
import DreamAifd.Trace
import DreamAifd.Dict
import DreamAifd.Gather
import DreamAifd.Softmax
import DreamAifd.AifdState
import DreamAifd.AttnHook
import DreamAifd.SelectLayers
import DreamAifd.Assignment
import DreamAifd.NoteLayer
import DreamAifd.Forward
import DreamAifd.Emission
import DreamAifd.Channel
import DreamAifd.History
import DreamAifd.ScriptedForward
import DreamAifd.ChannelContract
import DreamAifd.ForwardIsolation
import DreamAifd.Criterion
import DreamAifd.OfflineProbe
import DreamAifd.TensorParallel
import DreamAifd.PipelineStages
import DreamAifd.AnchoredBlocks
import DreamAifd.AscendMetadata
import DreamAifd.TndAttention
import DreamAifd.PackedBatch
import DreamAifd.CausalBatch
import DreamAifd.BatchIndependence
import DreamAifd.HiddenStateCache
import DreamAifd.PromptSplit
import DreamAifd.Windows
import DreamAifd.Checkpoint
import DreamAifd.TrainEpoch
import DreamAifd.GradAccumulation
import DreamAifd.Resume
import DreamAifd.TttMasks
import DreamAifd.Collate
import DreamAifd.Supervision
import DreamAifd.MaskedLayers
import DreamAifd.BlockDrafting
import DreamAifd.ArrowDataset
import DreamAifd.LaunchChannels
import DreamAifd.OutputValidation
import DreamAifd.Machine
import DreamAifd.OfflineGeneration
import DreamAifd.GenerationInvariant
import DreamAifd.GenerationProgress
import DreamAifd.GenerationSchedule
import DreamAifd.HookEntropy
import DreamAifd.SelectionGather
import DreamAifd.CollateAlignment
import DreamAifd.CacheRoundTrip
import DreamAifd.BinPacking
import DreamAifd.Multipack
import DreamAifd.CountedMetrics
import DreamAifd.SlotMetrics
import DreamAifd.LineFile
import DreamAifd.Regeneration
import DreamAifd.FloatOrder
import DreamAifd.BestCheckpoint
import DreamAifd.ConnectorScheduler
import DreamAifd.ConnectorSteps
import DreamAifd.LockFiles
import DreamAifd.LockHandoff
import DreamAifd.Precedence
import DreamAifd.HiddenStatesWorker
import DreamAifd.HiddenStatesQueue
import DreamAifd.HiddenStatesHandoff
import DreamAifd.Bisect
import DreamAifd.LossSpans
import DreamAifd.VocabMapping
import DreamAifd.Draws
import DreamAifd.AnchorSelection
import DreamAifd.CodSampling
import DreamAifd.ConditionalAccuracy
import DreamAifd.Significand
import DreamAifd.OptimizerCheckpoint
import DreamAifd.OnlineSoftmax
import DreamAifd.Losses
import DreamAifd.DpaceWeights
import DreamAifd.AttendedRows
import DreamAifd.DummyRuns
import DreamAifd.Blocks
import DreamAifd.TvGradient
import DreamAifd.FusedTvLoss
import DreamAifd.Chunks
import DreamAifd.WorkSplit
import DreamAifd.LayoutRecovery
import DreamAifd.FirstMatch
import DreamAifd.VerifierLookup
import DreamAifd.AppendOnly
import DreamAifd.ToolCallLoop
import DreamAifd.RegenerateConversation
import DreamAifd.DoublyLinked
import DreamAifd.FreeBlockQueue
import DreamAifd.HashChain
import DreamAifd.BlockHashes
import DreamAifd.BlockPool
import DreamAifd.PoolIndex
import DreamAifd.PoolCounts
import DreamAifd.PoolRuns
import DreamAifd.CacheHits
import DreamAifd.HybridHits
import DreamAifd.KvCacheManager
import DreamAifd.TableLedger
import DreamAifd.TableSteps
import DreamAifd.CoordinatorSteps
import DreamAifd.SlotAllocation
import DreamAifd.ManagerRuns
import DreamAifd.ComputedBlocks
import DreamAifd.SpecDecodeMetadata
import DreamAifd.RejectionSampler
import DreamAifd.MinTokens
import DreamAifd.GreedyDecoding
import DreamAifd.SpeculativeRuns
import DreamAifd.Borders
import DreamAifd.NgramProposer
