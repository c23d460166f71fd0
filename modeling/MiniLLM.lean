import MiniLLM.Machine
import MiniLLM.Loops
import MiniLLM.Status
import MiniLLM.PagedKVCache
import MiniLLM.BlockOwnership
import MiniLLM.Strides
import MiniLLM.PagedRows
import MiniLLM.RowRefinement
import MiniLLM.ReadAfterWrite
import MiniLLM.CheckedReader
import MiniLLM.ContinuousBatchScheduler
import MiniLLM.ParserSafety
import MiniLLM.QueuePhases
import MiniLLM.AdmissionControl
import MiniLLM.Reservations
import MiniLLM.SequenceLifecycle
import MiniLLM.Delivery
import MiniLLM.Softmax
import MiniLLM.CpuKernels
import MiniLLM.FlashAttention
import MiniLLM.Graph
import MiniLLM.Executor
import MiniLLM.KVCache
import MiniLLM.RuntimeContext
import MiniLLM.AttentionRows
import MiniLLM.IncrementalDecoding
import MiniLLM.PagedAttention
import MiniLLM.PagedRuns
import MiniLLM.AttentionAccess
import MiniLLM.AttentionGeometry
import MiniLLM.PagedGeometry
import MiniLLM.PagedStreams
import MiniLLM.PagedSessions
import MiniLLM.ByteReader
import MiniLLM.GgufFormat
import MiniLLM.GGUFParser
import MiniLLM.GgufGrammar
import MiniLLM.GgufRoundTrip
import MiniLLM.GgufTruncation
import MiniLLM.MeteredReader
import MiniLLM.ParserWork
import MiniLLM.GgufWeightLoader
import MiniLLM.TensorSizes
import MiniLLM.TensorData
import MiniLLM.WeightLoading
import MiniLLM.WeightRuns
import MiniLLM.Tenancy
import MiniLLM.TenancySteps
import MiniLLM.SequenceIsolation
import MiniLLM.SequenceCapacity
import MiniLLM.FailedCalls
import MiniLLM.LayerAppends
import MiniLLM.AttentionModes
import MiniLLM.BatchTables
import MiniLLM.SdpaAgreement
import MiniLLM.PagedAttentionScheduler
import MiniLLM.Kahn
import MiniLLM.TopologicalSort
import MiniLLM.GraphBuilder
import MiniLLM.ShapeInference
import MiniLLM.ReshapeSizes
import MiniLLM.TransformerGraphBuilder
import MiniLLM.ModelNames
import MiniLLM.GgufNames
import MiniLLM.NameCollisions
import MiniLLM.GraphTyping
import MiniLLM.TransformerShapes
import MiniLLM.MixedRadix
import MiniLLM.Transpose
import MiniLLM.Gemm
import MiniLLM.RopeBatches
import MiniLLM.DecodeAttention
import MiniLLM.KernelLaunch
import MiniLLM.CudaPagedDecode
import MiniLLM.BatchedDecode
import MiniLLM.IndexArithmetic
import MiniLLM.IntervalPartition
import MiniLLM.MemoryPlanner
import MiniLLM.PlannerMatching
import MiniLLM.PlannerRanges
import MiniLLM.ArenaLayout
import MiniLLM.PlanOutcome
import MiniLLM.PlanGuarantees
import MiniLLM.PairMerging
import MiniLLM.LinkedChain
import MiniLLM.BPETokenizer
import MiniLLM.TokenizerInit
import MiniLLM.BpeMerging
import MiniLLM.PreTokenize
import MiniLLM.Segmentation
import MiniLLM.EncodeSegments
import MiniLLM.ByteMapping
import MiniLLM.PatternWords
import MiniLLM.Recording
import MiniLLM.WatchedScanner
import MiniLLM.ScannerWalk
import MiniLLM.ScannerTouches
import MiniLLM.ScannerBounds
import MiniLLM.ClassifierDomain
import MiniLLM.Sampler
import MiniLLM.CandidateTokens
import MiniLLM.RepetitionPenalty
import MiniLLM.FloatFormat
import MiniLLM.Q8Dequantization
import MiniLLM.BlockStorage
import MiniLLM.LiveRanges
import MiniLLM.IntermediateStorage
import MiniLLM.StoragePlacement
import MiniLLM.PlannedExecution
import MiniLLM.BuiltGraphs
import MiniLLM.ElementKernels
import MiniLLM.KernelAdapters
import MiniLLM.DecoderStreams
import MiniLLM.GraphStreams
import MiniLLM.DecoderGraph
import MiniLLM.StreamKernels
import MiniLLM.ContiguousCache
import MiniLLM.CachedRows
import MiniLLM.CacheRetry
import MiniLLM.DtypeSoundness
import MiniLLM.StreamRuns
import MiniLLM.BlockRoom
import MiniLLM.PagedDecoding
import MiniLLM.PagedServing
import MiniLLM.PagedGeneration
import MiniLLM.PromptRows
import MiniLLM.PagedTurns
import MiniLLM.GraphLayers
import MiniLLM.DecoderRuns
import MiniLLM.CachedDecoding
import MiniLLM.Generation
