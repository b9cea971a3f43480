import InfiniOps.Core.CacheKeyTheorems
import InfiniOps.Ascend.DerivedTablesTheorems
import InfiniOps.Blas.OperandTheorems
import InfiniOps.Blas.GemmTheorems
import InfiniOps.Ci.PyValue
import InfiniOps.Ci.Resource
import InfiniOps.Lib.Transition
import InfiniOps.Ci.Scheduler
import InfiniOps.Ci.SchedulerTheorems
import InfiniOps.Ci.Interleaving
import InfiniOps.Ci.InterleavingTheorems
import InfiniOps.Ascend.WorkspacePool
import InfiniOps.Ascend.WorkspacePoolTheorems
import InfiniOps.Ascend.WarmUp
import InfiniOps.Ascend.RepeatableExecutor
import InfiniOps.Ascend.RepeatableExecutorTheorems
import InfiniOps.AscendC.NormKernels
import InfiniOps.Lib.RowSplit
import InfiniOps.AscendC.TorchHost
import InfiniOps.AscendC.LaunchTheorems
import InfiniOps.AscendC.NormCompute
import InfiniOps.AscendC.NormComputeTheorems
import InfiniOps.Cambricon.RmsNorm
import InfiniOps.Cambricon.RmsNormTheorems
import InfiniOps.Cuda.ElementwiseLaunch
import InfiniOps.Core.Strided
import InfiniOps.Core.Contiguity
import InfiniOps.Lib.Brackets
import InfiniOps.Lib.Decimal
import InfiniOps.Core.TensorPrint
import InfiniOps.Core.Dispatcher
import InfiniOps.Cpu.Elementwise
import InfiniOps.Lib.Sumset
import InfiniOps.Cpu.Linear
import InfiniOps.Cpu.LinearTheorems
import InfiniOps.Lib.StridedLoop
import InfiniOps.Softmax.CausalSoftmax
import InfiniOps.Softmax.CausalSoftmaxTheorems
import InfiniOps.Softmax.ScaledSoftmax
import InfiniOps.Ascend.SeqLengths
import InfiniOps.Ascend.SeqLengthsTheorems
import InfiniOps.Lib.ByteMemory
import InfiniOps.Lib.History
import InfiniOps.Ascend.GraphCleanup
import InfiniOps.Ascend.CleanupScopes
import InfiniOps.Ascend.GraphCleanupTheorems
import InfiniOps.Lib.MemoTables
import InfiniOps.Core.OperatorCache
import InfiniOps.Core.OperatorCacheTheorems
import InfiniOps.Core.OperatorMake
import InfiniOps.Cpu.OutputCheck
import InfiniOps.Blas.LeadingDim
import InfiniOps.Ascend.AllocationFailure
import InfiniOps.Lib.BlockStore
import InfiniOps.Cpu.Cat
import InfiniOps.Cpu.CatTheorems
import InfiniOps.Cpu.Cast
import InfiniOps.Cpu.CastTheorems
import InfiniOps.Cpu.RmsNorm
import InfiniOps.Cpu.RmsNormTheorems
import InfiniOps.Ascend.MatmulEntry
import InfiniOps.Ascend.MatmulEntryTheorems
import InfiniOps.Lib.StableSort
import InfiniOps.Ci.DockerArgs
import InfiniOps.Ci.PyValueTheorems
import InfiniOps.Ci.DockerArgsTheorems
import InfiniOps.Lib.Except
import InfiniOps.Lib.OrderedDict
import InfiniOps.Ci.MemorySpec
import InfiniOps.Lib.RunPattern
import InfiniOps.Ci.AscendDetect
import InfiniOps.Ci.NpuSmiTable
import InfiniOps.Ci.AscendDetectTheorems
import InfiniOps.Ci.ConfigFile
import InfiniOps.Ci.ConfigFileTheorems
import InfiniOps.Lib.Traced
import InfiniOps.Ci.WebhookTheorems
import InfiniOps.Ci.JobStatus
import InfiniOps.Ci.JunitRecovery
import InfiniOps.Lib.ShellWords
import InfiniOps.Ci.TestOverride
import InfiniOps.Lib.Rounding
import InfiniOps.Lib.TextReplace
import InfiniOps.Ascend.StorageExtent
import InfiniOps.Core.HalfFloat
import InfiniOps.Core.HalfFloatTheorems
import InfiniOps.Cambricon.RowTasks
import InfiniOps.Cambricon.RowKernelTheorems
import InfiniOps.AscendC.CustomLauncher
import InfiniOps.AscendC.UnifiedBuffer
import InfiniOps.Ascend.Divisors
import InfiniOps.Ascend.RotaryTables
import InfiniOps.Lib.Scatter
import InfiniOps.Ascend.AttentionWindow
import InfiniOps.Lib.PrefixShare
import InfiniOps.Cpu.TopKTopPSampler
import InfiniOps.Cpu.TopKTopPSamplerTheorems
import InfiniOps.Lib.Roster
import InfiniOps.Ci.Agent
import InfiniOps.Ci.AgentTheorems
import InfiniOps.Ci.AgentReports
import InfiniOps.Ci.RemoteDispatch
import InfiniOps.Ci.RemoteDispatchTheorems
import InfiniOps.Ci.StagedRun
import InfiniOps.Ci.StagedRunTheorems
import InfiniOps.Ci.CommandLine
import InfiniOps.Lib.RecordStore
import InfiniOps.Ascend.KvCache
import InfiniOps.Ascend.KvCacheTheorems
import InfiniOps.Lib.Placement
import InfiniOps.Ascend.CachedCall
import InfiniOps.Ascend.CachedCallTheorems
import InfiniOps.Ascend.CachedOperators
import InfiniOps.Ascend.CachedOperatorsTheorems
import InfiniOps.Ascend.CachedEffects
import InfiniOps.Cuda.ElementwiseKernel
import InfiniOps.Cuda.RmsNormKernel
import InfiniOps.Cuda.RmsNormKernelTheorems
import InfiniOps.Cuda.CausalSoftmaxKernel
import InfiniOps.Cuda.CausalSoftmaxKernelTheorems
