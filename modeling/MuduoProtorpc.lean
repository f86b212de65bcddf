import MuduoProtorpc.Foundation.TransitionSystem
import MuduoProtorpc.Foundation.Termination
import MuduoProtorpc.Foundation.OrderStatistics
import MuduoProtorpc.Foundation.PendingTable
import MuduoProtorpc.Foundation.BufferedChannel
import MuduoProtorpc.Foundation.RoundRobin
import MuduoProtorpc.Foundation.FanOut
import MuduoProtorpc.Foundation.Tally
import MuduoProtorpc.Foundation.Quantile
import MuduoProtorpc.Foundation.Lru
import MuduoProtorpc.Foundation.DeltaEncoding
import MuduoProtorpc.Foundation.Scanning
import MuduoProtorpc.Foundation.Decimal
import MuduoProtorpc.Wire.RpcMessage
import MuduoProtorpc.Wire.GoCodec
import MuduoProtorpc.Wire.FrameStream
import MuduoProtorpc.Wire.GoTags
import MuduoProtorpc.Wire.JavaCodec
import MuduoProtorpc.Wire.ProtobufCodec
import MuduoProtorpc.Wire.ProtobufRoundTrip
import MuduoProtorpc.Wire.PythonCodec
import MuduoProtorpc.Wire.WireAgreement
import MuduoProtorpc.Python.SyncRpcChannel
import MuduoProtorpc.Python.SyncRuns
import MuduoProtorpc.CppChannel.ClientHistory
import MuduoProtorpc.CppChannel.EndToEnd
import MuduoProtorpc.CppChannel.LinkGuarantees
import MuduoProtorpc.CppChannel.Tracking
import MuduoProtorpc.CppChannel.Quiescence
import MuduoProtorpc.GoBalancer.Balancer
import MuduoProtorpc.GoBalancer.Steps
import MuduoProtorpc.GoBalancer.Routing
import MuduoProtorpc.GoBalancer.Replies
import MuduoProtorpc.GoBalancer.Backends
import MuduoProtorpc.GoBalancer.Delivery
import MuduoProtorpc.GoBalancer.Isolation
import MuduoProtorpc.GoBalancer.FailingBackend
import MuduoProtorpc.GoBalancer.Progress
import MuduoProtorpc.GoBalancer.Quiet
import MuduoProtorpc.JavaChannel.RpcChannel
import MuduoProtorpc.JavaChannel.Server
import MuduoProtorpc.JavaChannel.BlockingCall
import MuduoProtorpc.JavaChannel.Wakeups
import MuduoProtorpc.JavaChannel.HandOver
import MuduoProtorpc.JavaChannel.ClientRequests
import MuduoProtorpc.JavaChannel.ClientResults
import MuduoProtorpc.JavaChannel.EndToEnd
import MuduoProtorpc.JavaChannel.EndToEndRuns
import MuduoProtorpc.CppChannel.ServerAgreement
import MuduoProtorpc.GoRpc.Codec
import MuduoProtorpc.GoRpc.ServerCodec
import MuduoProtorpc.GoRpc.ServerSafety
import MuduoProtorpc.GoRpc.ServerReplies
import MuduoProtorpc.GoRpc.ClientCodec
import MuduoProtorpc.GoRpc.ClientIsolation
import MuduoProtorpc.GoRpc.GeneratedNames
import MuduoProtorpc.GoRpc.EndToEnd
import MuduoProtorpc.GoRpc.EndToEndServer
import MuduoProtorpc.GoRpc.EndToEndClient
import MuduoProtorpc.GoRpc.EndToEndRuns
import MuduoProtorpc.WordFreq.Shuffle
import MuduoProtorpc.WordFreq.Pivots
import MuduoProtorpc.WordFreq.BufferPool
import MuduoProtorpc.WordFreq.Batches
import MuduoProtorpc.WordFreq.PoolReturns
import MuduoProtorpc.WordFreq.Worker
import MuduoProtorpc.WordFreq.ShuffleReplies
import MuduoProtorpc.WordFreq.Cluster
import MuduoProtorpc.WordFreq.Deliveries
import MuduoProtorpc.WordFreq.DistributedSort
import MuduoProtorpc.WordFreq.SortProgress
import MuduoProtorpc.WordFreq.Histogram
import MuduoProtorpc.WordFreq.Partition
import MuduoProtorpc.WordFreq.PartitionBalance
import MuduoProtorpc.WordFreq.Shards
import MuduoProtorpc.WordFreq.Controller
import MuduoProtorpc.WordFreq.Preparation
import MuduoProtorpc.WordFreq.PreparationEnds
import MuduoProtorpc.WordFreq.PreparedSort
import MuduoProtorpc.Median.Collector
import MuduoProtorpc.Median.Int64Arithmetic
import MuduoProtorpc.Median.Bisection
import MuduoProtorpc.Median.Replies
import MuduoProtorpc.Median.MedianCorrect
import MuduoProtorpc.Median.GetKth
import MuduoProtorpc.NQueens.Placements
import MuduoProtorpc.NQueens.BackTracking
import MuduoProtorpc.NQueens.Clients
import MuduoProtorpc.NQueens.Masks
import MuduoProtorpc.NQueens.Totals
import MuduoProtorpc.NQueens.SearchIndices
import MuduoProtorpc.NQueens.SubProblems
import MuduoProtorpc.NQueens.FailedShards
import MuduoProtorpc.Zurg.ChildManager
import MuduoProtorpc.Zurg.SlaveService
import MuduoProtorpc.Zurg.Accounting
import MuduoProtorpc.Zurg.AnswersOnce
import MuduoProtorpc.Zurg.Applications
import MuduoProtorpc.Zurg.ExecError
import MuduoProtorpc.Zurg.Descriptors
import MuduoProtorpc.Zurg.Sink
import MuduoProtorpc.Zurg.SinkRuns
import MuduoProtorpc.Zurg.CommandRuns
import MuduoProtorpc.Zurg.CommandGuarantees
import MuduoProtorpc.Zurg.CommandLimits
import MuduoProtorpc.Proc.StatText
import MuduoProtorpc.Zurg.ProcStatFile
import MuduoProtorpc.Zurg.Heartbeat
import MuduoProtorpc.Zurg.ParseMd5sum
import MuduoProtorpc.Zurg.DiskStats
import MuduoProtorpc.Zurg.Checksums
import MuduoProtorpc.Collect.FileCache
import MuduoProtorpc.Collect.FileCacheRuns
import MuduoProtorpc.Collect.CacheEntries
import MuduoProtorpc.Collect.SentrySweep
import MuduoProtorpc.Collect.ReadFile
import MuduoProtorpc.Collect.ProcFs
import MuduoProtorpc.Collect.CollectLog
import MuduoProtorpc.Collect.StatLine
import MuduoProtorpc.Collect.MemInfo
