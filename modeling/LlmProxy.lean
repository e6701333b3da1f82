import LlmProxy.ProofKit.System
import LlmProxy.ProofKit.Program
import LlmProxy.ProofKit.Counting
import LlmProxy.ProofKit.Progress
import LlmProxy.ProofKit.BinaryHeap
import LlmProxy.ProofKit.Strconv
import LlmProxy.ProofKit.Keyed
import LlmProxy.ProofKit.FixedWidth
import LlmProxy.ProofKit.Calendar
import LlmProxy.ProofKit.Json
import LlmProxy.ProofKit.Document
import LlmProxy.ProofKit.Significant
import LlmProxy.ProofKit.Url
import LlmProxy.ProofKit.JsonText
import LlmProxy.ProofKit.Mux
import LlmProxy.ProofKit.SqlCondition
import LlmProxy.ProofKit.Exposition
import LlmProxy.ProofKit.Recording
import LlmProxy.ProofKit.ReadThrough
import LlmProxy.Domain
import LlmProxy.Http
import LlmProxy.Effects
import LlmProxy.Router
import LlmProxy.RouterTable
import LlmProxy.Logging.Classify
import LlmProxy.Logging.Pipe
import LlmProxy.Logging.AsyncLogger
import LlmProxy.Logging.Flush
import LlmProxy.Logging.Close
import LlmProxy.Logging.Warnings
import LlmProxy.Queue.PriorityQueue
import LlmProxy.Queue.Refinement
import LlmProxy.Queue.Order
import LlmProxy.Queue.Monitor
import LlmProxy.Proxy.Stream
import LlmProxy.Proxy.Forward
import LlmProxy.Proxy.Usage
import LlmProxy.Proxy.Request
import LlmProxy.Proxy.Merge
import LlmProxy.Proxy.SentDocument
import LlmProxy.Proxy.Lines
import LlmProxy.Worker.Recorder
import LlmProxy.Worker.Retry
import LlmProxy.Worker.RetryRun
import LlmProxy.Proxy.LastUsage
import LlmProxy.Worker.Attempt
import LlmProxy.Proxy.Spelling
import LlmProxy.Worker.SingleAnswer
import LlmProxy.Worker.Cancellation
import LlmProxy.Worker.Course
import LlmProxy.Worker.Tried
import LlmProxy.Worker.ClientView
import LlmProxy.Worker.Answering
import LlmProxy.Worker.Reported
import LlmProxy.Worker.Pool
import LlmProxy.Worker.Ownership
import LlmProxy.Worker.Shutdown
import LlmProxy.Worker.StopReturns
import LlmProxy.Metrics.Registry
import LlmProxy.Metrics.QueueGauge
import LlmProxy.Storage.Memory
import LlmProxy.Storage.Sweep
import LlmProxy.Storage.Cache
import LlmProxy.Storage.Redis
import LlmProxy.Storage.MemoryQueue
import LlmProxy.Storage.QueueClose
import LlmProxy.Storage.FanOut
import LlmProxy.Storage.RedisQueue
import LlmProxy.Storage.ApiKeys
import LlmProxy.Storage.Timestamp
import LlmProxy.Storage.Logs
import LlmProxy.Storage.TopEntities
import LlmProxy.Storage.LogFilter
import LlmProxy.Storage.TimeSeries
import LlmProxy.Storage.LogRows
import LlmProxy.Logging.FailedInserts
import LlmProxy.Storage.Nodes
import LlmProxy.Logging.Retention
import LlmProxy.Logging.Batches
import LlmProxy.Logging.ByteSize
import LlmProxy.RateLimit.Limiter
import LlmProxy.RateLimit.Counters
import LlmProxy.RateLimit.LimiterRun
import LlmProxy.RateLimit.Window
import LlmProxy.RateLimit.Reserving
import LlmProxy.RateLimit.Concurrent
import LlmProxy.RateLimit.Charging
import LlmProxy.RateLimit.Rollback
import LlmProxy.RateLimit.Isolation
import LlmProxy.RateLimit.KeyLimits
import LlmProxy.RateLimit.Throughput
import LlmProxy.Auth
import LlmProxy.Startup
import LlmProxy.Startup.Nodes
import LlmProxy.Api.Exchange
import LlmProxy.Api.OneWriter
import LlmProxy.Api.Answered
import LlmProxy.Api.Accounting
import LlmProxy.Api.RequestLogs
import LlmProxy.Api.Accounts
import LlmProxy.Api.Surface
import LlmProxy.Api.RequestLine
import LlmProxy.Api.LogDetail
import LlmProxy.Api.LogPages
import LlmProxy.Api.LogExport
import LlmProxy.Api.Models
import LlmProxy.Service
import LlmProxy.Service.Shutdown
