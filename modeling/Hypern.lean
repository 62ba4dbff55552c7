import Hypern.Lib.Effect
import Hypern.Lib.Run
import Hypern.Lib.Threads
import Hypern.Lib.Recency
import Hypern.Database.RequestContext
import Hypern.Database.ContextInvariant
import Hypern.Database.World
import Hypern.Database.Transaction
import Hypern.Database.Lifecycle
import Hypern.Database.Tenants
import Hypern.Python.Object
import Hypern.Core.Context
import Hypern.App.WrapHandler
import Hypern.App.Rollback
import Hypern.App.Isolation
import Hypern.Python.Base64
import Hypern.Python.Json
import Hypern.Auth.Jwt
import Hypern.Auth.Revocation
import Hypern.Auth.Guards
import Hypern.App.Inject
import Hypern.Lib.Utf8
import Hypern.Lib.PosixPath
import Hypern.Http.Uri
import Hypern.Routing.MatchitPath
import Hypern.Routing.Matchit
import Hypern.App.Static
import Hypern.App.Use
import Hypern.App.Mount
import Hypern.Http.Request
import Hypern.Routing.Router
import Hypern.Routing.Registration
import Hypern.Routing.Lookup
import Hypern.Middleware.Context
import Hypern.Middleware.Chain
import Hypern.Core.Worker
import Hypern.Core.Interpreter
import Hypern.Core.FastPath
import Hypern.Core.ResponseHeaders
import Hypern.Core.RequestModification
import Hypern.Reload.Worker
import Hypern.Reload.InFlight
import Hypern.Reload.Readiness
import Hypern.Reload.Drain
import Hypern.Reload.Parent
import Hypern.Tasks.Executor
import Hypern.Tasks.Cancellation
import Hypern.Tasks.Submit
import Hypern.Tasks.Blocking
import Hypern.Tasks.ThreadPool
import Hypern.Tasks.ParallelMap
import Hypern.Tasks.Shutdown
import Hypern.Tasks.Background
import Hypern.Scheduler.Retry
import Hypern.Scheduler.Cron
import Hypern.Scheduler.Loop
import Hypern.Scheduler.Records
import Hypern.Scheduler.Firing
import Hypern.Scheduler.Lossless
import Hypern.Lib.Table
import Hypern.Realtime.Presence
import Hypern.Realtime.PresenceIndex
import Hypern.Realtime.PresenceDiff
import Hypern.Lib.Ring
import Hypern.Realtime.Subscriber
import Hypern.Realtime.Exchange
import Hypern.Realtime.Channel
import Hypern.Realtime.Matcher
import Hypern.Realtime.Broadcast
import Hypern.Realtime.Accounting
import Hypern.Realtime.Delivery
import Hypern.Realtime.Heartbeat
import Hypern.Realtime.Hub
import Hypern.Http.Sse
import Hypern.Http.Streaming
import Hypern.Http.WebSocket
import Hypern.Auth.DecodeErrors
import Hypern.Database.Dsn
import Hypern.Auth.Permanence
import Hypern.Auth.RoundTrip
import Hypern.Auth.Rbac
import Hypern.Middleware.CircuitBreaker
import Hypern.Realtime.Topics
import Hypern.Lib.Window
import Hypern.Realtime.Dedup
import Hypern.Python.Convert
import Hypern.Lib.Utf8RoundTrip
import Hypern.Lib.Search
import Hypern.Http.Multipart
import Hypern.Http.MultipartRoundTrip
import Hypern.Http.MultipartForms
import Hypern.Http.SseRoundTrip
import Hypern.Lib.Bucket
import Hypern.Middleware.RateLimit
import Hypern.Middleware.TokenBucket
import Hypern.Middleware.Windows
import Hypern.Middleware.SlidingWindow
import Hypern.Realtime.Monitor
import Hypern.Realtime.Liveness
import Hypern.Core.Dispatch
import Hypern.Core.BodyFidelity
import Hypern.Http.SseItems
import Hypern.Database.DatabaseTransaction
import Hypern.Http.PercentEncoding
import Hypern.Routing.PathParams
import Hypern.Middleware.Burst
import Hypern.Middleware.Scoped
import Hypern.Middleware.Cors
import Hypern.Lib.Base64
import Hypern.Middleware.BasicAuth
import Hypern.Lib.LexicalPath
import Hypern.Lib.Interleave
import Hypern.Core.StaticFiles
import Hypern.Http.Uploads
import Hypern.App.ChainOrder
import Hypern.App.ErrorLookup
import Hypern.Scheduler.Accounting
import Hypern.Tasks.Stranded
import Hypern.Middleware.QueryCache
import Hypern.Realtime.FailedSend
import Hypern.Realtime.SendMany
import Hypern.Http.HeaderValues
import Hypern.Http.Cookies
import Hypern.Http.ResponseSlot
import Hypern.Http.Framing
import Hypern.Http.AppendVary
import Hypern.Http.SetHeaders
import Hypern.Python.Numeral
import Hypern.Scheduler.CronFields
import Hypern.Scheduler.CronMatch
import Hypern.Realtime.Stats
import Hypern.Realtime.ListedOnce
import Hypern.Realtime.Released
import Hypern.Database.JsonColumns
import Hypern.Python.Structural
import Hypern.Http.SendJson
import Hypern.Lib.BigEndian
import Hypern.Python.Any
import Hypern.Database.Params
import Hypern.Core.DIValue
import Hypern.Lib.Eviction
import Hypern.FastPath.JsonCache
import Hypern.Routing.RouteCache
import Hypern.Middleware.ResponseCache
import Hypern.Lib.Pages
import Hypern.Lib.Words
import Hypern.Utils.Pagination
import Hypern.Utils.Slug
import Hypern.Lib.Dict
import Hypern.Utils.KeyCase
import Hypern.App.MountPaths
import Hypern.Routing.ParamNames
import Hypern.Core.Container
import Hypern.Database.UrlRoundTrip
import Hypern.Database.RowStream
import Hypern.OpenApi.Schema
import Hypern.Lib.Slices
import Hypern.Http.MultipartSlices
import Hypern.Logging.Queue
import Hypern.Logging.Delivery
import Hypern.Lib.Guarded
import Hypern.Telemetry.Metrics
import Hypern.App.Config
import Hypern.App.EnvFile
import Hypern.Core.BlockingRunner
import Hypern.App.Validation
import Hypern.Middleware.Observers
import Hypern.Core.Unobserved
import Hypern.Middleware.SlidingWindow
