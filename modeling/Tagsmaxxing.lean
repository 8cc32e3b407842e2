import Tagsmaxxing.Core.CircuitBreaker
import Tagsmaxxing.Pipeline.JobAging
import Tagsmaxxing.Pipeline.ToolLoop
import Tagsmaxxing.Pipeline.LiveLeases
import Tagsmaxxing.Pipeline.QueryCache
import Tagsmaxxing.Pipeline.DocumentStatus
import Tagsmaxxing.Pipeline.OrphanGc
import Tagsmaxxing.Pipeline.Retag
import Tagsmaxxing.Pipeline.CryptoShred
import Tagsmaxxing.Pipeline.IngestWorker
import Tagsmaxxing.Pipeline.Export
import Tagsmaxxing.Pipeline.TagCanonicalizer
import Tagsmaxxing.Pipeline.TaggerText
import Tagsmaxxing.Pipeline.Maintenance
import Tagsmaxxing.Extract.MarkdownRoundTrip
import Tagsmaxxing.Extract.MarkdownLoss
import Tagsmaxxing.Extract.Storable
import Tagsmaxxing.Store.UsageRollup
import Tagsmaxxing.Store.BufferedRecorder
import Tagsmaxxing.Store.ApiTokens
import Tagsmaxxing.Store.RouteUniqueness
import Tagsmaxxing.Store.RoutingGroups
import Tagsmaxxing.Store.TenantKeys
import Tagsmaxxing.Store.RankFusion
import Tagsmaxxing.Store.MultipartSettled
import Tagsmaxxing.Store.BlobCacheRace
import Tagsmaxxing.Store.BlobCacheEviction
import Tagsmaxxing.Store.BlobCacheRestart
import Tagsmaxxing.Store.BlobRetry
import Tagsmaxxing.Store.BlobRanges
import Tagsmaxxing.Store.KekProvisioning
import Tagsmaxxing.Api.Backpressure
import Tagsmaxxing.Api.RateLimiters
import Tagsmaxxing.Api.ReplayIsolation
import Tagsmaxxing.Api.BlobIntegrity
import Tagsmaxxing.Api.WebhookOnce
import Tagsmaxxing.Api.EmailJobs
import Tagsmaxxing.Scheduler.RateLimit
import Tagsmaxxing.Scheduler.Materialize
import Tagsmaxxing.Scheduler.WaiterOrder
import Tagsmaxxing.Scheduler.EmbedLock
import Tagsmaxxing.Scheduler.Wakeup
import Tagsmaxxing.Scheduler.Conservation
import Tagsmaxxing.Llm.Rerank
import Tagsmaxxing.Llm.AllCooldown
import Tagsmaxxing.Assistant.Sandbox
import Tagsmaxxing.Extract.CsvRoundTrip
import Tagsmaxxing.Extract.HtmlEscape
import Tagsmaxxing.Extract.Binary
import Tagsmaxxing.Coverage.Lcov
