import SupabaseLab.Library.Slice
import SupabaseLab.Library.Octets
import SupabaseLab.Library.Aead
import SupabaseLab.Library.JsNumber
import SupabaseLab.Library.Except
import SupabaseLab.Library.Base64
import SupabaseLab.Library.Json
import SupabaseLab.Library.Uuid
import SupabaseLab.Library.Table
import SupabaseLab.ClientKeyed.Envelope
import SupabaseLab.ClientKeyed.Ciphertext
import SupabaseLab.ClientKeyed.Read
import SupabaseLab.ClientKeyed.ReadBack
import SupabaseLab.ClientKeyed.Tamper
import SupabaseLab.ClientKeyed.Platform
import SupabaseLab.ClientKeyed.Upload
import SupabaseLab.ClientKeyed.Listing
import SupabaseLab.Library.JsMap
import SupabaseLab.Library.KeyMap
import SupabaseLab.Library.Process
import SupabaseLab.LifecycleOps.Runbook
import SupabaseLab.LifecycleOps.Detection
import SupabaseLab.LifecycleOps.Episode
import SupabaseLab.Library.RateLimit
import SupabaseLab.LifecycleOps.Restarts
import SupabaseLab.LifecycleOps.Outcomes
import SupabaseLab.KeySvc.Server
import SupabaseLab.KeySvc.Isolation
import SupabaseLab.Catalogue.Schema
import SupabaseLab.Catalogue.AssetTenants
import SupabaseLab.ClientKeyed.Parts
import SupabaseLab.Harness.Artifact
import SupabaseLab.Harness.Diff
import SupabaseLab.Harness.Account
import SupabaseLab.Harness.Settle
import SupabaseLab.Harness.Settlement
import SupabaseLab.Harness.Plan
import SupabaseLab.Harness.Merge
import SupabaseLab.Harness.Sampler
import SupabaseLab.Harness.Sampling
import SupabaseLab.Harness.SamplingEnd
import SupabaseLab.Harness.SamplingPause
import SupabaseLab.ClientKeyed.Session
import SupabaseLab.ClientKeyed.SingleFlight
import SupabaseLab.Catalogue.Storage
import SupabaseLab.Catalogue.TenantIsolation
import SupabaseLab.ClientKeyed.Journal
import SupabaseLab.ClientKeyed.History
import SupabaseLab.ClientKeyed.Resume
import SupabaseLab.ClientKeyed.CrashResume
import SupabaseLab.ClientKeyed.ReadWorld
import SupabaseLab.ClientKeyed.ResumeSafety
import SupabaseLab.ClientRetries.Hedge
import SupabaseLab.ClientRetries.Deadline
import SupabaseLab.EdgeBurst.Load
import SupabaseLab.MgmtFaults.Reconcile
import SupabaseLab.Library.RowUpdate
import SupabaseLab.StarterKit.Baseline
import SupabaseLab.StarterKit.Requests
import SupabaseLab.StarterKit.Notify
import SupabaseLab.StarterKit.Integrations
import SupabaseLab.StarterKit.Agent
import SupabaseLab.StarterKit.FanOut
import SupabaseLab.CorpusGraph.Worker
import SupabaseLab.Library.Framing
import SupabaseLab.MgmtFaults.ConnProxy
import SupabaseLab.MgmtFaults.Pipelining
import SupabaseLab.ComputeDisk.Outage
import SupabaseLab.ComputeDisk.Accounting
import SupabaseLab.CorpusGraph.AsAt
import SupabaseLab.AuditIntegrity.Mirror
import SupabaseLab.AuditIntegrity.Tampering
import SupabaseLab.AuditIntegrity.Concurrency
import SupabaseLab.PgNetLoad.Calls
import SupabaseLab.PgNetLoad.Delivery
import SupabaseLab.PartitionedTenancy.Acl
import SupabaseLab.PartitionedTenancy.Restore
import SupabaseLab.EdgeResilience.Worker
import SupabaseLab.EdgeResilience.CacheIsolation
import SupabaseLab.EdgeResilience.Failover
import SupabaseLab.Library.Keyset
import SupabaseLab.Library.Postgrest
import SupabaseLab.CrossProject.Timestamp
import SupabaseLab.CrossProject.Merge
import SupabaseLab.CrossProject.Paging
import SupabaseLab.Library.Aggregate
import SupabaseLab.UsageMetering.Rollup
import SupabaseLab.Library.Regex
import SupabaseLab.LifecycleOps.Gate
import SupabaseLab.SqliteEdge.Exec
import SupabaseLab.SqliteEdge.Client
import SupabaseLab.Library.JsonText
import SupabaseLab.RealtimeSurface.Classify
import SupabaseLab.Library.Lines
import SupabaseLab.RestorePaths.Slots
import SupabaseLab.RestorePaths.Wal2json
import SupabaseLab.RestorePaths.Stream
import SupabaseLab.RestorePaths.Rewind
import SupabaseLab.CliSurface.Faithful
import SupabaseLab.Harness.Redact
import SupabaseLab.Harness.Addresses
import SupabaseLab.Harness.AddressParts
import SupabaseLab.Library.Gaps
import SupabaseLab.Multigres.Load
import SupabaseLab.Multigres.Window
import SupabaseLab.ClientKeyed.CipherSource
import SupabaseLab.Library.Occurrences
import SupabaseLab.ClientKeyed.Windows
import SupabaseLab.Harness.BlindSpot
import SupabaseLab.Library.JsDouble
import SupabaseLab.MgmtFaults.RequestPump
import SupabaseLab.Library.JsNumberText
import SupabaseLab.Library.GfmTable
import SupabaseLab.Harness.Facts
import SupabaseLab.Harness.Report
import SupabaseLab.Library.Matches
import SupabaseLab.Library.Words
import SupabaseLab.Harness.DocNumbers
import SupabaseLab.Library.Buffers
import SupabaseLab.Library.SearchParams
import SupabaseLab.Library.Cuts
import SupabaseLab.ReplicaRouting.RawHttp
import SupabaseLab.ReplicaRouting.Dechunk
import SupabaseLab.TenantConsolidation.CopyTable
import SupabaseLab.EdgeResilience.TenantRoute
import SupabaseLab.CorpusGraph.Extraction
import SupabaseLab.CorpusGraph.ExtractLoop
import SupabaseLab.CorpusGraph.ExtractorsAgree
import SupabaseLab.CorpusGraph.Citation
import SupabaseLab.CorpusGraph.CoCitation
import SupabaseLab.CorpusGraph.Neighbourhood
import SupabaseLab.SqliteEdge.Spread
import SupabaseLab.SqliteEdge.Hrana
import SupabaseLab.ComputeDisk.OpenTail
import SupabaseLab.LifecycleOps.UnionMs
import SupabaseLab.ComputeDisk.DiskDelta
import SupabaseLab.Harness.SleepOverlap
import SupabaseLab.RestorePaths.CredentialWatch
import SupabaseLab.RestorePaths.MeasureRestore
import SupabaseLab.RestorePaths.Pgoutput
import SupabaseLab.Library.Sql
import SupabaseLab.SqliteEdge.EventLog
import SupabaseLab.Library.Period
import SupabaseLab.CronBehaviour.Downtime
import SupabaseLab.Library.Template
import SupabaseLab.Library.JsonStringify
import SupabaseLab.Library.JsonSize
import SupabaseLab.LifecycleOps.HardStop
import SupabaseLab.Library.JsonTemplate
import SupabaseLab.S2zWake.Sweep
import SupabaseLab.S2zWake.Readings
import SupabaseLab.Library.Cascade
import SupabaseLab.MgmtFaults.StatusProxy
import SupabaseLab.MgmtFaults.RuleWindows
import SupabaseLab.MgmtFaults.StatusRuns
import SupabaseLab.MgmtFaults.StatusLog
import SupabaseLab.Multigres.Writers
import SupabaseLab.Library.PageWalk
import SupabaseLab.CrossProject.IsoString
import SupabaseLab.CrossProject.DateCursor
import SupabaseLab.CrossProject.OffsetPaging
import SupabaseLab.Harness.RealtimeProbe
import SupabaseLab.LifecycleOps.Replay
