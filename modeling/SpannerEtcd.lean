import SpannerEtcd.Lib.Byte
import SpannerEtcd.Lib.Runs
import SpannerEtcd.Lib.Utf8
import SpannerEtcd.Lib.VersionedLog
import SpannerEtcd.Lib.LogReplay
import SpannerEtcd.Lib.Simulation
import SpannerEtcd.Lib.Paging
import SpannerEtcd.Lib.PrefixRange
import SpannerEtcd.Lib.Program
import SpannerEtcd.Lib.Retry
import SpannerEtcd.Lib.Channel
import SpannerEtcd.Lib.Lifecycle
import SpannerEtcd.Lib.Mirror
import SpannerEtcd.Lib.Expiring
import SpannerEtcd.Lib.Resume
import SpannerEtcd.Lib.Worklist
import SpannerEtcd.Lib.Progress
import SpannerEtcd.Lib.SharedSlice
import SpannerEtcd.Lib.Sweep
import SpannerEtcd.Lib.Rounding
import SpannerEtcd.Lib.Base64
import SpannerEtcd.Lib.Decimal
import SpannerEtcd.Lib.RFC3339
import SpannerEtcd.Store.Schema
import SpannerEtcd.Store.Read
import SpannerEtcd.Store.Range
import SpannerEtcd.Store.Like
import SpannerEtcd.Store.Write
import SpannerEtcd.Store.Retries
import SpannerEtcd.Store.System
import SpannerEtcd.Store.Invariant
import SpannerEtcd.Store.History
import SpannerEtcd.Store.Compaction
import SpannerEtcd.Store.Horizon
import SpannerEtcd.Store.CurrentReads
import SpannerEtcd.Store.HistoricalReads
import SpannerEtcd.Store.Retention
import SpannerEtcd.Store.EventReads
import SpannerEtcd.Store.AbstractMap
import SpannerEtcd.Store.Refinement
import SpannerEtcd.Store.Scans
import SpannerEtcd.Store.Calls
import SpannerEtcd.Store.CompactRows
import SpannerEtcd.Store.FinishedCompaction
import SpannerEtcd.Server.Response
import SpannerEtcd.Server.Put
import SpannerEtcd.Server.Handlers
import SpannerEtcd.Server.CompareAndSwap
import SpannerEtcd.Server.Revisions
import SpannerEtcd.Server.Coherence
import SpannerEtcd.Server.KeptEntries
import SpannerEtcd.Server.PutPhases
import SpannerEtcd.Server.Alone
import SpannerEtcd.Server.Isolation
import SpannerEtcd.Server.GuardedUpdates
import SpannerEtcd.Server.DeleteAccounting
import SpannerEtcd.Server.TxnPaths
import SpannerEtcd.Server.Versions
import SpannerEtcd.Server.PathsAgree
import SpannerEtcd.Server.Execution
import SpannerEtcd.Server.Rejection
import SpannerEtcd.Server.PutTxn
import SpannerEtcd.Server.Pagination
import SpannerEtcd.Server.RangeReads
import SpannerEtcd.Server.Compares
import SpannerEtcd.Server.RangeDeletes
import SpannerEtcd.Server.PrefixOps
import SpannerEtcd.Server.Auth
import SpannerEtcd.Server.Users
import SpannerEtcd.Lease.Revoke
import SpannerEtcd.Lease.Attachment
import SpannerEtcd.Lease.Revocation
import SpannerEtcd.Lease.Manager
import SpannerEtcd.Lease.Expiry
import SpannerEtcd.Lease.Replicas
import SpannerEtcd.Lease.TimeToLive
import SpannerEtcd.Lease.Timers
import SpannerEtcd.ChangeStream.Decode
import SpannerEtcd.ChangeStream.Agreement
import SpannerEtcd.ChangeStream.Rows
import SpannerEtcd.ChangeStream.Reader
import SpannerEtcd.ChangeStream.Restarts
import SpannerEtcd.ChangeStream.Children
import SpannerEtcd.ChangeStream.Dispatcher
import SpannerEtcd.ChangeStream.WholeStream
import SpannerEtcd.Watch.Poll
import SpannerEtcd.Watch.PollHorizon
import SpannerEtcd.Watch.AutoCompact
import SpannerEtcd.Watch.Subscribe
import SpannerEtcd.Watch.SubscriberOrder
import SpannerEtcd.Watch.PollOnce
import SpannerEtcd.Watch.RangeFilter
import SpannerEtcd.Watch.PrefixFilter
import SpannerEtcd.Watch.ReplayGap
import SpannerEtcd.Watch.ReplayPages
import SpannerEtcd.Watch.PrevKv
import SpannerEtcd.Watch.CutOff
import SpannerEtcd.Watch.Health
import SpannerEtcd.Watch.FanOut
import SpannerEtcd.Watch.Projection
import SpannerEtcd.Watch.Genuine
import SpannerEtcd.Watch.Follower
import SpannerEtcd.Server.WatchStream
import SpannerEtcd.Server.WatchService
import SpannerEtcd.Server.WatchTruth
import SpannerEtcd.Migrate.Copy
import SpannerEtcd.Migrate.LiveSource
import SpannerEtcd.Migrate.Destination
