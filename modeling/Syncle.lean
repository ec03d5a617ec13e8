import Syncle.Lib.Run
import Syncle.Lib.Replay
import Syncle.Cdc.Change
import Syncle.Cdc.IsolateFailures
import Syncle.Cdc.Stream
import Syncle.Cdc.Moves
import Syncle.Cdc.Failed
import Syncle.Cdc.NoLoss
import Syncle.Cdc.Converge
import Syncle.Lib.Pages
import Syncle.Snapshot.Copy
import Syncle.Snapshot.CopyConverge
import Syncle.Snapshot.Hold
import Syncle.Snapshot.HoldConverge
import Syncle.Postgres.Decode
import Syncle.Postgres.OwnSlot
import Syncle.Postgres.OwnSlotSafe
import Syncle.Mysql.Binlog
import Syncle.Mysql.BinlogReplay
import Syncle.Postgres.Replay
import Syncle.Postgres.ReplayTable
import Syncle.Lib.Late
import Syncle.Mongo.Bson
import Syncle.Mongo.ChangeStream
import Syncle.Mongo.ChangeStreamReplay
import Syncle.Js.Value
import Syncle.Lib.Base64
import Syncle.Lib.Redelivery
import Syncle.Spool.RowCodec
import Syncle.Spool.Drain
import Syncle.Spool.Lined
import Syncle.Spool.Dealt
import Syncle.Spool.NoLoss
import Syncle.Lib.Fold
import Syncle.Shape.Target
import Syncle.Shape.Delivery
import Syncle.Shape.DeleteIdentity
import Syncle.Shape.Unchanged
import Syncle.Shape.FanOut
import Syncle.Jobs.Lifecycle
import Syncle.Jobs.OneRun
import Syncle.Jobs.Stranded
import Syncle.Jobs.Replay
import Syncle.Jobs.ReplayRows
import Syncle.Jobs.ReplayAligned
import Syncle.Jobs.ReplayAborts
import Syncle.Lib.OrderedMap
import Syncle.Verify.Compare
import Syncle.Verify.Extras
import Syncle.Verify.Lookup
import Syncle.Verify.FirstPass
import Syncle.Verify.Reads
import Syncle.Verify.Clear
import Syncle.Verify.Exact
import Syncle.Records.Counters
import Syncle.Records.Retention
import Syncle.Records.Trims
import Syncle.Records.Sweeps
import Syncle.Records.Kept
import Syncle.Leader.Instance
import Syncle.Leader.Lease
import Syncle.Drift.Columns
import Syncle.Drift.Evolve
import Syncle.Drift.Baseline
import Syncle.Drift.Readers
import Syncle.Drift.Stops
import Syncle.Jobs.Retry
import Syncle.Edits.Update
import Syncle.Edits.Waiting
import Syncle.Edits.OneSource
import Syncle.Edits.Slots
import Syncle.Edits.SlotsKept
import Syncle.Edits.SlotRuns
import Syncle.Streams.OneStream
import Syncle.Keys.Replay
import Syncle.Keys.Direct
import Syncle.Keys.Poll
import Syncle.Keys.Spooled
import Syncle.Keys.OnePayload
import Syncle.Cdc.Isolated
import Syncle.Lib.Decimal
import Syncle.Mysql.CursorOrder
import Syncle.Accounts.Users
import Syncle.Accounts.Reset
import Syncle.Accounts.AttemptLimiter
import Syncle.Accounts.Login
import Syncle.Adapters.Atomic
import Syncle.Adapters.Edited
import Syncle.Adapters.Kept
import Syncle.Secrets.Crypto
import Syncle.Secrets.Preserved
import Syncle.Lib.Ordinal
import Syncle.Postgres.Numbering
import Syncle.Postgres.OwnCursors
import Syncle.Postgres.SharedCursors
import Syncle.Builder.Filters
import Syncle.Builder.Mapping
import Syncle.Builder.Reopened
import Syncle.Builder.RoundTrip
import Syncle.Builder.Survives
import Syncle.Cdc.Batches
import Syncle.Postgres.StableCursors
import Syncle.Tables.Browse
import Syncle.Tables.Reader
import Syncle.Tables.Resume
import Syncle.Backup.JsonBackup
import Syncle.Snapshot.Cursors
import Syncle.Shape.ColumnsUsed
import Syncle.Backup.SplitStatements
import Syncle.Backup.SqlBackup
import Syncle.Lib.Batches
import Syncle.Sql.Batches
import Syncle.Sql.BulkPaths
import Syncle.Sql.JsonBulk
import Syncle.Mongo.BrowseFrom
import Syncle.Redis.Commands
import Syncle.Redis.PipelineWrite
import Syncle.Redis.Converge
import Syncle.Lib.Glob
import Syncle.Lib.Unicode
import Syncle.Js.RegExp
import Syncle.Redis.KeyPattern
import Syncle.Lib.Inet
import Syncle.Streams.UrlGuard
import Syncle.Accounts.Cookies
import Syncle.Accounts.Sessions
import Syncle.Secrets.ConnectionStore
import Syncle.Secrets.KeptSecrets
import Syncle.Shape.TargetColumns
import Syncle.Shape.Lineage
import Syncle.Shape.PlannedTypes
import Syncle.Shape.LineageRuns
import Syncle.Shape.PlannedNotNull
import Syncle.Alerts.Service
import Syncle.Alerts.Accounted
import Syncle.Http.Send
import Syncle.Http.Reports
import Syncle.Transfer.Import
import Syncle.Transfer.AllOrNothing
import Syncle.Shape.MaskedColumn
import Syncle.Payload.Transform
import Syncle.Payload.ByPosition
import Syncle.Payload.Rendered
import Syncle.Schedules.Reconcile
import Syncle.Schedules.InStep
import Syncle.Lib.Calendar
import Syncle.Values.Timestamps
import Syncle.Values.Readings
import Syncle.Values.SameInstant
import Syncle.Lib.Filling
import Syncle.Shape.RowKeys
import Syncle.DeadLetters.Settled
import Syncle.Echo.Guard
