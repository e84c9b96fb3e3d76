import DjangoAbsurd.Library.Table
import DjangoAbsurd.Library.Machine
import DjangoAbsurd.Library.Overlay
import DjangoAbsurd.Library.Memo
import DjangoAbsurd.Python
import DjangoAbsurd.Worker.Loop
import DjangoAbsurd.Worker.Window
import DjangoAbsurd.Worker.Exit
import DjangoAbsurd.Engine.Operations
import DjangoAbsurd.Engine.Invariant
import DjangoAbsurd.Engine.Evolution
import DjangoAbsurd.AdminViews
import DjangoAbsurd.Backends
import DjangoAbsurd.Deferred
import DjangoAbsurd.Results
import DjangoAbsurd.Scheduler.Cron
import DjangoAbsurd.Scheduler.Beat
import DjangoAbsurd.PgCron.Lanes
import DjangoAbsurd.PgCron.Catalog
import DjangoAbsurd.PgCron.Reconcile
import DjangoAbsurd.PgCron.Convergence
import DjangoAbsurd.PgCron.Isolation
import DjangoAbsurd.Scheduler.Settings
import DjangoAbsurd.Library.Cadence
import DjangoAbsurd.Scheduler.Loop
import DjangoAbsurd.Engine.Lifecycle
import DjangoAbsurd.Engine.Consistency
import DjangoAbsurd.Engine.History
import DjangoAbsurd.Interleaving
import DjangoAbsurd.Spawning
import DjangoAbsurd.Masking
import DjangoAbsurd.Engine.Attempts
import DjangoAbsurd.Attempts
import DjangoAbsurd.Engine.Keys
import DjangoAbsurd.Scheduler.Processes
import DjangoAbsurd.Engine.Checkpoints
import DjangoAbsurd.Waking.Targets
import DjangoAbsurd.Queues.Convergence
import DjangoAbsurd.PgCron.Tenancy
import DjangoAbsurd.Testing.Clock
import DjangoAbsurd.Testing.Release
import DjangoAbsurd.Library.Observed
import DjangoAbsurd.Observability
import DjangoAbsurd.Engine.Sweep
import DjangoAbsurd.Worker.Drain
import DjangoAbsurd.Engine.Finality
import DjangoAbsurd.Worker.Announcements
import DjangoAbsurd.Worker.Acknowledgements
import DjangoAbsurd.Worker.Leases
import DjangoAbsurd.Layering
import DjangoAbsurd.Benchmarks.IdleSlots
import DjangoAbsurd.Benchmarks.StatementStats
import DjangoAbsurd.Library.Spans
import DjangoAbsurd.PgCron.Grammar
import DjangoAbsurd.Flush
import DjangoAbsurd.Benchmarks.Runner
import DjangoAbsurd.Library.WordSearch
import DjangoAbsurd.Queues.Attribution
import DjangoAbsurd.NaturalKeys
import DjangoAbsurd.Answers
import DjangoAbsurd.Library.Spread
import DjangoAbsurd.Benchmarks.Producer
import DjangoAbsurd.Waking.Chains
import DjangoAbsurd.Engine.Budget
import DjangoAbsurd.Engine.Integrity
import DjangoAbsurd.Engine.Storage
import DjangoAbsurd.Engine.Cancellation
import DjangoAbsurd.Engine.Cleanup
import DjangoAbsurd.Engine.Fairness
import DjangoAbsurd.Engine.Fencing
import DjangoAbsurd.Engine.Replay
import DjangoAbsurd.Engine.Timeouts
import DjangoAbsurd.Engine.Answers
import DjangoAbsurd.Engine.Idempotency
import DjangoAbsurd.Partitions.Pipelines
