import DjangoAbsurd.Library.Table
import DjangoAbsurd.Python
import Mathlib.Order.WithBot

/-!
# The tables of a queue

A queue is its tables `t_`, `r_`, `c_`, `e_`, `w_` and, when it is partitioned, `i_`. Times
are microseconds since the epoch. `absurd.portable_uuidv7` never returns a value twice, so
an id is identified by its place in the order in which ids are drawn.

The rows have the columns of `absurd.ensure_queue_tables` that some modelled function reads.
-/

namespace DjangoAbsurd.Engine

/-- Microseconds since the epoch. -/
abbrev Time := ℤ

/-- The order of times is the one of the integers. It is named here so that the comparisons of
the functions below are computed. -/
instance (priority := high) timePreorder : Preorder Time :=
  Int.instLinearOrder.toPartialOrder.toPreorder

/-- The `index`-th value `absurd.portable_uuidv7` returned. -/
structure Uuid where
  index : ℕ
  deriving DecidableEq, Repr

/-- The text form of ids: `str(uuid)` and what a lookup by an id reads from a text. -/
structure UuidText where
  print : Uuid → String
  parse : String → Option Uuid
  parse_print : ∀ id, parse (print id) = some id
  colon_not_mem : ∀ id, ':' ∉ (print id).toList

/-- The states a task or a run may be in. -/
inductive TaskState where
  | pending
  | running
  | sleeping
  | completed
  | failed
  | cancelled
  deriving DecidableEq, Repr

/-- A state in `('completed', 'failed', 'cancelled')`. -/
def TaskState.terminal : TaskState → Bool
  | .completed | .failed | .cancelled => true
  | .pending | .running | .sleeping => false

/-- A row of `t_<queue>`. -/
structure TaskRow where
  taskId : Uuid
  taskName : String
  params : Json
  headers : Option Json
  retryStrategy : Option Json
  maxAttempts : Option ℤ
  cancellation : Option Json
  enqueueAt : Time
  firstStartedAt : Option Time
  state : TaskState
  attempts : ℤ
  lastAttemptRun : Option Uuid
  completedPayload : Option Json
  cancelledAt : Option Time
  idempotencyKey : Option String

/-- A row of `r_<queue>`. `availableAt` is `⊤` for PostgreSQL's `'infinity'`. -/
structure RunRow where
  runId : Uuid
  taskId : Uuid
  attempt : ℤ
  state : TaskState
  claimedBy : Option String
  claimExpiresAt : Option Time
  availableAt : WithTop Time
  wakeEvent : Option String
  eventPayload : Option Json
  startedAt : Option Time
  completedAt : Option Time
  failedAt : Option Time
  result : Option Json
  failureReason : Option Json
  createdAt : Time

/-- A change of a run that leaves its id and its task as they are. -/
structure RunEdit extends Keyed.Edit RunRow.runId where
  taskId_apply : ∀ r, (apply r).taskId = r.taskId

/-- A run that is not in a terminal state. -/
def RunRow.Active (r : RunRow) : Prop := r.state.terminal = false

instance (r : RunRow) : Decidable r.Active := inferInstanceAs (Decidable (_ = _))

/-- A row of `c_<queue>`. -/
structure CheckpointRow where
  taskId : Uuid
  checkpointName : String
  state : Option Json
  ownerRunId : Option Uuid
  updatedAt : Time

/-- The primary key of `c_<queue>`. -/
def CheckpointRow.key (c : CheckpointRow) : Uuid × String := (c.taskId, c.checkpointName)

/-- A row of `e_<queue>`, with no payload until the event is emitted. -/
structure EventRow where
  eventName : String
  payload : Option Json
  emittedAt : Time

/-- A row of `w_<queue>`. -/
structure WaitRow where
  taskId : Uuid
  runId : Uuid
  stepName : String
  eventName : String
  timeoutAt : Option Time
  createdAt : Time

/-- The primary key of `w_<queue>`. -/
def WaitRow.key (w : WaitRow) : Uuid × String := (w.runId, w.stepName)

/-- A row of `i_<queue>`. -/
structure IdempotencyRow where
  idempotencyKey : String
  taskId : Uuid

/-- The values of `storage_mode`. -/
inductive StorageMode where
  | unpartitioned
  | partitioned
  deriving DecidableEq, Repr

/-- The tables of a queue and the number of ids drawn so far. -/
structure QueueState where
  storage : StorageMode
  tasks : Keyed.Table TaskRow.taskId
  runs : Keyed.Table RunRow.runId
  checkpoints : Keyed.Table CheckpointRow.key
  events : Keyed.Table EventRow.eventName
  waits : Keyed.Table WaitRow.key
  keys : Keyed.Table IdempotencyRow.idempotencyKey
  drawn : ℕ

namespace QueueState

/-- The queue as `absurd.ensure_queue_tables` creates it. -/
def create (storage : StorageMode) : QueueState where
  storage
  tasks := .empty _
  runs := .empty _
  checkpoints := .empty _
  events := .empty _
  waits := .empty _
  keys := .empty _
  drawn := 0

/-- `update absurd.t_<queue> set … where task_id = id`. -/
def updateTask (s : QueueState) (id : Uuid) (e : Keyed.Edit TaskRow.taskId) : QueueState :=
  { s with tasks := s.tasks.update (fun t => t.taskId = id) e }

/-- `update absurd.r_<queue> set … where …`. -/
def updateRuns (s : QueueState) (p : RunRow → Bool) (e : RunEdit) : QueueState :=
  { s with runs := s.runs.update p e.toEdit }

/-- `update absurd.r_<queue> set … where run_id = id`. -/
def updateRun (s : QueueState) (id : Uuid) (e : RunEdit) : QueueState :=
  s.updateRuns (fun r => r.runId = id) e

/-- `insert into absurd.r_<queue>`. -/
def insertRun (s : QueueState) (r : RunRow) : QueueState :=
  { s with runs := s.runs.put r }

/-- `insert into absurd.t_<queue>`. -/
def insertTask (s : QueueState) (t : TaskRow) : QueueState :=
  { s with tasks := s.tasks.put t }

/-- `insert into absurd.c_<queue> … on conflict do update`. -/
def putCheckpoint (s : QueueState) (c : CheckpointRow) : QueueState :=
  { s with checkpoints := s.checkpoints.put c }

/-- `delete from absurd.w_<queue> where …`. -/
def deleteWaits (s : QueueState) (p : WaitRow → Bool) : QueueState :=
  { s with waits := s.waits.delete p }

end QueueState

end DjangoAbsurd.Engine
