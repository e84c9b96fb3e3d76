import DjangoAbsurd.Engine.State
import Mathlib.Algebra.Order.Floor.Defs
import Mathlib.Data.Rat.Floor

/-!
# The SQL functions of a queue

Every function runs in one transaction: it either changes the queue or raises and leaves
it as it was. `now` is `absurd.current_time()`. Double precision arithmetic is exact
rational arithmetic here, and a row locked by nobody is never skipped.
-/

namespace DjangoAbsurd.Engine

/-- What the SQL functions raise. The first three are the SQLSTATEs `AB001` to `AB003`. -/
inductive EngineError where
  | cancelled
  | runAlreadyFailed
  | invalidRetryStrategy (message : String)
  | invalidText
  | nameRequired (parameter : String)
  | maxAttempts (message : String)
  | keyCleanedUp (key : String)
  | keyWithoutRun (key : String)
  | runNotFound
  | runNotRunning
  | runCannotFail
  | taskNotFound
  | taskNotFailed
  | extendBy
  | noActiveClaim
  | negativeTimeout
  | negativeTtl
  deriving DecidableEq, Repr

/-- The PostgreSQL functions the SQL uses: the input functions of `double precision` and of the
integer types, the JSON text of a `timestamptz`, and the bytes of a `uuid` as one number, by which
uuids are ordered. -/
structure Postgres where
  toDouble : String → Option ℚ
  toInteger : String → Option ℤ
  timestampText : Time → String
  uuidNumber : Uuid → ℕ
  uuidNumber_injective : ∀ a b, uuidNumber a = uuidNumber b → a = b

/-- Seconds as microseconds. -/
def seconds (n : ℤ) : Time := n * 1000000

/-! ### Reading JSON -/

/-- `(j->>key)::double precision`. -/
def doubleMember (pg : Postgres) (j : Json) (key : String) : Except EngineError (Option ℚ) :=
  match j.get? key with
  | none | some .null => .ok none
  | some (.num d) => .ok (some d.toRat)
  | some (.str s) =>
      match pg.toDouble s with
      | some q => .ok (some q)
      | none => .error .invalidText
  | some _ => .error .invalidText

/-- `(j->>key)::integer`. A number written with a point is refused. -/
def integerMember (pg : Postgres) (j : Json) (key : String) : Except EngineError (Option ℤ) :=
  match j.get? key with
  | none | some .null => .ok none
  | some (.num d) => if d.scale = 0 then .ok (some d.digits) else .error .invalidText
  | some (.str s) =>
      match pg.toInteger s with
      | some n => .ok (some n)
      | none => .error .invalidText
  | some _ => .error .invalidText

/-- `j->>key` where only a string can be among the expected values. -/
def textMember (j : Json) (key : String) : Option String :=
  match j.get? key with
  | some (.str s) => some s
  | _ => none

/-! ### `absurd.retry_delay_seconds` -/

/-- The highest delay, in seconds. -/
def retryDelayLimit : ℚ := 86400

/-- The parameters of an exponential strategy, and its delay. -/
def exponentialDelay (pg : Postgres) (strategy : Json) (base : ℚ) (exponent : ℕ) :
    Except EngineError ℚ := do
  let factor := ((← doubleMember pg strategy "factor")).getD 2
  let maxSeconds := ((← doubleMember pg strategy "max_seconds")).getD retryDelayLimit
  if factor < 0 then
    throw (.invalidRetryStrategy "retry_strategy.factor must be a finite non-negative number")
  if maxSeconds < 0 ∨ retryDelayLimit < maxSeconds then
    throw (.invalidRetryStrategy "retry_strategy.max_seconds must be between 0 and 86400")
  if base = 0 then return 0
  return min (base * factor ^ exponent) maxSeconds

/-- `absurd.retry_delay_seconds`. -/
def retryDelaySeconds (pg : Postgres) (strategy : Option Json) (attempt : ℤ) :
    Except EngineError ℚ :=
  match strategy with
  | none => .ok 0
  | some (.obj members) =>
      let strategy := Json.obj members
      let delay : Except EngineError ℚ :=
        match strategy.get? "kind" with
        | none | some .null | some (.str "none") => .ok 0
        | some (.str "fixed") => do
            let base := (← doubleMember pg strategy "base_seconds").getD 60
            if base < 0 ∨ retryDelayLimit < base then
              throw (.invalidRetryStrategy
                "retry_strategy.base_seconds must be between 0 and 86400")
            return base
        | some (.str "exponential") => do
            let base := (← doubleMember pg strategy "base_seconds").getD 30
            if base < 0 ∨ retryDelayLimit < base then
              throw (.invalidRetryStrategy
                "retry_strategy.base_seconds must be between 0 and 86400")
            exponentialDelay pg strategy base (attempt - 1).toNat
        | some _ => .error (.invalidRetryStrategy "Unsupported retry strategy kind")
      match delay with
      | .error .invalidText =>
          .error (.invalidRetryStrategy "retry_strategy contains an invalid number")
      | result => result
  | some _ => .error (.invalidRetryStrategy "retry_strategy must be a JSON object")

/-! ### `absurd.spawn_task` -/

/-- What `absurd.spawn_task` and `absurd.retry_task` return. -/
structure Spawned where
  taskId : Uuid
  runId : Option Uuid
  attempt : ℤ
  created : Bool

/-- `length(trim(s)) = 0`. -/
def blank (s : String) : Bool := s.toList.all (· = ' ')

/-- The run a task starts with, or one of its later attempts. -/
def newRun (runId taskId : Uuid) (attempt : ℤ) (state : TaskState) (availableAt now : Time) :
    RunRow where
  runId
  taskId
  attempt
  state
  claimedBy := none
  claimExpiresAt := none
  availableAt := availableAt
  wakeEvent := none
  eventPayload := none
  startedAt := none
  completedAt := none
  failedAt := none
  result := none
  failureReason := none
  createdAt := now

/-- What `absurd.spawn_task` reads from its options. -/
structure SpawnOptions where
  headers : Option Json
  retryStrategy : Option Json
  maxAttempts : Option ℤ
  cancellation : Option Json
  idempotencyKey : Option String

/-- The options of `absurd.spawn_task`, checked. -/
def readSpawnOptions (pg : Postgres) (options : Json) : Except EngineError SpawnOptions := do
  let _ ← retryDelaySeconds pg (options.get? "retry_strategy") 1
  let maxAttempts ← integerMember pg options "max_attempts"
  if maxAttempts.any (· < 1) then
    throw (.maxAttempts "max_attempts must be >= 1")
  return {
    headers := options.get? "headers"
    retryStrategy := options.get? "retry_strategy"
    maxAttempts
    cancellation := options.get? "cancellation"
    idempotencyKey := textMember options "idempotency_key" }

/-- The task that already has the idempotency key, if there is one. -/
def findKey (s : QueueState) (key : String) : Except EngineError (Option Spawned) :=
  match s.storage with
  | .unpartitioned =>
      .ok ((s.tasks.rows.find? (fun t => t.idempotencyKey = some key)).map (fun t =>
        { taskId := t.taskId, runId := t.lastAttemptRun, attempt := t.attempts, created := false }))
  | .partitioned =>
      match s.keys.get? key with
      | none => .ok none
      | some k =>
          match s.tasks.get? k.taskId with
          | none => .error (.keyCleanedUp key)
          | some t =>
              if t.lastAttemptRun = none then .error (.keyWithoutRun key)
              else
                .ok (some { taskId := t.taskId, runId := t.lastAttemptRun,
                            attempt := t.attempts, created := false })

/-- The task a spawn with these options returns instead of inserting one. -/
def findExisting (s : QueueState) (options : SpawnOptions) :
    Except EngineError (Option Spawned) :=
  match options.idempotencyKey with
  | some key => findKey s key
  | none => .ok none

/-- The task row a spawn inserts. -/
def spawnedTask (s : QueueState) (now : Time) (name : String) (params : Json)
    (options : SpawnOptions) : TaskRow where
  taskId := ⟨s.drawn⟩
  taskName := name
  params
  headers := options.headers
  retryStrategy := options.retryStrategy
  maxAttempts := options.maxAttempts
  cancellation := options.cancellation
  enqueueAt := now
  firstStartedAt := none
  state := .pending
  attempts := 1
  lastAttemptRun := some ⟨s.drawn + 1⟩
  completedPayload := none
  cancelledAt := none
  idempotencyKey := options.idempotencyKey

/-- The queue with a new task and its first run. -/
def insertSpawned (s : QueueState) (now : Time) (t : TaskRow) : QueueState :=
  let s := { s with
    drawn := s.drawn + 2
    keys :=
      match s.storage, t.idempotencyKey with
      | .partitioned, some key => s.keys.put { idempotencyKey := key, taskId := t.taskId }
      | _, _ => s.keys }
  (s.insertTask t).insertRun (newRun ⟨t.taskId.index + 1⟩ t.taskId 1 .pending now now)

/-- `absurd.spawn_task`. -/
def spawnTask (pg : Postgres) (s : QueueState) (now : Time) (name : String) (params : Json)
    (options : Json) : Except EngineError (QueueState × Spawned) := do
  if blank name then throw (.nameRequired "task_name")
  let options ← readSpawnOptions pg options
  match ← findExisting s options with
  | some spawned => return ({ s with drawn := s.drawn + 2 }, spawned)
  | none =>
      return (insertSpawned s now (spawnedTask s now name params options),
        { taskId := ⟨s.drawn⟩, runId := some ⟨s.drawn + 1⟩, attempt := 1, created := true })

/-! ### `absurd.cancel_task` -/

/-- The task is cancelled at a time. -/
def TaskRow.cancel (now : Time) : Keyed.Edit TaskRow.taskId where
  apply t := { t with state := .cancelled, cancelledAt := t.cancelledAt.or (some now) }
  key_apply _ := rfl

/-- The run is cancelled. -/
def RunRow.cancel : RunEdit where
  apply r := { r with state := .cancelled, claimedBy := none, claimExpiresAt := none }
  key_apply _ := rfl
  taskId_apply _ := rfl

/-- A task and its active runs are cancelled. -/
def markCancelled (s : QueueState) (now : Time) (id : Uuid) : QueueState :=
  ((s.updateTask id (TaskRow.cancel now)).updateRuns (fun r => r.taskId = id ∧ r.Active)
    RunRow.cancel).deleteWaits (fun w => w.taskId = id)

/-- `absurd.cancel_task`. -/
def cancelTask (s : QueueState) (now : Time) (id : Uuid) : Except EngineError QueueState :=
  match s.tasks.get? id with
  | none => .error .taskNotFound
  | some t => if t.state.terminal then .ok s else .ok (markCancelled s now id)

/-! ### `absurd.complete_run`, `absurd.schedule_run` and `absurd.fail_run` -/

/-- The run is completed with a payload. -/
def RunRow.complete (now : Time) (payload : Option Json) : RunEdit where
  apply r := { r with state := .completed, completedAt := some now, result := payload }
  key_apply _ := rfl
  taskId_apply _ := rfl

/-- The task is completed by a run. -/
def TaskRow.complete (runId : Uuid) (payload : Option Json) : Keyed.Edit TaskRow.taskId where
  apply t :=
    { t with state := .completed, completedPayload := payload, lastAttemptRun := some runId }
  key_apply _ := rfl

/-- The run and its task are completed with a payload. -/
def markCompleted (s : QueueState) (now : Time) (r : RunRow) (payload : Option Json) :
    QueueState :=
  ((s.updateRun r.runId (RunRow.complete now payload)).updateTask r.taskId
    (TaskRow.complete r.runId payload)).deleteWaits (fun w => w.runId = r.runId)

/-- `absurd.complete_run`. -/
def completeRun (s : QueueState) (now : Time) (id : Uuid) (payload : Option Json) :
    Except EngineError QueueState :=
  match s.runs.get? id with
  | none => .error .runNotFound
  | some r =>
      match r.state with
      | .running => .ok (markCompleted s now r payload)
      | .cancelled => .error .cancelled
      | .failed => .error .runAlreadyFailed
      | _ => .error .runNotRunning

/-- The run sleeps until a time. -/
def RunRow.sleep (wakeAt : WithTop Time) : RunEdit where
  apply r :=
    { r with
      state := .sleeping
      claimedBy := none
      claimExpiresAt := none
      availableAt := wakeAt
      wakeEvent := none }
  key_apply _ := rfl
  taskId_apply _ := rfl

/-- The task is in a state. -/
def TaskRow.withState (state : TaskState) : Keyed.Edit TaskRow.taskId where
  apply t := { t with state }
  key_apply _ := rfl

/-- The run and its task sleep until a time. -/
def markScheduled (s : QueueState) (r : RunRow) (wakeAt : WithTop Time) : QueueState :=
  (s.updateRun r.runId (RunRow.sleep wakeAt)).updateTask r.taskId (TaskRow.withState .sleeping)

/-- `absurd.schedule_run`. -/
def scheduleRun (s : QueueState) (id : Uuid) (wakeAt : WithTop Time) :
    Except EngineError QueueState :=
  match s.runs.get? id with
  | none => .error .runNotRunning
  | some r => if r.state = .running then .ok (markScheduled s r wakeAt) else .error .runNotRunning

/-- The moment a failed run may be attempted again, not before `now`; `none` when the
retry strategy of its task is invalid. -/
def nextAvailable (pg : Postgres) (now : Time) (strategy : Option Json) (attempt : ℤ)
    (retryAt : Option Time) : Option Time :=
  match retryAt with
  | some at_ => some (max at_ now)
  | none =>
      match retryDelaySeconds pg strategy attempt with
      | .ok delay => some (max (now + ⌊delay * 1000000 + 1 / 2⌋) now)
      | .error _ => none

/-- The `max_duration` of a task that started has passed at a time. -/
def durationPassed (pg : Postgres) (cancellation : Option Json) (firstStartedAt at_ : Option Time) :
    Except EngineError Bool :=
  match cancellation with
  | none => .ok false
  | some cancellation => do
      match ← integerMember pg cancellation "max_duration", firstStartedAt, at_ with
      | some duration, some started, some at_ => return decide (seconds duration ≤ at_ - started)
      | _, _, _ => return false

/-- The run has failed. -/
def RunRow.fail (now : Time) (reason : Json) : RunEdit where
  apply r :=
    { r with
      state := .failed
      wakeEvent := none
      failedAt := some now
      failureReason := some reason }
  key_apply _ := rfl
  taskId_apply _ := rfl

/-- How `absurd.fail_run` leaves the task. -/
def TaskRow.settle (state : TaskState) (attempts : ℤ) (lastAttemptRun : Uuid)
    (cancelledAt : Option Time) : Keyed.Edit TaskRow.taskId where
  apply t :=
    { t with
      state
      attempts := max t.attempts attempts
      lastAttemptRun := some lastAttemptRun
      cancelledAt := t.cancelledAt.or cancelledAt }
  key_apply _ := rfl

/-- The run has failed, and its task is left in a state. -/
def markFailed (s : QueueState) (now : Time) (r : RunRow) (reason : Json)
    (task : Keyed.Edit TaskRow.taskId) : QueueState :=
  ((s.updateRun r.runId (RunRow.fail now reason)).updateTask r.taskId task).deleteWaits
    (fun w => w.runId = r.runId)

/-- The task has failed for good. -/
def failForGood (s : QueueState) (now : Time) (r : RunRow) (reason : Json) : QueueState :=
  markFailed s now r reason (TaskRow.settle .failed r.attempt r.runId none)

/-- The task is cancelled instead of attempted again. -/
def failCancelled (s : QueueState) (now : Time) (r : RunRow) (reason : Json) : QueueState :=
  markFailed s now r reason (TaskRow.settle .cancelled r.attempt r.runId (some now))

/-- The task gets another run, available at a time. -/
def failRetried (s : QueueState) (now : Time) (r : RunRow) (reason : Json) (available : Time) :
    QueueState :=
  let state := if now < available then .sleeping else .pending
  let s' := markFailed s now r reason (TaskRow.settle state (r.attempt + 1) ⟨s.drawn⟩ none)
  { s' with drawn := s.drawn + 1 }.insertRun
    (newRun ⟨s.drawn⟩ r.taskId (r.attempt + 1) state available now)

/-- An active run fails. -/
def failActive (pg : Postgres) (s : QueueState) (now : Time) (r : RunRow) (reason : Json)
    (retryAt : Option Time) : Except EngineError QueueState :=
  let t? := s.tasks.get? r.taskId
  if (t?.bind TaskRow.maxAttempts).any (· < r.attempt + 1) then .ok (failForGood s now r reason)
  else do
    let available := nextAvailable pg now (t?.bind TaskRow.retryStrategy) r.attempt retryAt
    if ← durationPassed pg (t?.bind TaskRow.cancellation) (t?.bind TaskRow.firstStartedAt)
        available then
      return failCancelled s now r reason
    else
      match available with
      | none => return failForGood s now r reason
      | some available => return failRetried s now r reason available

/-- `absurd.fail_run`. -/
def failRun (pg : Postgres) (s : QueueState) (now : Time) (id : Uuid) (reason : Json)
    (retryAt : Option Time) : Except EngineError QueueState :=
  match s.runs.get? id with
  | none => .error .runCannotFail
  | some r =>
      match r.state with
      | .cancelled => .error .cancelled
      | .failed => .error .runAlreadyFailed
      | .running => failActive pg s now r reason retryAt
      | .sleeping => failActive pg s now r reason retryAt
      | _ => .error .runCannotFail

/-! ### `absurd.retry_task` -/

/-- The task is pending again, with another run. -/
def TaskRow.retry (attempt maxAttempts : ℤ) (runId : Uuid) : Keyed.Edit TaskRow.taskId where
  apply t :=
    { t with
      state := .pending
      attempts := max t.attempts attempt
      maxAttempts := some maxAttempts
      lastAttemptRun := some runId
      cancelledAt := none }
  key_apply _ := rfl

/-- A failed task gets another attempt. -/
def markRetried (s : QueueState) (now : Time) (t : TaskRow) (maxAttempts : ℤ) : QueueState :=
  let s' := s.updateTask t.taskId (TaskRow.retry (t.attempts + 1) maxAttempts ⟨s.drawn⟩)
  { s' with drawn := s.drawn + 1 }.insertRun
    (newRun ⟨s.drawn⟩ t.taskId (t.attempts + 1) .pending now now)

/-- The options with which `absurd.retry_task` spawns a failed task anew. -/
def respawnOptions (t : TaskRow) (maxAttempts : Option ℤ) : Json :=
  Json.stripNulls (.obj [
    ("headers", t.headers.getD .null),
    ("retry_strategy", t.retryStrategy.getD .null),
    ("max_attempts", ((maxAttempts.or t.maxAttempts).map (fun n => Json.num ⟨n, 0⟩)).getD .null),
    ("cancellation", t.cancellation.getD .null)])

/-- `absurd.retry_task`. -/
def retryTask (pg : Postgres) (s : QueueState) (now : Time) (id : Uuid) (spawnNew : Bool)
    (maxAttempts : Option ℤ) : Except EngineError (QueueState × Spawned) :=
  if maxAttempts.any (· < 1) then .error (.maxAttempts "max_attempts must be >= 1")
  else
    match s.tasks.get? id with
    | none => .error .taskNotFound
    | some t =>
        if t.state = .failed then
          if spawnNew then
            spawnTask pg s now t.taskName t.params (respawnOptions t maxAttempts)
          else
            let requested := maxAttempts.getD (t.maxAttempts.getD t.attempts + 1)
            if requested ≤ t.attempts then
              .error (.maxAttempts "max_attempts must be greater than current attempts")
            else
              .ok (markRetried s now t requested,
                ⟨t.taskId, some ⟨s.drawn⟩, t.attempts + 1, false⟩)
        else .error .taskNotFailed

/-! ### `absurd.claim_task` -/

/-- A cancellation rule of the task applies at a time. -/
def cancellationDue (pg : Postgres) (now : Time) (t : TaskRow) : Except EngineError Bool :=
  match t.cancellation with
  | none => .ok false
  | some cancellation => do
      let maxDelay ← integerMember pg cancellation "max_delay"
      let maxDuration ← integerMember pg cancellation "max_duration"
      match t.firstStartedAt with
      | none => return maxDelay.any (fun d => seconds d ≤ now - t.enqueueAt)
      | some started => return maxDuration.any (fun d => seconds d ≤ now - started)

/-- The tasks a claim cancels. -/
def cancelCandidates (pg : Postgres) (s : QueueState) (now : Time) :
    Except EngineError (List Uuid) := do
  let due ← (s.tasks.rows.filter (fun t => !t.state.terminal)).filterM (cancellationDue pg now)
  return (due.map TaskRow.taskId).mergeSort (fun a b => pg.uuidNumber a ≤ pg.uuidNumber b)

/-- The failure reason of a run whose claim expired. -/
def claimTimeout (pg : Postgres) (r : RunRow) : Json :=
  .obj (
    [("name", .str "$ClaimTimeout"),
      ("message", .str "worker did not finish task within claim interval")]
    ++ (r.claimedBy.map (fun w => ("workerId", Json.str w))).toList
    ++ (r.claimExpiresAt.map (fun t => ("claimExpiredAt", Json.str (pg.timestampText t)))).toList
    ++ [("attempt", .num ⟨r.attempt, 0⟩)])

/-- The order of `claim_expires_at, run_id`. -/
def expiresBefore (pg : Postgres) (a b : RunRow) : Bool :=
  a.claimExpiresAt.getD 0 < b.claimExpiresAt.getD 0
    ∨ (a.claimExpiresAt.getD 0 = b.claimExpiresAt.getD 0
      ∧ pg.uuidNumber a.runId ≤ pg.uuidNumber b.runId)

/-- The order of `available_at, run_id`. -/
def availableBefore (pg : Postgres) (a b : RunRow) : Bool :=
  a.availableAt < b.availableAt
    ∨ (a.availableAt = b.availableAt ∧ pg.uuidNumber a.runId ≤ pg.uuidNumber b.runId)

/-- The running runs whose claim has expired, at most `limit` of them, oldest first. -/
def expiredRuns (pg : Postgres) (s : QueueState) (now : Time) (limit : ℕ) : List RunRow :=
  let expired := s.runs.rows.filter (fun r =>
    r.state = .running ∧ r.claimExpiresAt.any (· ≤ now))
  (expired.mergeSort (expiresBefore pg)).take limit

/-- The runs a claim takes, at most `limit` of them, the longest available first. -/
def claimCandidates (pg : Postgres) (s : QueueState) (now : Time) (limit : ℕ) : List RunRow :=
  let available := s.runs.rows.filter (fun r =>
    (r.state = .pending ∨ r.state = .sleeping)
      ∧ (s.tasks.get? r.taskId).any (fun t => !t.state.terminal)
      ∧ r.availableAt ≤ (now : WithTop Time))
  (available.mergeSort (availableBefore pg)).take limit

/-- The run is claimed by a worker until a time. -/
def RunRow.claim (now : Time) (worker : String) (claimUntil : Option Time) : RunEdit where
  apply r :=
    { r with
      state := .running
      claimedBy := some worker
      claimExpiresAt := claimUntil
      startedAt := some now
      availableAt := now }
  key_apply _ := rfl
  taskId_apply _ := rfl

/-- The task runs. -/
def TaskRow.claim (now : Time) (r : RunRow) : Keyed.Edit TaskRow.taskId where
  apply t :=
    { t with
      state := .running
      attempts := max t.attempts r.attempt
      firstStartedAt := t.firstStartedAt.or (some now)
      lastAttemptRun := some r.runId }
  key_apply _ := rfl

/-- A run is claimed until a time, and its task runs. -/
def markClaimed (now : Time) (worker : String) (claimUntil : Option Time) (s : QueueState)
    (r : RunRow) : QueueState :=
  ((s.updateRun r.runId (RunRow.claim now worker claimUntil)).updateTask r.taskId
    (TaskRow.claim now r)).deleteWaits (fun w => w.runId = r.runId ∧ w.timeoutAt.any (· ≤ now))

/-- `absurd.claim_task`: the queue and the ids of the runs claimed. A claim timeout of
zero claims without an expiry. -/
def claimTask (pg : Postgres) (s : QueueState) (now : Time) (worker : String)
    (timeout qty : ℤ) : Except EngineError (QueueState × List Uuid) := do
  let limit := (max qty 1).toNat
  let s ← (← cancelCandidates pg s now).foldlM (fun s id => cancelTask s now id) s
  let s ← (expiredRuns pg s now limit).foldlM
    (fun s r => failRun pg s now r.runId (claimTimeout pg r) none) s
  let claimed := claimCandidates pg s now limit
  let claimUntil := if 0 < timeout then some (now + seconds timeout) else none
  let worker := if worker = "" then "worker" else worker
  return (claimed.foldl (markClaimed now worker claimUntil) s, claimed.map RunRow.runId)

/-- A claim with nothing to cancel and nothing to expire takes its candidates. -/
theorem claimTask_of_quiet {pg : Postgres} {s : QueueState} {now : Time} {worker : String}
    {timeout qty : ℤ} {claimed : List RunRow} (hcancel : cancelCandidates pg s now = .ok [])
    (hexpired : expiredRuns pg s now (max qty 1).toNat = [])
    (hclaimed : claimCandidates pg s now (max qty 1).toNat = claimed) :
  claimTask pg s now worker timeout qty
    = .ok (claimed.foldl (markClaimed now (if worker = "" then "worker" else worker)
        (if 0 < timeout then some (now + seconds timeout) else none)) s,
      claimed.map RunRow.runId)
  := by
  rw [← hclaimed, claimTask, hcancel]
  simp only [bind, Except.bind, List.foldlM_nil, pure, Except.pure, hexpired]

/-! ### Checkpoints and leases -/

/-- The claim of a running run expires later, when it expires at all. -/
def RunRow.extendClaim (claimUntil : Time) : RunEdit where
  apply r :=
    if r.state = .running ∧ r.claimExpiresAt ≠ none then
      { r with claimExpiresAt := some claimUntil }
    else r
  key_apply r := by split <;> rfl
  taskId_apply r := by split <;> rfl

/-- `absurd.set_task_checkpoint_state`. -/
def setTaskCheckpointState (s : QueueState) (now : Time) (taskId : Uuid) (stepName : String)
    (state : Option Json) (ownerRun : Uuid) (extendClaimBy : Option ℤ) :
    Except EngineError QueueState :=
  if blank stepName then .error (.nameRequired "step_name")
  else
    match s.runs.get? ownerRun with
    | none => .error .runNotFound
    | some r =>
        match s.tasks.get? r.taskId with
        | none => .error .runNotFound
        | some t =>
            if t.state = .cancelled then .error .cancelled
            else if r.state = .failed then .error .runAlreadyFailed
            else
              let s :=
                match extendClaimBy with
                | some extendBy =>
                    if 0 < extendBy then s.updateRun ownerRun (RunRow.extendClaim (now + seconds extendBy)) else s
                | none => s
              let attempt? :=
                ((s.checkpoints.get? (taskId, stepName)).bind CheckpointRow.ownerRunId).bind
                  (fun owner => (s.runs.get? owner).map RunRow.attempt)
              if attempt?.all (· ≤ r.attempt) then
                .ok (s.putCheckpoint
                  { taskId, checkpointName := stepName, state, ownerRunId := some ownerRun,
                    updatedAt := now })
              else .ok s

/-- `absurd.extend_claim`. -/
def extendClaim (s : QueueState) (now : Time) (id : Uuid) (extendBy : ℤ) :
    Except EngineError QueueState :=
  if extendBy ≤ 0 then .error .extendBy
  else
    match s.runs.get? id with
    | none => .error .runNotFound
    | some r =>
        match s.tasks.get? r.taskId with
        | none => .error .runNotFound
        | some t =>
            if t.state = .cancelled then .error .cancelled
            else if r.state = .failed then .error .runAlreadyFailed
            else if r.state ≠ .running then .error .runNotRunning
            else if r.claimExpiresAt = none then .error .noActiveClaim
            else .ok (s.updateRun id (RunRow.extendClaim (now + seconds extendBy)))

/-! ### Events -/

/-- The run waits for an event, up to a timeout. -/
def RunRow.wait (eventName : String) (timeoutAt : Option Time) : RunEdit where
  apply r :=
    { r with
      state := .sleeping
      claimedBy := none
      claimExpiresAt := none
      availableAt := timeoutAt.elim ⊤ (fun t => (t : WithTop Time))
      wakeEvent := some eventName
      eventPayload := none }
  key_apply _ := rfl
  taskId_apply _ := rfl

/-- The run has taken note of the payload it was woken with. -/
def RunRow.clearPayload : RunEdit where
  apply r := { r with eventPayload := none }
  key_apply _ := rfl
  taskId_apply _ := rfl

/-- The run has taken note of the event it was woken for. -/
def RunRow.clearWakeEvent : RunEdit where
  apply r := { r with wakeEvent := none }
  key_apply _ := rfl
  taskId_apply _ := rfl

/-- The run wakes with the payload of an event. -/
def RunRow.wake (now : Time) (payload : Json) : RunEdit where
  apply r :=
    { r with
      state := .pending
      availableAt := now
      wakeEvent := none
      eventPayload := some payload
      claimedBy := none
      claimExpiresAt := none }
  key_apply _ := rfl
  taskId_apply _ := rfl

/-- The run and its task wait for an event, up to a timeout. -/
def markWaiting (s : QueueState) (now : Time) (taskId runId : Uuid) (stepName eventName : String)
    (timeoutAt : Option Time) : QueueState :=
  let s := { s with
    waits := s.waits.put { taskId, runId, stepName, eventName, timeoutAt, createdAt := now } }
  (s.updateRun runId (RunRow.wait eventName timeoutAt)).updateTask taskId
    (TaskRow.withState .sleeping)

/-- A row for the event, without a payload until it is emitted. -/
def ensureEvent (s : QueueState) (eventName : String) : QueueState :=
  match s.events.get? eventName with
  | some _ => s
  | none => { s with events := s.events.put { eventName, payload := none, emittedAt := 0 } }

/-- `absurd.await_event`: the queue, whether the run suspends, and the payload. -/
def awaitEvent (s : QueueState) (now : Time) (taskId runId : Uuid) (stepName eventName : String)
    (timeout : Option ℤ) : Except EngineError (QueueState × Bool × Option Json) :=
  if blank eventName then .error (.nameRequired "event_name")
  else if timeout.any (· < 0) then .error .negativeTimeout
  else
    match (s.checkpoints.get? (taskId, stepName)).bind CheckpointRow.state with
    | some payload => .ok (s, false, some payload)
    | none =>
        match s.runs.get? runId with
        | none => .error .runNotFound
        | some r =>
            match s.tasks.get? r.taskId with
            | none => .error .runNotFound
            | some t =>
                if t.state = .cancelled then .error .cancelled
                else if r.state ≠ .running then .error .runNotRunning
                else
                  let s := (ensureEvent s eventName).updateRun runId RunRow.clearPayload
                  match (s.events.get? eventName).bind EventRow.payload with
                  | some payload =>
                      .ok (s.putCheckpoint
                          { taskId, checkpointName := stepName, state := some payload,
                            ownerRunId := some runId, updatedAt := now },
                        false, some payload)
                  | none =>
                      if r.wakeEvent = some eventName ∧ r.eventPayload = none then
                        .ok (s.updateRun runId RunRow.clearWakeEvent, false, none)
                      else
                        .ok (markWaiting s now taskId runId stepName eventName
                          (timeout.map (fun t => now + seconds t)), true, none)

/-- A run that waits for the event wakes with its payload. -/
def markWoken (now : Time) (payload : Json) (s : QueueState) (w : WaitRow) : QueueState :=
  ((s.updateRun w.runId (RunRow.wake now payload)).putCheckpoint
    { taskId := w.taskId, checkpointName := w.stepName, state := some payload,
      ownerRunId := some w.runId, updatedAt := now }).deleteWaits
    (fun w' => w'.eventName = w.eventName ∧ w'.runId = w.runId)

/-- `absurd.emit_event`. -/
def emitEvent (s : QueueState) (now : Time) (eventName : String) (payload : Option Json) :
    Except EngineError QueueState :=
  if blank eventName then .error (.nameRequired "event_name")
  else if ((s.events.get? eventName).bind EventRow.payload).isSome then .ok s
  else
    let payload := payload.getD .null
    let s := { s with
      events := s.events.put { eventName, payload := some payload, emittedAt := now } }
    let s := s.deleteWaits (fun w =>
      w.eventName = eventName ∧ w.timeoutAt.any (· ≤ now))
    let affected := s.waits.rows.filter (fun w => w.eventName = eventName)
    let woken := affected.filter (fun w => (s.runs.get? w.runId).any (·.state = .sleeping))
    let taskIds := woken.filterMap (fun w => (s.runs.get? w.runId).map RunRow.taskId)
    let s := woken.foldl (markWoken now payload) s
    .ok (taskIds.foldl (fun s id => s.updateTask id (TaskRow.withState .pending)) s)

/-! ### `absurd.cleanup_all_queues` -/

/-- The moment a terminal task ended. -/
def terminalAt (s : QueueState) (t : TaskRow) : Option Time :=
  let run := t.lastAttemptRun.bind s.runs.get?
  match t.state with
  | .completed => run.bind RunRow.completedAt
  | .failed => run.bind RunRow.failedAt
  | .cancelled => t.cancelledAt
  | _ => none

/-- A terminal task that ended before the cutoff. -/
def cleanable (s : QueueState) (cutoff : Time) (t : TaskRow) : Bool :=
  t.state.terminal ∧ (terminalAt s t).any (· < cutoff)

/-- The ids a cleanup may take: `limit` of the cleanable tasks, the ones that ended first.
Which of two tasks that ended at the same time goes first is open. -/
def IsCleanupBatch (s : QueueState) (cutoff : Time) (limit : ℕ) (batch : List Uuid) : Prop :=
  let eligible := s.tasks.rows.filter (cleanable s cutoff)
  batch.Nodup
    ∧ (∀ id ∈ batch, id ∈ eligible.map TaskRow.taskId)
    ∧ batch.length = min limit eligible.length
    ∧ ∀ t ∈ eligible, t.taskId ∈ batch → ∀ t' ∈ eligible, t'.taskId ∉ batch →
        (terminalAt s t).getD 0 ≤ (terminalAt s t').getD 0

instance (s : QueueState) (cutoff : Time) (limit : ℕ) (batch : List Uuid) :
    Decidable (IsCleanupBatch s cutoff limit batch) :=
  inferInstanceAs (Decidable (_ ∧ _ ∧ _ ∧ _))

/-- Tasks are deleted with everything that belongs to them. -/
def deleteTasks (s : QueueState) (batch : List Uuid) : QueueState :=
  { s with
    tasks := s.tasks.delete (fun t => t.taskId ∈ batch)
    runs := s.runs.delete (fun r => r.taskId ∈ batch)
    checkpoints := s.checkpoints.delete (fun c => c.taskId ∈ batch)
    waits := s.waits.delete (fun w => w.taskId ∈ batch)
    keys := s.keys.delete (fun k => s.storage = .partitioned ∧ k.taskId ∈ batch) }

/-- `absurd.cleanup_tasks`, taking the tasks of `batch`. -/
def cleanupTasks (s : QueueState) (now : Time) (ttlSeconds : ℤ) (limit : ℕ)
    (batch : List Uuid) : Option QueueState :=
  if 0 ≤ ttlSeconds ∧ IsCleanupBatch s (now - seconds ttlSeconds) limit batch then
    some (deleteTasks s batch)
  else none

/-- `absurd.cleanup_events`, taking the events of `batch`. -/
def cleanupEvents (s : QueueState) (now : Time) (ttlSeconds : ℤ) (limit : ℕ)
    (batch : List String) : Option QueueState :=
  let old := s.events.rows.filter (fun e => e.emittedAt < now - seconds ttlSeconds)
  if 0 ≤ ttlSeconds ∧ batch.Nodup ∧ (∀ name ∈ batch, name ∈ old.map EventRow.eventName)
      ∧ batch.length = min limit old.length then
    some { s with events := s.events.delete (fun e => e.eventName ∈ batch) }
  else none

end DjangoAbsurd.Engine
