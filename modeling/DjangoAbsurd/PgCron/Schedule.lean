import DjangoAbsurd.Scheduler.Beat

/-!
# Scheduled tasks in the database

The `pg_cron` scheduler keeps a `ScheduledTask` row for every schedule. `sync_crons` resolves
the spawn options of the task when it writes the row, flattened into typed columns, and
`django_absurd_run_scheduled` puts the options together again when the job of the row fires.

The columns of the row convert the values they are given and refuse the ones they cannot
hold; what they make of a value is the structure `Columns`.
-/

namespace DjangoAbsurd

/-- `Source`. -/
inductive Source where
  | settings
  | admin
  deriving DecidableEq, Repr

/-- The stored value of a source. -/
def Source.value : Source → String
  | .settings => "s"
  | .admin => "a"

/-- What an integer, a double precision and a text column hold for a value that is not null,
when they take it, and what PostgreSQL reads for `value::int`. -/
structure Columns where
  integer : Json → Option ℤ
  double : Json → Option Decimal
  text : Json → Option String
  castInteger : Json → Option ℤ
  castInteger_integer : ∀ {j n}, integer j = some n → castInteger (.num ⟨n, 0⟩) = some n

/-- The columns of a `ScheduledTask` for the spawn options. -/
structure OptionColumns where
  maxAttempts : Option ℤ
  retryKind : String
  retryBaseSeconds : Option Decimal
  retryFactor : Option Decimal
  retryMaxSeconds : Option Decimal
  cancellationMaxDuration : Option ℤ
  cancellationMaxDelay : Option ℤ
  headers : Option Json
  idempotencyKey : String
  deriving DecidableEq

/-- `ScheduledTask`, without its timestamps. -/
structure ScheduledTask where
  source : Source
  name : String
  task : String
  queue : String
  args : Json
  kwargs : Json
  options : OptionColumns
  cron : String
  enabled : Bool
  deriving DecidableEq

/-! ### Writing the row -/

/-- Whether Python takes a value for true. -/
def Json.truthy : Json → Bool
  | .null => false
  | .bool b => b
  | .num d => d.digits ≠ 0
  | .str s => s ≠ ""
  | .arr items => !items.isEmpty
  | .obj members => !members.isEmpty

/-- `value or {}`, when that is a dictionary. -/
def dictOrEmpty (option : Option Json) : Option Json :=
  match option.filter Json.truthy with
  | none => some (.obj [])
  | some (.obj members) => some (.obj members)
  | some _ => none

/-- A nullable column: no value and `None` are NULL. -/
def nullable {α : Type} (convert : Json → Option α) : Option Json → Option (Option α)
  | none | some .null => some none
  | some j => (convert j).map some

/-- A text column for `value or ""`. -/
def textOrBlank (columns : Columns) (option : Option Json) : Option String :=
  match option.filter Json.truthy with
  | none => some ""
  | some j => columns.text j

/-- `resolve_spawn_options`. -/
def resolveSpawnOptions (p : Project) (sdk : Sdk) (config : AbsurdConfig) (taskPath : String) :
    Option (SpawnField → Option Json) := do
  let t ← p.importString taskPath
  let merged := overlay (maxAttemptsOnly config.defaultMaxAttempts)
    (buildMergedSpawnOptions t.func.absurdParams none)
  sdk.options (← dumpsOptions merged)

/-- The columns of a row for normalized options, with the check that `max_attempts` is
positive. -/
def buildOptionColumns (columns : Columns) (opts : SpawnField → Option Json) :
    Option OptionColumns := do
  let retryStrategy ← dictOrEmpty (opts .retryStrategy)
  let cancellation ← dictOrEmpty (opts .cancellation)
  let maxAttempts ← nullable columns.integer (opts .maxAttempts)
  guard (maxAttempts.all (fun n => decide (1 ≤ n)) = true)
  return {
    maxAttempts
    retryKind := ← textOrBlank columns (retryStrategy.get? "kind")
    retryBaseSeconds := ← nullable columns.double (retryStrategy.get? "base_seconds")
    retryFactor := ← nullable columns.double (retryStrategy.get? "factor")
    retryMaxSeconds := ← nullable columns.double (retryStrategy.get? "max_seconds")
    cancellationMaxDuration := ← nullable columns.integer (cancellation.get? "max_duration")
    cancellationMaxDelay := ← nullable columns.integer (cancellation.get? "max_delay")
    headers := (opts .headers).filter (· ≠ .null)
    idempotencyKey := ← textOrBlank columns (opts .idempotencyKey) }

/-- `build_scheduled_fields`: the queue and the option columns. -/
def buildScheduledFields (p : Project) (sdk : Sdk) (columns : Columns) (config : AbsurdConfig)
    (taskPath : String) (queueOverride : Option String) : Option (String × OptionColumns) := do
  let t ← p.importString taskPath
  let queue := (queueOverride.filter (· ≠ "")).getD t.queueName
  let opts ← resolveSpawnOptions p sdk config taskPath
  return (queue, ← buildOptionColumns columns opts)

/-- The row `sync_crons` writes for a schedule. -/
def scheduledRow (p : Project) (sdk : Sdk) (columns : Columns) (config : AbsurdConfig)
    (schedule : Schedule) : Option ScheduledTask := do
  let (queue, options) ← buildScheduledFields p sdk columns config schedule.task schedule.queue
  return {
    source := .settings
    name := schedule.name
    task := schedule.task
    queue
    args := .arr (← dumpsItems schedule.args)
    kwargs := .obj (← dumpsKwargs schedule.kwargs)
    options
    cron := schedule.cron
    enabled := true }

/-! ### Running the row -/

/-- `jsonb_strip_nulls(jsonb_build_object(…))` of nullable columns. -/
def buildObject (members : List (String × Option Json)) : Json :=
  .obj (members.filterMap (fun m => m.2.map (fun j => (m.1, j))))

/-- An integer column in `jsonb_build_object`. -/
def ofInteger (n : ℤ) : Json := .num ⟨n, 0⟩

/-- The options `django_absurd_run_scheduled` puts together. -/
def scheduledOptions (v : OptionColumns) : SpawnField → Option Json
  | .maxAttempts => v.maxAttempts.map ofInteger
  | .retryStrategy =>
      if v.retryKind ≠ "" then
        some (buildObject [("kind", some (.str v.retryKind)),
          ("base_seconds", v.retryBaseSeconds.map .num), ("factor", v.retryFactor.map .num),
          ("max_seconds", v.retryMaxSeconds.map .num)])
      else none
  | .headers => v.headers
  | .cancellation =>
      if v.cancellationMaxDuration.isSome || v.cancellationMaxDelay.isSome then
        some (buildObject [("max_duration", v.cancellationMaxDuration.map ofInteger),
          ("max_delay", v.cancellationMaxDelay.map ofInteger)])
      else none
  | .idempotencyKey => if v.idempotencyKey ≠ "" then some (.str v.idempotencyKey) else none

/-- `django_absurd_run_scheduled`, up to its call of `absurd.spawn_task`. -/
def runScheduled (v : ScheduledTask) : Option SpawnCall :=
  if v.enabled then
    some {
      queue := v.queue
      name := v.task
      params := .obj [("args", v.args), ("kwargs", v.kwargs)]
      options := scheduledOptions v.options }
  else none

/-- The call of a schedule's job, once `sync_crons` has written its row. -/
def pgCronCall (p : Project) (sdk : Sdk) (columns : Columns) (config : AbsurdConfig)
    (schedule : Schedule) : Option SpawnCall :=
  (scheduledRow p sdk columns config schedule).bind runScheduled

end DjangoAbsurd
