import DjangoAbsurd.Engine.State
import DjangoAbsurd.Library.Memo

/-!
# The models of the queue tables

`build_queue_table_model` builds a Django model for a table of a queue, once: Django keeps
every model in a registry under the lowercased model name, and a model found there is
returned as it is. `fetch_task_and_run` and `fetch_run_outcome` read a queue through these
models.

The model name is made from the queue name with `-` replaced by `_`. So the models are the
queues' own exactly when no two queues in use agree up to this replacement and case.
-/

namespace DjangoAbsurd

open Engine

/-- The column types of `FIELD_TYPE_MAP`. -/
inductive ColumnType where
  | uuid
  | text
  | int
  | jsonb
  | timestamptz
  deriving DecidableEq, Repr

/-- What building models and views reads of an entity: its name, the letter its tables
start with, its union view and its columns. -/
structure EntitySpec where
  name : String
  tablePrefix : String
  viewName : String
  columns : List (String × ColumnType)
  deriving DecidableEq, Repr

def tasksSpec : EntitySpec where
  name := "tasks"
  tablePrefix := "t"
  viewName := "tasks_view"
  columns := [
    ("task_id", .uuid), ("task_name", .text), ("params", .jsonb), ("headers", .jsonb),
    ("retry_strategy", .jsonb), ("max_attempts", .int), ("cancellation", .jsonb),
    ("enqueue_at", .timestamptz), ("first_started_at", .timestamptz), ("state", .text),
    ("attempts", .int), ("last_attempt_run", .uuid), ("completed_payload", .jsonb),
    ("cancelled_at", .timestamptz), ("idempotency_key", .text)]

def runsSpec : EntitySpec where
  name := "runs"
  tablePrefix := "r"
  viewName := "runs_view"
  columns := [
    ("run_id", .uuid), ("task_id", .uuid), ("attempt", .int), ("state", .text),
    ("claimed_by", .text), ("claim_expires_at", .timestamptz), ("available_at", .timestamptz),
    ("wake_event", .text), ("event_payload", .jsonb), ("started_at", .timestamptz),
    ("completed_at", .timestamptz), ("failed_at", .timestamptz), ("result", .jsonb),
    ("failure_reason", .jsonb), ("created_at", .timestamptz)]

def checkpointsSpec : EntitySpec where
  name := "checkpoints"
  tablePrefix := "c"
  viewName := "checkpoints_view"
  columns := [
    ("task_id", .uuid), ("checkpoint_name", .text), ("state", .jsonb), ("status", .text),
    ("owner_run_id", .uuid), ("updated_at", .timestamptz)]

def eventsSpec : EntitySpec where
  name := "events"
  tablePrefix := "e"
  viewName := "events_view"
  columns := [("event_name", .text), ("payload", .jsonb), ("emitted_at", .timestamptz)]

def waitsSpec : EntitySpec where
  name := "waits"
  tablePrefix := "w"
  viewName := "waits_view"
  columns := [
    ("task_id", .uuid), ("run_id", .uuid), ("step_name", .text), ("event_name", .text),
    ("timeout_at", .timestamptz), ("created_at", .timestamptz)]

/-- `ADMIN_ENTITY_SPECS`. -/
def adminEntitySpecs : List EntitySpec :=
  [tasksSpec, runsSpec, checkpointsSpec, eventsSpec, waitsSpec]

@[simp]
theorem tasksSpec_mem : tasksSpec ∈ adminEntitySpecs := List.mem_cons_self

@[simp]
theorem runsSpec_mem : runsSpec ∈ adminEntitySpecs := List.mem_cons_of_mem _ List.mem_cons_self

/-! ### Identifiers -/

/-- Every quotation mark is doubled. -/
def doubleQuotes : List Char → List Char
  | [] => []
  | c :: cs => if c = '"' then '"' :: '"' :: doubleQuotes cs else c :: doubleQuotes cs

/-- A quoted SQL identifier. -/
def quoteIdentifier (s : String) : String :=
  String.ofList ('"' :: (doubleQuotes s.toList ++ ['"']))

/-- `psycopg.sql.Identifier("absurd", f"{spec.prefix}_{queue}").as_string(None)`. -/
def dbTable (spec : EntitySpec) (queue : String) : String :=
  quoteIdentifier "absurd" ++ "." ++ quoteIdentifier (spec.tablePrefix ++ "_" ++ queue)

theorem doubleQuotes_injective :
    ∀ {cs ds : List Char}, doubleQuotes cs = doubleQuotes ds → cs = ds
  | [], [], _ => rfl
  | [], d :: ds, h => by
      unfold doubleQuotes at h
      split at h <;> cases h
  | c :: cs, [], h => by
      unfold doubleQuotes at h
      split at h <;> cases h
  | c :: cs, d :: ds, h => by
      have ih : doubleQuotes cs = doubleQuotes ds → cs = ds := doubleQuotes_injective
      unfold doubleQuotes at h
      split at h
      · rename_i hc
        split at h
        · rename_i hd
          rw [hc, hd, ih (List.cons.inj (List.cons.inj h).2).2]
        · rename_i hd
          exact absurd (List.cons.inj h).1.symm hd
      · rename_i hc
        split at h
        · exact absurd (List.cons.inj h).1 hc
        · rw [(List.cons.inj h).1, ih (List.cons.inj h).2]

theorem quoteIdentifier_injective {s t : String} (h : quoteIdentifier s = quoteIdentifier t) :
  s = t
  := by
  have hlist := congrArg String.toList h
  simp only [quoteIdentifier, String.toList_ofList, List.cons.injEq, true_and,
    List.append_left_inj] at hlist
  apply String.toList_injective
  apply doubleQuotes_injective hlist

theorem toList_append_right {a b c : String} (h : a ++ b = a ++ c) :
  b = c
  := by
  apply String.toList_injective
  have hlist := congrArg String.toList h
  rwa [String.toList_append, String.toList_append, List.append_right_inj] at hlist

/-- The tables of different queues, or of different entities, have different names. -/
theorem dbTable_injective {spec spec' : EntitySpec} {queue queue' : String}
    (hlen : spec.tablePrefix.length = spec'.tablePrefix.length)
    (h : dbTable spec queue = dbTable spec' queue') :
  spec.tablePrefix = spec'.tablePrefix ∧ queue = queue'
  := by
  have hquote := quoteIdentifier_injective (toList_append_right h)
  have hlist := congrArg String.toList hquote
  simp only [String.toList_append, List.append_assoc] at hlist
  obtain ⟨hletter, hrest⟩ := List.append_inj hlist (by
    rw [String.length_toList, String.length_toList, hlen])
  constructor
  · apply String.toList_injective hletter
  · apply String.toList_injective
    simpa using hrest

/-! ### `build_queue_table_model` -/

/-- A model of a queue's table: what its `Meta` and its fields say. -/
structure QueueTableModel where
  dbTable : String
  pk : Option String
  columns : List (String × ColumnType)
  deriving DecidableEq

/-- Python's `str.lower`, of which the registry keys need that it works letter by letter
before an underscore. -/
structure PythonLower where
  lower : String → String
  lower_modelName : ∀ spec ∈ adminEntitySpecs, ∀ s,
    lower ("QueueTable_" ++ spec.tablePrefix ++ "_" ++ s)
      = "queuetable_" ++ spec.tablePrefix ++ "_" ++ lower s

/-- The model the class statement defines. -/
def queueTableModel (a : EntitySpec × String) : QueueTableModel where
  dbTable := dbTable a.1 a.2
  pk := a.1.columns.head?.map Prod.fst
  columns := a.1.columns

/-- The queue name as a part of the model name. -/
def sanitizedQueue (queue : String) : String := replaceChar queue '-' '_'

/-- `model_name.lower()`. -/
def registryKey (py : PythonLower) (a : EntitySpec × String) : String :=
  py.lower ("QueueTable_" ++ a.1.tablePrefix ++ "_" ++ sanitizedQueue a.2)

/-- `PRIVATE_ADMIN_APPS.all_models["django_absurd"]`. -/
abbrev Registry := Memo String QueueTableModel

/-- `build_queue_table_model`: the model and the registry after the call. -/
def buildQueueTableModel (py : PythonLower) (registry : Registry) (spec : EntitySpec)
    (queue : String) : QueueTableModel × Registry :=
  registry.call (registryKey py) queueTableModel (spec, queue)

/-- The registry after a sequence of calls in a fresh process. -/
def registryAfter (py : PythonLower) (history : List (EntitySpec × String)) : Registry :=
  Memo.calls (registryKey py) queueTableModel [] history

/-- What a queue name becomes in the registry. -/
def foldedQueue (py : PythonLower) (queue : String) : String := py.lower (sanitizedQueue queue)

theorem tablePrefix_length : ∀ spec ∈ adminEntitySpecs, spec.tablePrefix.length = 1
  := by
  decide

theorem eq_of_tablePrefix_eq :
  ∀ spec ∈ adminEntitySpecs, ∀ spec' ∈ adminEntitySpecs,
    spec.tablePrefix = spec'.tablePrefix → spec = spec'
  := by
  decide

/-- Two calls share a registry key when they are for the same entity and their queue names
fold to the same text. -/
theorem registryKey_eq_iff (py : PythonLower) {spec spec' : EntitySpec}
    (hspec : spec ∈ adminEntitySpecs) (hspec' : spec' ∈ adminEntitySpecs) (q q' : String) :
  registryKey py (spec, q) = registryKey py (spec', q')
    ↔ spec = spec' ∧ foldedQueue py q = foldedQueue py q'
  := by
  rw [registryKey, registryKey, py.lower_modelName spec hspec, py.lower_modelName spec' hspec']
  constructor
  · intro h
    have hlist := congrArg String.toList h
    simp only [String.toList_append, List.append_assoc, List.append_right_inj] at hlist
    obtain ⟨hletter, hrest⟩ := List.append_inj hlist (by
      rw [String.length_toList, String.length_toList, tablePrefix_length spec hspec,
        tablePrefix_length spec' hspec'])
    constructor
    · apply eq_of_tablePrefix_eq spec hspec spec' hspec'
      apply String.toList_injective hletter
    · apply String.toList_injective
      rwa [List.append_right_inj] at hrest
  · rintro ⟨rfl, hfold⟩
    rw [foldedQueue] at hfold
    rw [hfold, foldedQueue]

/-- Different calls are for different tables. -/
theorem queueTableModel_dbTable_inj {a b : EntitySpec × String} (ha : a.1 ∈ adminEntitySpecs)
    (hb : b.1 ∈ adminEntitySpecs)
    (h : (queueTableModel a).dbTable = (queueTableModel b).dbTable) :
  a = b
  := by
  obtain ⟨hletter, hqueue⟩ := dbTable_injective (by
    rw [tablePrefix_length _ ha, tablePrefix_length _ hb]) h
  apply Prod.ext
  · apply eq_of_tablePrefix_eq _ ha _ hb hletter
  · apply hqueue

/-! ### Reading a queue -/

/-- The relations of the database by their quoted names, where they exist. -/
structure Database where
  tasks : String → Option (Keyed.Table TaskRow.taskId)
  runs : String → Option (Keyed.Table RunRow.runId)

/-- What reading a result may raise. `importRaised` is what importing a path raises that is no
`ImportError`. -/
inductive ResultError where
  | taskResultDoesNotExist (resultId : String)
  | validationError (value : String)
  | programmingError
  | runDoesNotExist (runId : Uuid)
  | improperlyConfigured (message : String)
  | importRaised (path : String)
  | attributeError
  | invalidTask (queueName : String)
  | malformedParams
  | recursionError
  deriving DecidableEq, Repr

/-- The workers that claimed runs of a task, in the order of the attempts. -/
def readWorkerIds (runs : Keyed.Table RunRow.runId) (id : Uuid) : List String :=
  ((runs.rows.filter (fun r => r.taskId = id)).mergeSort
    (fun a b => a.attempt ≤ b.attempt)).filterMap RunRow.claimedBy

/-- The reads of `fetch_task_and_run`, from a tasks relation and a runs relation. Only the
first read takes a missing relation for a missing task. -/
def readTaskAndRun (ids : UuidText) (tasks : Option (Keyed.Table TaskRow.taskId))
    (runs : Option (Keyed.Table RunRow.runId)) (taskId resultId : String) :
    Except ResultError (TaskRow × Option RunRow × List String) :=
  match ids.parse taskId with
  | none => .error (.validationError taskId)
  | some id =>
      match tasks.bind (fun tasks => tasks.get? id) with
      | none => .error (.taskResultDoesNotExist resultId)
      | some task =>
          match runs with
          | none => .error .programmingError
          | some runs =>
              .ok (task, task.lastAttemptRun.bind runs.get?, readWorkerIds runs id)

/-- `fetch_task_and_run`, and the registry after it. -/
def fetchTaskAndRun (py : PythonLower) (ids : UuidText) (registry : Registry) (db : Database)
    (queue taskId resultId : String) :
    Except ResultError (TaskRow × Option RunRow × List String) × Registry :=
  let (taskModel, registry) := buildQueueTableModel py registry tasksSpec queue
  let (runModel, registry) := buildQueueTableModel py registry runsSpec queue
  (readTaskAndRun ids (db.tasks taskModel.dbTable) (db.runs runModel.dbTable) taskId resultId,
    registry)

/-- The read of `fetch_run_outcome`, from a runs relation. -/
def readRunOutcome (runs : Option (Keyed.Table RunRow.runId)) (runId : Uuid) :
    Except ResultError (TaskState × Option Json × Option Json) :=
  match runs with
  | none => .error .programmingError
  | some runs =>
      match runs.get? runId with
      | none => .error (.runDoesNotExist runId)
      | some r => .ok (r.state, r.result, r.failureReason)

/-- `fetch_run_outcome`, and the registry after it. -/
def fetchRunOutcome (py : PythonLower) (registry : Registry) (db : Database) (queue : String)
    (runId : Uuid) : Except ResultError (TaskState × Option Json × Option Json) × Registry :=
  let (runModel, registry) := buildQueueTableModel py registry runsSpec queue
  (readRunOutcome (db.runs runModel.dbTable) runId, registry)

/-- The registry gives the entity's own table of the queue. -/
def Owns (py : PythonLower) (registry : Registry) (spec : EntitySpec) (queue : String) : Prop :=
  (buildQueueTableModel py registry spec queue).1 = queueTableModel (spec, queue)

/-- Reading a queue leaves the registry giving the queue's own tables. -/
theorem owns_call {py : PythonLower} {registry : Registry} {spec spec' : EntitySpec}
    (hspec : spec ∈ adminEntitySpecs) (hspec' : spec' ∈ adminEntitySpecs) {queue : String}
    (h : Owns py registry spec queue) :
  Owns py (buildQueueTableModel py registry spec' queue).2 spec queue
  := by
  unfold Owns buildQueueTableModel at *
  by_cases hs : spec' = spec
  · subst hs
    rw [Memo.call_call_self, h]
  · rw [Memo.call_call_of_ne, h]
    intro hk
    apply hs ((registryKey_eq_iff py hspec' hspec queue queue).mp hk).1

/-- Where the registry gives the queue's own tables, `fetch_task_and_run` reads them. -/
theorem fetchTaskAndRun_of_owns {py : PythonLower} (ids : UuidText) {registry : Registry}
    (db : Database) {queue : String} (htasks : Owns py registry tasksSpec queue)
    (hruns : Owns py registry runsSpec queue) (taskId resultId : String) :
  (fetchTaskAndRun py ids registry db queue taskId resultId).1
      = readTaskAndRun ids (db.tasks (dbTable tasksSpec queue))
          (db.runs (dbTable runsSpec queue)) taskId resultId
    ∧ Owns py (fetchTaskAndRun py ids registry db queue taskId resultId).2 tasksSpec queue
    ∧ Owns py (fetchTaskAndRun py ids registry db queue taskId resultId).2 runsSpec queue
  := by
  have hruns' := owns_call runsSpec_mem tasksSpec_mem hruns
  have htasks' := owns_call tasksSpec_mem tasksSpec_mem htasks
  constructor
  · have htask : (buildQueueTableModel py registry tasksSpec queue).1.dbTable
        = dbTable tasksSpec queue := congrArg QueueTableModel.dbTable htasks
    have hrun := congrArg QueueTableModel.dbTable hruns'
    simp only [fetchTaskAndRun, htask, hrun]
    rfl
  · exact ⟨owns_call tasksSpec_mem runsSpec_mem htasks', owns_call runsSpec_mem runsSpec_mem hruns'⟩

/-! ### When every read is of the queue's own tables -/

/-- After any calls for the queues of `S`, every model for such a queue is of its own
table, and so are the reads of `fetch_task_and_run` and `fetch_run_outcome`. -/
def ReadsOwnTables (py : PythonLower) (ids : UuidText) (S : Set String) : Prop :=
  ∀ history : List (EntitySpec × String),
    (∀ a ∈ history, a.1 ∈ adminEntitySpecs ∧ a.2 ∈ S) →
    ∀ queue ∈ S,
      (∀ spec ∈ adminEntitySpecs,
        (buildQueueTableModel py (registryAfter py history) spec queue).1.dbTable
          = dbTable spec queue)
      ∧ ∀ db : Database,
        (∀ taskId resultId,
          (fetchTaskAndRun py ids (registryAfter py history) db queue taskId resultId).1
            = readTaskAndRun ids (db.tasks (dbTable tasksSpec queue))
                (db.runs (dbTable runsSpec queue)) taskId resultId)
        ∧ ∀ runId,
          (fetchRunOutcome py (registryAfter py history) db queue runId).1
            = readRunOutcome (db.runs (dbTable runsSpec queue)) runId

/-- The calls for the queues of `S`. -/
def callsFor (S : Set String) : Set (EntitySpec × String) :=
  {a | a.1 ∈ adminEntitySpecs ∧ a.2 ∈ S}

/-- The registry is faithful on the queues of `S` exactly when no two of them fold to the
same text. -/
theorem faithful_callsFor_iff (py : PythonLower) (S : Set String) :
  Memo.Faithful (registryKey py) queueTableModel [] (callsFor S)
    ↔ Set.InjOn (foldedQueue py) S
  := by
  rw [Memo.faithful_iff (fun _ _ => rfl)]
  constructor
  · intro h q hq q' hq' hfold
    have hkey := (registryKey_eq_iff py tasksSpec_mem tasksSpec_mem q q').mpr ⟨rfl, hfold⟩
    have hmodel := h (tasksSpec, q) ⟨tasksSpec_mem, hq⟩ (tasksSpec, q') ⟨tasksSpec_mem, hq'⟩ hkey
    have heq := queueTableModel_dbTable_inj (a := (tasksSpec, q)) (b := (tasksSpec, q')) tasksSpec_mem tasksSpec_mem
      (congrArg QueueTableModel.dbTable hmodel)
    exact congrArg Prod.snd heq
  · rintro h ⟨spec, q⟩ ⟨hspec, hq⟩ ⟨spec', q'⟩ ⟨hspec', hq'⟩ hkey
    obtain ⟨hs, hfold⟩ := (registryKey_eq_iff py hspec hspec' q q').mp hkey
    obtain rfl : spec = spec' := hs
    obtain rfl : q = q' := h hq hq' hfold
    rfl

/-- Models of own tables make the registry faithful. -/
theorem faithful_of_dbTable (py : PythonLower) {S : Set String}
    (h : ∀ history : List (EntitySpec × String), (∀ a ∈ history, a ∈ callsFor S) →
      ∀ queue ∈ S, ∀ spec ∈ adminEntitySpecs,
        (buildQueueTableModel py (registryAfter py history) spec queue).1.dbTable
          = dbTable spec queue) :
  Set.InjOn (foldedQueue py) S
  := by
  intro q hq q' hq' hfold
  have hkey := (registryKey_eq_iff py tasksSpec_mem tasksSpec_mem q q').mpr ⟨rfl, hfold⟩
  have hown := h [(tasksSpec, q)] (by simp [callsFor, hq]) q' hq' tasksSpec tasksSpec_mem
  have hlookup : Memo.lookup (registryAfter py [(tasksSpec, q)]) (registryKey py (tasksSpec, q))
      = some (queueTableModel (tasksSpec, q)) := Memo.lookup_call_self _
  have hkept : (buildQueueTableModel py (registryAfter py [(tasksSpec, q)]) tasksSpec q').1
      = queueTableModel (tasksSpec, q) := by
    rw [buildQueueTableModel, Memo.call_fst, ← hkey, hlookup, Option.getD_some]
  rw [hkept] at hown
  have heq := queueTableModel_dbTable_inj (a := (tasksSpec, q)) (b := (tasksSpec, q')) tasksSpec_mem tasksSpec_mem
    hown
  exact congrArg Prod.snd heq

/-- Every model and every read is of the queue's own tables, after all histories, if and
only if no two queues in use become the same text when `-` is replaced by `_` and letters
are lowercased. -/
theorem readsOwnTables_iff (py : PythonLower) (ids : UuidText) (S : Set String) :
  ReadsOwnTables py ids S ↔ Set.InjOn (foldedQueue py) S
  := by
  constructor
  · intro h
    apply faithful_of_dbTable py
    intro history hhistory queue hqueue
    apply (h history hhistory queue hqueue).1
  · intro h history hhistory queue hqueue
    have hfaithful := (faithful_callsFor_iff py S).mpr h history hhistory
    have howns : ∀ spec ∈ adminEntitySpecs, Owns py (registryAfter py history) spec queue :=
      fun spec hspec => hfaithful (spec, queue) ⟨hspec, hqueue⟩
    constructor
    · intro spec hspec
      exact congrArg QueueTableModel.dbTable (howns spec hspec)
    · intro db
      constructor
      · intro taskId resultId
        apply (fetchTaskAndRun_of_owns _ _ (howns _ tasksSpec_mem) (howns _ runsSpec_mem) taskId resultId).1
      · intro runId
        have hrun := congrArg QueueTableModel.dbTable (howns _ runsSpec_mem)
        simp only [fetchRunOutcome, hrun]
        rfl

/-- `str.lower` on ASCII text. -/
def asciiLower : PythonLower where
  lower s := String.ofList (s.toList.map Char.toLower)
  lower_modelName := by
    intro spec hspec s
    apply String.toList_injective
    simp only [String.toList_ofList, String.toList_append, List.map_append]
    congr 1
    revert spec
    decide

/-- Ids printed in unary. -/
def unaryIds : UuidText where
  print id := String.ofList (List.replicate id.index 'i')
  parse s := some ⟨s.toList.length⟩
  parse_print id := by simp
  colon_not_mem id := by simp [List.mem_replicate]

/-- The queues `my-queue` and `my_queue` share their models. -/
theorem hyphen_shares_underscore :
  ¬ ∀ (py : PythonLower) (ids : UuidText) (queues : List String), queues.Nodup →
      ReadsOwnTables py ids {queue | queue ∈ queues}
  := by
  intro h
  have hreads := h asciiLower unaryIds ["my-queue", "my_queue"] (by decide)
  have hinj : Set.InjOn (foldedQueue asciiLower) {queue | queue ∈ ["my-queue", "my_queue"]} := by
    apply faithful_of_dbTable asciiLower
    intro history hhistory queue hqueue
    apply (hreads history hhistory queue hqueue).1
  have hleft : "my-queue" ∈ {queue | queue ∈ ["my-queue", "my_queue"]} := List.mem_cons_self
  have hright : "my_queue" ∈ {queue | queue ∈ ["my-queue", "my_queue"]} :=
    List.mem_cons_of_mem _ List.mem_cons_self
  have hfold : foldedQueue asciiLower "my-queue" = foldedQueue asciiLower "my_queue" := by
    simp [foldedQueue, asciiLower, sanitizedQueue, replaceChar]
  have heq : "my-queue" = "my_queue" := hinj hleft hright hfold
  simp at heq

end DjangoAbsurd
