import DjangoAbsurd.AdminViews
import DjangoAbsurd.Tasks

/-!
# Enqueueing through an Absurd backend

`AbsurdBackend.enqueue` spawns one row: the caller's task, or for a deferred task a wrapper
that carries the caller's call and the options it would be spawned with. What the SDK sends
to `absurd.spawn_task` is a `SpawnRequest`, its values as `json.dumps` writes them; what
comes of it is the function `spawn`.
-/

namespace DjangoAbsurd

open Engine (Time Uuid UuidText)

/-- The keyword arguments of a call. -/
abbrev Kwargs := List (String × PyValue)

/-- A dictionary with string keys. -/
def pyDict (members : Kwargs) : PyValue :=
  .dict (members.map (fun m => (PyKey.str m.1, m.2)))

/-- The members of a dictionary with string keys, as `json.dumps` writes them. -/
def dumpsKwargs (members : Kwargs) : Option (List (String × Json)) :=
  members.mapM (fun m => (dumps m.2).map (fun j => (m.1, j)))

@[simp]
theorem dumpsKwargs_nil : dumpsKwargs [] = some [] := rfl

@[simp]
theorem dumpsKwargs_cons (key : String) (v : PyValue) (members : Kwargs) :
  dumpsKwargs ((key, v) :: members)
    = (dumps v).bind (fun j => (dumpsKwargs members).map ((key, j) :: ·))
  := by
  rw [dumpsKwargs, List.mapM_cons, dumpsKwargs]
  cases dumps v with
  | none => rfl
  | some j => cases List.mapM (fun m => (dumps m.2).map (fun j => (m.1, j))) members <;> rfl

theorem dumps_pyDict (members : Kwargs) :
  dumps (pyDict members) = (dumpsKwargs members).map .obj
  := by
  suffices h : dumpsMembers (members.map (fun m => (PyKey.str m.1, m.2))) = dumpsKwargs members by
    rw [pyDict, dumps, h]
  induction members with
  | nil => rfl
  | cons m ms ih =>
      rw [List.map_cons, dumpsMembers, ih, dumpsKwargs_cons]
      rfl

/-- The members of an object, as `json.loads` reads them. -/
def loadsKwargs (members : List (String × Json)) : Kwargs :=
  members.map (fun m => (m.1, loads m.2))

theorem dumpsKwargs_loadsKwargs (members : List (String × Json)) :
  dumpsKwargs (loadsKwargs members) = some members
  := by
  induction members with
  | nil => rfl
  | cons m ms ih =>
      rw [loadsKwargs] at ih
      rw [loadsKwargs, List.map_cons, dumpsKwargs_cons, dumps_loads, ih]
      rfl

/-- The status of a task. -/
inductive TaskResultStatus where
  | ready
  | running
  | failed
  | successful
  deriving DecidableEq, Repr

/-- `django.tasks.base.TaskError`. -/
structure ResultFailure where
  exceptionClassPath : PyValue
  traceback : PyValue

/-- A `TaskResult`. `returnValue` is its `_return_value`, where that is set. -/
structure TaskResult where
  task : Task
  id : String
  status : TaskResultStatus
  enqueuedAt : Option Time
  startedAt : Option Time
  finishedAt : Option Time
  lastAttemptedAt : Option Time
  args : PyValue
  kwargs : PyValue
  backend : String
  errors : List ResultFailure
  workerIds : List String
  returnValue : Option PyValue

/-- What `client.spawn` sends: the database, the name, the params, the queue and the
options that are set. -/
structure SpawnRequest where
  database : String
  name : String
  params : Json
  queue : String
  options : SpawnField → Option Json

/-- What `client.spawn` may raise. `namesQueueTable` is what `names_a_queue_table` says of
the error. -/
inductive SpawnError where
  | undefinedTable (namesQueueTable : Bool)
  | undefinedFunction
  | invalidSchemaName
  | other (message : String)
  deriving DecidableEq, Repr

/-- What enqueueing may raise. -/
inductive EnqueueError where
  | task (e : TaskError)
  | importError (path : String)
  | notSerializable
  | malformedParams
  | queueNotDeclared (queue backend : String) (valid : List String)
  | schemaNotInstalled
  | queueNotProvisioned (queue : String)
  | spawn (e : SpawnError)
  | foreign (message : String)
  deriving DecidableEq, Repr

/-- `client.spawn` on the databases as they are: the id of the row, or the error. -/
abbrev Spawn := SpawnRequest → Except SpawnError Uuid

/-- `DEFER_NAME_SUFFIX`. -/
def deferNameSuffix : String := ":run_after"

/-- What Django's `import_string` comes to: a task, an object without the attributes of a task,
an `ImportError`, or another exception that the module raises. -/
inductive Imported where
  | task (t : Task)
  | object
  | importError
  | raised

/-- The task that is imported. -/
def Imported.task? : Imported → Option Task
  | .task t => some t
  | .object | .importError | .raised => none

/-- What the project and its Python provide: the configured backends, what is imported from a
dotted path, the local time zone, the formats of times, ids and values. A colon cannot appear
in the dotted path of a task. -/
structure Project where
  backends : TaskBackends
  imports : String → Imported
  imports_plain : ∀ {path t}, imports path = .task t → endsWith path deferNameSuffix = false
  makeAware : Time → Time
  isoformat : Time → String
  ids : UuidText
  str : PyValue → String
  str_str : ∀ s, str (.str s) = s
  /-- `enqueue` of the backends that are not an `AbsurdBackend`. -/
  foreignEnqueue : Backend → Task → List PyValue → Kwargs → Except EnqueueError TaskResult

/-- The task at a dotted path. -/
def Project.importString (p : Project) (path : String) : Option Task := (p.imports path).task?

theorem Project.importString_eq_some {p : Project} {path : String} {t : Task} :
  p.importString path = some t ↔ p.imports path = .task t
  := by
  rw [Project.importString]
  cases p.imports path <;> simp [Imported.task?]

theorem Project.importString_plain {p : Project} {path : String} {t : Task}
    (h : p.importString path = some t) :
  endsWith path deferNameSuffix = false
  := by
  apply p.imports_plain
  apply Project.importString_eq_some.mp h

/-- `normalize_to_utc`. -/
def normalizeToUtc (p : Project) (moment : DateTime) : Time :=
  if moment.aware then moment.moment else p.makeAware moment.moment

/-- A layer with a value for `max_attempts` alone. -/
def maxAttemptsOnly (n : ℤ) : SpawnKwargs
  | .maxAttempts => some (.int n)
  | _ => none

/-- The options of an enqueue: the task's parameters, with the backend's default for
`max_attempts`. -/
def spawnOptions (config : AbsurdConfig) (t : Task) : SpawnKwargs :=
  overlay (maxAttemptsOnly config.defaultMaxAttempts) (buildMergedSpawnOptions t.params none)

/-- The options of a wrapper: the backend's default for `max_attempts`, and a key derived
from the caller's when there is one. -/
def wrapperOptions (p : Project) (config : AbsurdConfig) (merged : SpawnKwargs) : SpawnKwargs
  | .maxAttempts => some (.int config.defaultMaxAttempts)
  | .idempotencyKey => (merged .idempotencyKey).map (fun key => .str (p.str key ++ deferNameSuffix))
  | _ => none

/-- The params of a call. -/
def callParams (args : List PyValue) (kwargs : Kwargs) : PyValue :=
  pyDict [("args", .list args), ("kwargs", pyDict kwargs)]

/-- The params of a wrapper. -/
def wrapperParams (p : Project) (queue : String) (merged : SpawnKwargs) (due : DateTime)
    (args : List PyValue) (kwargs : Kwargs) : PyValue :=
  callParams []
    [("args", .list args), ("kwargs", pyDict kwargs), ("queue", .str queue),
      ("options", pyDict merged.toDict), ("due", .str (p.isoformat (normalizeToUtc p due)))]

/-- The name, the params and the options a task is spawned with. -/
def prepareSpawn (p : Project) (config : AbsurdConfig) (t : Task) (args : List PyValue)
    (kwargs : Kwargs) : String × PyValue × SpawnKwargs :=
  let merged := spawnOptions config t
  match t.runAfter with
  | none => (t.modulePath, callParams args kwargs, merged)
  | some due =>
      (t.modulePath ++ deferNameSuffix, wrapperParams p t.queueName merged due args kwargs,
        wrapperOptions p config merged)

/-- The options as `json.dumps` writes them. -/
def dumpsOptions (options : SpawnKwargs) : Option (SpawnField → Option Json) :=
  if ∀ f ∈ SpawnField.all, (options f).all (fun v => (dumps v).isSome) then
    some (fun f => (options f).bind dumps)
  else none

/-- The request of a spawn, unless a value is not serializable. -/
def buildSpawnRequest (database queue : String) :
    String × PyValue × SpawnKwargs → Except EnqueueError SpawnRequest
  | (name, params, options) =>
      match dumps params, dumpsOptions options with
      | some params, some options => .ok { database, name, params, queue, options }
      | _, _ => .error .notSerializable

/-- The request a task is spawned with, when it can be written. -/
def spawnRequest (p : Project) (config : AbsurdConfig) (t : Task) (args : List PyValue)
    (kwargs : Kwargs) : Except EnqueueError SpawnRequest :=
  buildSpawnRequest config.database t.queueName (prepareSpawn p config t args kwargs)

/-- What `enqueue` raises for an error of the spawn. -/
def classifySpawnError (b : Backend) (config : AbsurdConfig) (t : Task) :
    SpawnError → EnqueueError
  | .other message => .spawn (.other message)
  | e =>
      if t.queueName ∉ config.declaredQueues then
        .queueNotDeclared t.queueName t.backend b.queues
      else
        match e with
        | .undefinedTable true => .queueNotProvisioned t.queueName
        | .undefinedTable false => .spawn e
        | _ => .schemaNotInstalled

/-- `AbsurdBackend.enqueue`, through the backend the task names. -/
def absurdEnqueue (p : Project) (spawn : Spawn) (now : Time) (b : Backend)
    (config : AbsurdConfig) (t : Task) (args : List PyValue) (kwargs : Kwargs) :
    Except EnqueueError TaskResult :=
  if b.validates t then
    match spawnRequest p config t args kwargs with
    | .error e => .error e
    | .ok request =>
        match spawn request with
        | .error e => .error (classifySpawnError b config t e)
        | .ok id =>
            .ok {
              task := t
              id := t.queueName ++ ":" ++ p.ids.print id
              status := .ready
              enqueuedAt := some now
              startedAt := none
              finishedAt := none
              lastAttemptedAt := none
              args := .list args
              kwargs := pyDict kwargs
              backend := t.backend
              errors := []
              workerIds := []
              returnValue := none }
  else .error (.task (.invalidTask t.backend t.queueName))

/-- A keyword argument `self` collides with that of the `enqueue` of the class. -/
def selfCollides (taskClass : TaskClass) : EnqueueError :=
  .task (.typeError (taskClass.name ++ ".enqueue() got multiple values for argument 'self'"))

/-- `Task.enqueue`, and `AbsurdTask.enqueue`, which may warn before. -/
def Task.enqueue (p : Project) (spawn : Spawn) (now : Time) (t : Task) (args : List PyValue)
    (kwargs : Kwargs) : Except EnqueueError TaskResult :=
  if "self" ∈ kwargs.map Prod.fst then
    .error (selfCollides t.taskClass)
  else
    match p.backends t.backend with
    | none => .error (.task (.invalidTaskBackend t.backend))
    | some b =>
        match b.absurd with
        | some config => absurdEnqueue p spawn now b config t args kwargs
        | none => p.foreignEnqueue b t args kwargs

/-! ### What an enqueue sends -/

/-- An enqueue through an Absurd backend succeeds with an id when the request can be
written and the spawn of it gives that id. -/
theorem enqueue_isOk_iff {p : Project} {spawn : Spawn} {now : Time} {t : Task} {b : Backend}
    {config : AbsurdConfig} {args : List PyValue} {kwargs : Kwargs}
    (hb : p.backends t.backend = some b) (hconfig : b.absurd = some config) :
  (∃ result, t.enqueue p spawn now args kwargs = .ok result)
    ↔ "self" ∉ kwargs.map Prod.fst ∧ b.validates t = true
      ∧ ∃ request id, spawnRequest p config t args kwargs = .ok request ∧ spawn request = .ok id
  := by
  unfold Task.enqueue absurdEnqueue
  rw [hb]
  simp only [hconfig]
  by_cases hself : "self" ∈ kwargs.map Prod.fst
  · simp only [hself, if_true, not_true, false_and, iff_false]
    rintro ⟨result, hresult⟩
    cases hresult
  · simp only [hself, if_false, not_false_eq_true, true_and]
    cases hvalid : b.validates t with
    | false => simp
    | true =>
        simp only [if_true, true_and]
        cases hrequest : spawnRequest p config t args kwargs with
        | error e => simp
        | ok request =>
            cases hspawn : spawn request with
            | error e => simp [hspawn]
            | ok id => simp [hspawn]

/-- The result of an enqueue through an Absurd backend. -/
theorem enqueue_eq_ok {p : Project} {spawn : Spawn} {now : Time} {t : Task} {b : Backend}
    {config : AbsurdConfig} {args : List PyValue} {kwargs : Kwargs} {result : TaskResult}
    (hb : p.backends t.backend = some b) (hconfig : b.absurd = some config)
    (h : t.enqueue p spawn now args kwargs = .ok result) :
  ∃ request id, spawnRequest p config t args kwargs = .ok request ∧ spawn request = .ok id
    ∧ result.task = t ∧ result.backend = t.backend
    ∧ result.id = t.queueName ++ ":" ++ p.ids.print id
  := by
  unfold Task.enqueue absurdEnqueue at h
  rw [hb] at h
  simp only [hconfig] at h
  split at h
  · cases h
  · split at h
    · split at h
      · cases h
      · rename_i request hrequest
        split at h
        · cases h
        · rename_i id hspawn
          cases h
          exact ⟨request, id, hrequest, hspawn, rfl, rfl, rfl⟩
    · cases h

end DjangoAbsurd
