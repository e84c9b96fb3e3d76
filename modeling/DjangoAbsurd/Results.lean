import DjangoAbsurd.Deferred
import DjangoAbsurd.Engine.Evolution
import DjangoAbsurd.Library.Fallible

/-!
# Reading results

`get_result` decodes an id into a queue and a task, reads the task's row and its runs, and
builds a `TaskResult`. The id a deferred enqueue returned names its wrapper; once the
wrapper is completed its payload is the id of the task it enqueued, and `get_result` goes on
with that.

So the id describes the enqueued task from the wrapper's completion until a cleanup takes
the wrapper, whether or not the enqueued task's row is still there.
-/

namespace DjangoAbsurd

open Engine

/-- `decode_result_id`. -/
def decodeResultId (resultId : String) : Except ResultError (String × String) :=
  match rsplitChar? resultId ':' with
  | none => .error (.taskResultDoesNotExist resultId)
  | some parts => .ok parts

/-- `STATE_TO_STATUS`. -/
def mapStateToStatus : TaskState → TaskResultStatus
  | .pending => .ready
  | .running => .running
  | .sleeping => .running
  | .completed => .successful
  | .failed => .failed
  | .cancelled => .failed

/-- The args and the kwargs of a row's own params, as they are. -/
def readCall (params : Json) : Option (PyValue × PyValue) := do
  return (loads (← params.get? "args"), loads (← params.get? "kwargs"))

/-- The args and the kwargs a wrapper carries: `list(spec["args"])` and
`dict(spec["kwargs"])`. -/
def readCarried (spec : Json) : Option (PyValue × PyValue) := do
  let args ← (← spec.get? "args").toList?
  let kwargs ← (← spec.get? "kwargs").toDict?
  return (.list args, .dict kwargs)

/-- `failure_reason.get(key, "")`. -/
def failureValue (reason : Json) (key : String) : PyValue :=
  (reason.get? key).elim (.str "") loads

/-- The errors of a result: those of a failed task whose last run has a reason. Only an object
has `get`. -/
def readErrors (state : TaskState) (reason : Option Json) :
    Except ResultError (List ResultFailure) :=
  let reason := reason.getD .null
  if state = .failed ∧ (loads reason).truthy then
    match reason with
    | .obj _ =>
        let traceback := failureValue reason "traceback"
        .ok [{  exceptionClassPath := failureValue reason "name"
                traceback := if traceback.truthy then traceback
                  else failureValue reason "message" }]
    | _ => .error .attributeError
  else .ok []

/-- The definition, on the queue and the backend the result was read from. -/
def rebindTask (p : Project) (backend queue : String) (definition : Task) : Except TaskError Task :=
  if (definition.queueName, definition.backend) ≠ (queue, backend) then
    definition.usingWith p.backends ⟨none, some queue, none, some backend⟩
  else .ok definition

/-- The status of a result. A wrapper that sleeps has not started the caller's task. -/
def readStatus (deferred : Bool) (state : TaskState) : TaskResultStatus :=
  if deferred ∧ state = .sleeping then .ready else mapStateToStatus state

/-- The row is a wrapper's. -/
def isDeferredWrapper (task : TaskRow) : Bool := endsWith task.taskName deferNameSuffix

/-- The path of the caller's task: the name of the row, or what the name of a wrapper leads
with. -/
def callerPath (task : TaskRow) : String :=
  if isDeferredWrapper task then removeSuffix task.taskName deferNameSuffix else task.taskName

/-- The call of the caller's task: the params of the row, or the call a wrapper carries. -/
def callerCall (task : TaskRow) : Option (PyValue × PyValue) :=
  if isDeferredWrapper task then (task.params.get? "kwargs").bind readCarried
  else readCall task.params

/-- The fields of a result. Nothing of the caller's has started while a wrapper runs. -/
def fillTaskResult (backend resultId : String) (task : TaskRow) (run : Option RunRow)
    (workerIds : List String) (taskObj : Task) (errors : List ResultFailure)
    (call : PyValue × PyValue) : TaskResult where
  task := taskObj
  id := resultId
  status := readStatus (isDeferredWrapper task) task.state
  enqueuedAt := some task.enqueueAt
  startedAt := if isDeferredWrapper task then none else task.firstStartedAt
  finishedAt := ((run.bind RunRow.completedAt).or (run.bind RunRow.failedAt)).or task.cancelledAt
  lastAttemptedAt := if isDeferredWrapper task then none else run.bind RunRow.startedAt
  args := call.1
  kwargs := call.2
  backend
  errors
  workerIds
  returnValue :=
    if task.state = .completed then some ((task.completedPayload.map loads).getD .none) else none

/-- Reading a call that is none raises. -/
def unpackCall (call : Option (PyValue × PyValue)) : Except ResultError (PyValue × PyValue) :=
  call.elim (.error .malformedParams) .ok

/-- The call a wrapper carries is unpacked before anything is imported. -/
def unpackCarried (task : TaskRow) : Except ResultError Unit :=
  if isDeferredWrapper task then (unpackCall (callerCall task)).map (fun _ => ()) else .ok ()

/-- `import_string`, and the first look at what it gave. -/
def importTask (p : Project) (path : String) : Except ResultError Task :=
  match p.imports path with
  | .task definition => .ok definition
  | .object => .error .attributeError
  | .importError =>
      .error (.improperlyConfigured ("task '" ++ path ++ "' is no longer importable"))
  | .raised => .error (.importRaised path)

/-- `build_task_result`. The params of an ordinary row are read last. -/
def buildTaskResult (p : Project) (backend resultId : String) (task : TaskRow)
    (run : Option RunRow) (workerIds : List String) : Except ResultError TaskResult := do
  let parts ← decodeResultId resultId
  unpackCarried task
  let definition ← importTask p (callerPath task)
  let taskObj ← (rebindTask p backend parts.1 definition).mapError (fun _ => .invalidTask parts.1)
  let errors ← readErrors task.state (run.bind RunRow.failureReason)
  let call ← unpackCall (callerCall task)
  return fillTaskResult backend resultId task run workerIds taskObj errors call

/-- A wrapper that is completed. -/
def isCompletedWrapper (task : TaskRow) : Bool :=
  isDeferredWrapper task ∧ task.state = .completed

/-- `str(task.completed_payload)`. -/
def payloadText (p : Project) (task : TaskRow) : String :=
  p.str ((task.completedPayload.map loads).getD .none)

/-- `AbsurdBackend.get_result`, and the registry after it. The fuel is the depth Python's
recursion may reach. -/
def getResult (p : Project) (py : PythonLower) (b : Backend) (backend : String) (db : Database) :
    ℕ → Registry → String → Except ResultError TaskResult × Registry
  | 0, registry, _ => (.error .recursionError, registry)
  | fuel + 1, registry, resultId =>
      match decodeResultId resultId with
      | .error e => (.error e, registry)
      | .ok (queue, taskId) =>
          if queue ∉ b.queues then (.error (.taskResultDoesNotExist resultId), registry)
          else
            match fetchTaskAndRun py p.ids registry db queue taskId resultId with
            | (.error e, registry) => (.error e, registry)
            | (.ok (task, run, workerIds), registry) =>
                if isCompletedWrapper task then
                  getResult p py b backend db fuel registry (payloadText p task)
                else (buildTaskResult p backend resultId task run workerIds, registry)

/-! ### The result of a row -/

/-- `f"{queue}:{task_id}"`. -/
def buildResultId (p : Project) (queue : String) (id : Uuid) : String :=
  queue ++ ":" ++ p.ids.print id

theorem decodeResultId_buildResultId (p : Project) (queue : String) (id : Uuid) :
  decodeResultId (buildResultId p queue id) = .ok (queue, p.ids.print id)
  := by
  have hcolon : ":" = String.singleton ':' := rfl
  rw [decodeResultId, buildResultId, hcolon, rsplitChar?_append (p.ids.colon_not_mem id)]

theorem buildResultId_injective {p : Project} {queue : String} {id id' : Uuid}
    (h : buildResultId p queue id = buildResultId p queue id') :
  id = id'
  := by
  have hprint := congrArg decodeResultId h
  rw [decodeResultId_buildResultId, decodeResultId_buildResultId] at hprint
  have hparse := congrArg p.ids.parse (Prod.mk.inj (Except.ok.inj hprint)).2
  rw [p.ids.parse_print, p.ids.parse_print] at hparse
  exact Option.some.inj hparse

/-- The result `get_result` builds from the row of a task. -/
def describe (p : Project) (backend queue : String) (s : QueueState) (t : TaskRow) :
    Except ResultError TaskResult :=
  buildTaskResult p backend (buildResultId p queue t.taskId) t
    (t.lastAttemptRun.bind s.runs.get?) (readWorkerIds s.runs t.taskId)

theorem unpackCall_eq_ok {call : Option (PyValue × PyValue)} {c : PyValue × PyValue} :
  unpackCall call = .ok c ↔ call = some c
  := by
  cases call <;> simp [unpackCall]

theorem unpackCarried_eq_ok {task : TaskRow} :
  unpackCarried task = .ok () ↔ (isDeferredWrapper task = true → (callerCall task).isSome = true)
  := by
  rw [unpackCarried]
  cases hcall : callerCall task <;> cases isDeferredWrapper task <;> simp [unpackCall, Except.map]

theorem importTask_eq_ok {p : Project} {path : String} {definition : Task} :
  importTask p path = .ok definition ↔ p.importString path = some definition
  := by
  rw [importTask, Project.importString_eq_some]
  cases p.imports path <;> simp

/-- A result is built from what the row's name, its last run and its call give. -/
theorem buildTaskResult_eq_ok {p : Project} {backend resultId : String} {task : TaskRow}
    {run : Option RunRow} {workerIds : List String} {result : TaskResult} :
  buildTaskResult p backend resultId task run workerIds = .ok result
    ↔ ∃ parts definition taskObj errors call, decodeResultId resultId = .ok parts
      ∧ p.importString (callerPath task) = some definition
      ∧ rebindTask p backend parts.1 definition = .ok taskObj
      ∧ readErrors task.state (run.bind RunRow.failureReason) = .ok errors
      ∧ callerCall task = some call
      ∧ fillTaskResult backend resultId task run workerIds taskObj errors call = result
  := by
  simp only [buildTaskResult, Except.bind_eq_ok, importTask_eq_ok, unpackCall_eq_ok, pure,
    Except.pure, Except.ok.injEq, Except.mapError_eq_ok]
  constructor
  · rintro ⟨parts, hparts, -, -, definition, himport, taskObj, hrebind, errors, herrors, call,
      hcall, hresult⟩
    exact ⟨parts, definition, taskObj, errors, call, hparts, himport, hrebind, herrors, hcall,
      hresult⟩
  · rintro ⟨parts, definition, taskObj, errors, call, hparts, himport, hrebind, herrors, hcall,
      hresult⟩
    refine ⟨parts, hparts, (), ?_, definition, himport, taskObj, hrebind, errors, herrors, call,
      hcall, hresult⟩
    apply unpackCarried_eq_ok.mpr
    intro _
    rw [hcall]
    rfl

/-- A built result has the fields read from the row and the run. -/
theorem fill_of_buildTaskResult {p : Project} {backend resultId : String} {task : TaskRow}
    {run : Option RunRow} {workerIds : List String} {result : TaskResult}
    (h : buildTaskResult p backend resultId task run workerIds = .ok result) :
  ∃ taskObj errors call, readErrors task.state (run.bind RunRow.failureReason) = .ok errors
    ∧ result = fillTaskResult backend resultId task run workerIds taskObj errors call
  := by
  obtain ⟨_, _, taskObj, errors, call, -, -, -, herrors, -, rfl⟩ := buildTaskResult_eq_ok.mp h
  exact ⟨taskObj, errors, call, herrors, rfl⟩

/-- A built result carries the id it was built for. -/
theorem id_of_buildTaskResult {p : Project} {backend resultId : String} {task : TaskRow}
    {run : Option RunRow} {workerIds : List String} {result : TaskResult}
    (h : buildTaskResult p backend resultId task run workerIds = .ok result) :
  result.id = resultId
  := by
  obtain ⟨taskObj, errors, call, -, rfl⟩ := fill_of_buildTaskResult h
  rfl

/-- The function at a path can be imported, and is on a queue and a backend or may be routed
there. -/
def Routable (p : Project) (b : Backend) (backend queue path : String) : Prop :=
  ∃ definition, p.importString path = some definition
    ∧ ((definition.queueName = queue ∧ definition.backend = backend)
      ∨ b.admits definition.func definition.priority definition.runAfter definition.takesContext
        = true)

/-- The function at a path is routable exactly when its definition can be bound to the queue
and the backend, on a queue the backend takes. -/
theorem routable_iff {p : Project} {b : Backend} {backend queue path : String}
    (hb : p.backends backend = some b) (hqueue : queue ∈ b.queues) :
  Routable p b backend queue path
    ↔ ∃ definition taskObj, p.importString path = some definition
      ∧ rebindTask p backend queue definition = .ok taskObj
  := by
  constructor
  · rintro ⟨definition, himport, hroute⟩
    have hrebind : ∃ taskObj, rebindTask p backend queue definition = .ok taskObj := by
      rw [rebindTask]
      split
      · rename_i hmoved
        rcases hroute with ⟨rfl, rfl⟩ | hadmits
        · exact absurd rfl hmoved
        · apply usingWith_of_admits definition ⟨none, some queue, none, some backend⟩ hb hadmits
          right
          exact hqueue
      · exact ⟨definition, rfl⟩
    obtain ⟨taskObj, hrebind⟩ := hrebind
    exact ⟨definition, taskObj, himport, hrebind⟩
  · rintro ⟨definition, taskObj, himport, hrebind⟩
    use definition, himport
    rw [rebindTask] at hrebind
    split at hrebind
    · right
      obtain ⟨b', hb', hvalid⟩ := (built_of_postInit hrebind).valid
      obtain ⟨hfunc, -, hcontext, hpriority, -, hafter, hbackend⟩ := usingWith_eq_ok hrebind
      rw [hbackend, Option.getD_some, hb] at hb'
      cases hb'
      rw [Backend.validates, Bool.and_eq_true, hfunc, hcontext, hpriority, hafter] at hvalid
      exact hvalid.1
    · rename_i hown
      left
      simpa using hown

/-- The reason a failed task's last run has, if it has one, is an object. -/
def ReasonReadable (task : TaskRow) (run : Option RunRow) : Prop :=
  task.state = .failed → ∀ reason, run.bind RunRow.failureReason = some reason →
    (loads reason).truthy = true → ∃ members, reason = .obj members

theorem reasonReadable_iff {task : TaskRow} {run : Option RunRow} :
  ReasonReadable task run
    ↔ ∃ errors, readErrors task.state (run.bind RunRow.failureReason) = .ok errors
  := by
  rw [ReasonReadable, readErrors]
  cases run.bind RunRow.failureReason with
  | none => simp [loads, PyValue.truthy]
  | some reason =>
      simp only [Option.some.injEq, forall_eq', Option.getD_some]
      by_cases hraises : task.state = .failed ∧ (loads reason).truthy = true
      · simp only [hraises, and_self, if_true, true_implies]
        cases reason <;> simp
      · simp only [hraises, if_false, Except.ok.injEq, exists_eq', iff_true]
        intro hfailed htruthy
        exact absurd ⟨hfailed, htruthy⟩ hraises

/-- A task that has not failed has no errors to read. -/
theorem reasonReadable_of_ne_failed {task : TaskRow} (h : task.state ≠ .failed)
    (run : Option RunRow) :
  ReasonReadable task run
  := fun hfailed => absurd hfailed h

/-- A result can be built exactly when the function of the caller's task is routable, the
reason of a failure is readable and the row has a call, on a queue the backend takes. -/
theorem buildTaskResult_isOk_iff {p : Project} {b : Backend}
    {backend queue resultId taskId : String} {t : TaskRow} {run : Option RunRow}
    {workerIds : List String} (hb : p.backends backend = some b) (hqueue : queue ∈ b.queues)
    (hdecode : decodeResultId resultId = .ok (queue, taskId)) :
  (∃ result, buildTaskResult p backend resultId t run workerIds = .ok result)
    ↔ Routable p b backend queue (callerPath t) ∧ ReasonReadable t run
      ∧ (callerCall t).isSome = true
  := by
  rw [routable_iff hb hqueue, reasonReadable_iff, Option.isSome_iff_exists]
  simp only [buildTaskResult_eq_ok, hdecode, Except.ok.injEq]
  constructor
  · rintro ⟨result, _, definition, taskObj, errors, call, rfl, himport, hrebind, herrors, hcall,
      -⟩
    exact ⟨⟨definition, taskObj, himport, hrebind⟩, ⟨errors, herrors⟩, ⟨call, hcall⟩⟩
  · rintro ⟨⟨definition, taskObj, himport, hrebind⟩, ⟨errors, herrors⟩, ⟨call, hcall⟩⟩
    exact ⟨_, _, definition, taskObj, errors, call, rfl, himport, hrebind, herrors, hcall, rfl⟩

/-! ### What building a result raises -/

theorem unpackCall_eq_error {call : Option (PyValue × PyValue)} {e : ResultError}
    (h : unpackCall call = .error e) :
  e = .malformedParams
  := by
  cases call with
  | none => exact (Except.error.inj h).symm
  | some call => cases h

theorem unpackCarried_eq_error {task : TaskRow} {e : ResultError}
    (h : unpackCarried task = .error e) :
  e = .malformedParams
  := by
  rw [unpackCarried] at h
  split at h
  · cases hcall : unpackCall (callerCall task) with
    | error e' =>
        rw [hcall] at h
        obtain rfl := Except.error.inj h
        apply unpackCall_eq_error hcall
    | ok call =>
        rw [hcall] at h
        cases h
  · cases h

theorem readErrors_eq_error {state : TaskState} {reason : Option Json} {e : ResultError}
    (h : readErrors state reason = .error e) :
  e = .attributeError
  := by
  rw [readErrors] at h
  split at h
  · split at h
    · cases h
    · exact (Except.error.inj h).symm
  · cases h

/-- Building a result raises nothing else. -/
theorem error_of_buildTaskResult {p : Project} {backend resultId : String} {task : TaskRow}
    {run : Option RunRow} {workerIds : List String} {parts : String × String} {e : ResultError}
    (hdecode : decodeResultId resultId = .ok parts)
    (h : buildTaskResult p backend resultId task run workerIds = .error e) :
  e = .malformedParams ∨ e = .attributeError ∨ e = .importRaised (callerPath task)
    ∨ e = .invalidTask parts.1
    ∨ (unpackCarried task = .ok () ∧ p.imports (callerPath task) = .importError
      ∧ ∃ message, e = .improperlyConfigured message)
  := by
  simp only [buildTaskResult, Except.bind_eq_error, hdecode, Except.ok.injEq, reduceCtorEq,
    false_or, exists_eq_left', importTask_eq_ok, unpackCall_eq_ok, Except.mapError_eq_ok] at h
  rcases h with hcarried | ⟨⟨⟩, hcarried, himport | ⟨_, _, hrebind | ⟨_, _, herrors |
    ⟨_, _, hcall | ⟨_, _, hfill⟩⟩⟩⟩⟩
  · exact .inl (unpackCarried_eq_error hcarried)
  · rw [importTask] at himport
    split at himport
    · cases himport
    · obtain rfl := Except.error.inj himport
      exact .inr (.inl rfl)
    · rename_i hmissing
      obtain rfl := Except.error.inj himport
      exact .inr (.inr (.inr (.inr ⟨hcarried, hmissing, _, rfl⟩)))
    · obtain rfl := Except.error.inj himport
      exact .inr (.inr (.inl rfl))
  · rename_i definition _
    cases hbound : rebindTask p backend parts.1 definition with
    | error e' =>
        rw [hbound] at hrebind
        obtain rfl := Except.error.inj hrebind
        exact .inr (.inr (.inr (.inl rfl)))
    | ok taskObj =>
        rw [hbound] at hrebind
        cases hrebind
  · exact .inr (.inl (readErrors_eq_error herrors))
  · exact .inl (unpackCall_eq_error hcall)
  · cases hfill

/-! ### The result of an ordinary row -/

/-- What building a result from the row of an ordinary task and its last run needs: its
function can be imported, is where the row is or may be routed there, its params are a call,
and the reason of a failure is readable. -/
structure Describable (p : Project) (b : Backend) (backend queue : String) (t : TaskRow)
    (run : Option RunRow) : Prop where
  imports : ∃ definition, p.importString t.taskName = some definition
    ∧ ((definition.queueName = queue ∧ definition.backend = backend)
      ∨ b.admits definition.func definition.priority definition.runAfter definition.takesContext
        = true)
  reason : ReasonReadable t run
  call : (readCall t.params).isSome = true

/-- The result of a row that is not a wrapper's can be built exactly when it is
describable, on a queue the backend takes. -/
theorem describe_isOk_iff {p : Project} {b : Backend} {backend queue : String} {s : QueueState}
    {t : TaskRow} (hb : p.backends backend = some b) (hqueue : queue ∈ b.queues)
    (hplain : isDeferredWrapper t = false) :
  (∃ result, describe p backend queue s t = .ok result)
    ↔ Describable p b backend queue t (t.lastAttemptRun.bind s.runs.get?)
  := by
  have hpath : callerPath t = t.taskName := by simp [callerPath, hplain]
  have hcaller : callerCall t = readCall t.params := by simp [callerCall, hplain]
  simp only [describe]
  rw [buildTaskResult_isOk_iff hb hqueue (decodeResultId_buildResultId p queue _), hpath, hcaller]
  constructor
  · rintro ⟨himports, hreason, hcall⟩
    exact ⟨himports, hreason, hcall⟩
  · rintro ⟨himports, hreason, hcall⟩
    exact ⟨himports, hreason, hcall⟩

/-! ### Reading a row of a queue -/

section Reading

variable {p : Project} {py : PythonLower} {b : Backend} {backend queue : String} {db : Database}
  {registry : Registry} {s : QueueState}

/-- The database holds the tables of a queue, and the registry gives its own models. -/
structure Reads (py : PythonLower) (registry : Registry) (db : Database) (queue : String)
    (s : QueueState) : Prop where
  tasks : db.tasks (dbTable tasksSpec queue) = some s.tasks
  runs : db.runs (dbTable runsSpec queue) = some s.runs
  ownsTasks : Owns py registry tasksSpec queue
  ownsRuns : Owns py registry runsSpec queue

/-- The registry after a read of the queue. -/
def Reads.next (p : Project) (py : PythonLower) (registry : Registry) (db : Database)
    (queue : String) (id : Uuid) : Registry :=
  (fetchTaskAndRun py p.ids registry db queue (p.ids.print id) (buildResultId p queue id)).2

/-- A queue that was read is read the same again. -/
theorem Reads.again (h : Reads py registry db queue s) (id : Uuid) :
  Reads py (Reads.next p py registry db queue id) db queue s
  := by
  obtain ⟨-, htasks, hruns⟩ := fetchTaskAndRun_of_owns p.ids db h.ownsTasks
    h.ownsRuns (p.ids.print id) (buildResultId p queue id)
  exact ⟨h.tasks, h.runs, htasks, hruns⟩

/-- Reading the id of a task of the queue. -/
theorem getResult_succ (h : Reads py registry db queue s) (hqueue : queue ∈ b.queues)
    (fuel : ℕ) (id : Uuid) :
  (getResult p py b backend db (fuel + 1) registry (buildResultId p queue id)).1
    = match s.tasks.get? id with
      | none => .error (.taskResultDoesNotExist (buildResultId p queue id))
      | some t =>
          if isCompletedWrapper t then
            (getResult p py b backend db fuel (Reads.next p py registry db queue id)
              (payloadText p t)).1
          else describe p backend queue s t
  := by
  obtain ⟨hfetch, -, -⟩ := fetchTaskAndRun_of_owns p.ids db h.ownsTasks
    h.ownsRuns (p.ids.print id) (buildResultId p queue id)
  rw [h.tasks, h.runs, readTaskAndRun, p.ids.parse_print] at hfetch
  simp only [Option.bind_some] at hfetch
  rw [getResult, decodeResultId_buildResultId]
  simp only [hqueue, not_true, if_false]
  rw [Reads.next]
  generalize fetchTaskAndRun py p.ids registry db queue (p.ids.print id)
    (buildResultId p queue id) = fetched at hfetch ⊢
  obtain ⟨outcome, registry'⟩ := fetched
  obtain rfl : outcome = _ := hfetch
  cases ht : s.tasks.get? id with
  | none => rfl
  | some t =>
      obtain rfl := Keyed.Table.key_of_get? ht
      simp only
      split <;> rfl

/-- A queue the backend does not take has no results. -/
theorem getResult_of_notMem (hqueue : queue ∉ b.queues) (fuel : ℕ) (id : Uuid) :
  (getResult p py b backend db (fuel + 1) registry (buildResultId p queue id)).1
    = .error (.taskResultDoesNotExist (buildResultId p queue id))
  := by
  rw [getResult, decodeResultId_buildResultId]
  simp only [hqueue, not_false_eq_true, if_true]

/-- The id of a completed wrapper reads as the id its payload names. -/
theorem getResult_of_completed (h : Reads py registry db queue s) (hqueue : queue ∈ b.queues)
    (fuel : ℕ) {wrapper target : Uuid} {w t : TaskRow} (hw : s.tasks.get? wrapper = some w)
    (hwrapper : isDeferredWrapper w = true) (hcompleted : w.state = .completed)
    (hpayload : w.completedPayload = some (.str (buildResultId p queue target)))
    (ht : s.tasks.get? target = some t) (hplain : isDeferredWrapper t = false) :
  (getResult p py b backend db (fuel + 2) registry (buildResultId p queue wrapper)).1
    = describe p backend queue s t
  := by
  have hdone : isCompletedWrapper w = true := by simp [isCompletedWrapper, hwrapper, hcompleted]
  have hopen : isCompletedWrapper t = false := by simp [isCompletedWrapper, hplain]
  have htext : payloadText p w = buildResultId p queue target := by
    rw [payloadText, hpayload]
    apply p.str_str
  rw [getResult_succ h hqueue, hw]
  simp only [hdone, if_true, htext]
  rw [getResult_succ (h.again wrapper) hqueue, ht]
  simp [hopen]

/-- A result read under the id of a wrapper that is not completed is not the target's. -/
theorem ne_describe_of_open (h : Reads py registry db queue s) (hqueue : queue ∈ b.queues)
    {fuel : ℕ} {wrapper target : Uuid} {w t : TaskRow} {result : TaskResult}
    (hw : s.tasks.get? wrapper = some w) (hwrapper : isDeferredWrapper w = true)
    (hopen : w.state ≠ .completed) (ht : s.tasks.get? target = some t)
    (hplain : isDeferredWrapper t = false)
    (hread : (getResult p py b backend db (fuel + 1) registry (buildResultId p queue wrapper)).1
      = .ok result) :
  describe p backend queue s t ≠ .ok result
  := by
  intro hdescribe
  have hnot : isCompletedWrapper w = false := by simp [isCompletedWrapper, hopen]
  rw [getResult_succ h hqueue, hw] at hread
  simp only [hnot, Bool.false_eq_true, if_false] at hread
  have hid := (id_of_buildTaskResult hread).symm.trans (id_of_buildTaskResult hdescribe)
  rw [Keyed.Table.key_of_get? hw, Keyed.Table.key_of_get? ht] at hid
  obtain rfl := buildResultId_injective hid
  rw [hw] at ht
  obtain rfl := Option.some.inj ht
  rw [hwrapper] at hplain
  cases hplain

end Reading

/-! ### The id of a deferred enqueue -/

/-- The wrapper is completed at some point of the run, and no cleanup after that point
takes it. -/
def CompletedAndSpared (pg : Postgres) (wrapper : Uuid) (s₀ : QueueState) (ls : List Label) :
    Prop :=
  ∃ ls₁ ls₂ s₁ w, ls = ls₁ ++ ls₂ ∧ (machine pg).run s₀ ls₁ = some s₁
    ∧ s₁.tasks.get? wrapper = some w ∧ w.state = .completed
    ∧ (machine pg).Along (fun _ l => Spares wrapper l) s₁ ls₂

/-- A wrapper that was not completed is there and completed after a run exactly when the
run completed it and spared it since. -/
theorem completedAndSpared_iff {pg : Postgres} {wrapper : Uuid} {s₀ s : QueueState}
    {ls : List Label} (hsound : Sound s₀) (hrun : (machine pg).run s₀ ls = some s) :
  CompletedAndSpared pg wrapper s₀ ls
    ↔ ∃ w, s.tasks.get? wrapper = some w ∧ w.state = .completed
  := by
  constructor
  · rintro ⟨ls₁, ls₂, s₁, w, rfl, hrun₁, hw, hcompleted, hspared⟩
    have hrun₂ : (machine pg).run s₁ ls₂ = some s := by rw [← Machine.run_append hrun₁, hrun]
    use w
    constructor
    · apply (frozen_run_iff (sound_run hsound hrun₁) hw (.inl hcompleted) hrun₂).1 hspared
    · exact hcompleted
  · rintro ⟨w, hw, hcompleted⟩
    exact ⟨ls, [], s, w, (List.append_nil ls).symm, hrun, hw, hcompleted, trivial⟩

/-- Take a wrapper whose only payload is the id of the task it enqueued, a run of its
queue, and that task's row after the run. The wrapper's id gives the result of that row
exactly when the backend takes the queue, the row is describable, and the run completed the
wrapper and no cleanup has taken it since. -/
theorem getResult_iff (p : Project) (py : PythonLower) (pg : Postgres) {b : Backend}
    {backend queue : String} {db : Database} {registry : Registry} {s₀ s : QueueState}
    {ls : List Label} {wrapper target : Uuid} {w t : TaskRow} (fuel : ℕ)
    (hb : p.backends backend = some b) (hreachable : Reachable pg s₀)
    (hw : s₀.tasks.get? wrapper = some w) (hwrapper : isDeferredWrapper w = true)
    (hopen : w.state ≠ .completed) (hrun : (machine pg).run s₀ ls = some s)
    (hreturns : (machine pg).Along
      (Returns wrapper (some (.str (buildResultId p queue target)))) s₀ ls)
    (ht : s.tasks.get? target = some t) (hplain : isDeferredWrapper t = false)
    (hreads : Reads py registry db queue s) :
  (∃ result,
    (getResult p py b backend db (fuel + 2) registry (buildResultId p queue wrapper)).1 = .ok result
      ∧ describe p backend queue s t = .ok result)
    ↔ queue ∈ b.queues
      ∧ Describable p b backend queue t (t.lastAttemptRun.bind s.runs.get?)
      ∧ CompletedAndSpared pg wrapper s₀ ls
  := by
  have hsound := sound_of_reachable hreachable
  have hkept : ∀ w', s.tasks.get? wrapper = some w' → isDeferredWrapper w' = true
      ∧ (w'.state = .completed →
        w'.completedPayload = some (.str (buildResultId p queue target))) := by
    intro w' hw'
    obtain ⟨hname, hpayload⟩ := returned_run hsound hw (fun h => absurd h hopen) hrun hreturns hw'
    rw [isDeferredWrapper, hname]
    exact ⟨hwrapper, hpayload⟩
  rw [completedAndSpared_iff hsound hrun]
  constructor
  · rintro ⟨result, hread, hdescribe⟩
    have hqueue : queue ∈ b.queues := by
      by_contra hqueue
      rw [getResult_of_notMem hqueue] at hread
      cases hread
    use hqueue, (describe_isOk_iff hb hqueue hplain).mp ⟨result, hdescribe⟩
    cases hw' : s.tasks.get? wrapper with
    | none =>
        rw [getResult_succ hreads hqueue, hw'] at hread
        cases hread
    | some w' =>
        use w', rfl
        by_contra hopen'
        apply ne_describe_of_open hreads hqueue hw' (hkept w' hw').1 hopen' ht hplain hread
          hdescribe
  · rintro ⟨hqueue, hdescribable, w', hw', hcompleted⟩
    obtain ⟨result, hdescribe⟩ := (describe_isOk_iff hb hqueue hplain).mpr hdescribable
    use result
    rw [getResult_of_completed hreads hqueue fuel hw' (hkept w' hw').1 hcompleted
      ((hkept w' hw').2 hcompleted) ht hplain]
    exact ⟨hdescribe, hdescribe⟩

/-! ### A wrapper that is completed and cleaned up -/

/-- The params of a call without arguments. -/
def emptyCall : Json := .obj [("args", .arr []), ("kwargs", .obj [])]

/-- The project of `tasks.add` on the Absurd backend. -/
def addProject : Project := twoBackends (addTask .absurdTask "absurd")

/-- The row of a wrapper of `tasks.add`. -/
def wrapperRow : TaskRow :=
  spawnedTask (.create .unpartitioned) 0 ("tasks.add" ++ deferNameSuffix)
    (.obj [("kwargs", emptyCall)]) ⟨none, none, none, none, none⟩

/-- The queue with the wrapper. -/
def wrapperSpawned : QueueState := insertSpawned (.create .unpartitioned) 0 wrapperRow

/-- The run of the wrapper. -/
def wrapperRun : RunRow := newRun ⟨1⟩ ⟨0⟩ 1 .pending 0 0

/-- The wrapper is claimed. -/
def wrapperClaimed : QueueState :=
  markClaimed 0 "worker" (some (seconds 60)) wrapperSpawned wrapperRun

/-- The row of the wrapper's target. -/
def targetRow : TaskRow :=
  spawnedTask wrapperClaimed 0 "tasks.add" emptyCall ⟨none, none, none, none, none⟩

/-- The wrapper has enqueued its target. -/
def targetSpawned : QueueState := insertSpawned wrapperClaimed 0 targetRow

/-- What the wrapper's run returns: the id of its target. -/
def wrapperPayload : Option Json := some (.str (buildResultId addProject "default" ⟨2⟩))

/-- The wrapper is completed. -/
def wrapperCompleted : QueueState :=
  markCompleted targetSpawned 1
    ((RunRow.claim 0 "worker" (some (seconds 60))).apply wrapperRun) wrapperPayload

/-- A cleanup has taken the wrapper. -/
def wrapperDeleted : QueueState := deleteTasks wrapperCompleted [⟨0⟩]

/-- The database that holds the tables of one queue. -/
def databaseOf (s : QueueState) : Database where
  tasks _ := some s.tasks
  runs _ := some s.runs

theorem reads_databaseOf (s : QueueState) :
  Reads asciiLower [] (databaseOf s) "default" s
  := ⟨rfl, rfl, rfl, rfl⟩

/-- A worker claims the only task of a queue. -/
theorem step_claim_spawned {s : QueueState} (name : String) (params : Json)
    {options : SpawnOptions} (hoptions : options.cancellation = none)
    (hs : s = insertSpawned (.create .unpartitioned) 0
      (spawnedTask (.create .unpartitioned) 0 name params options)) :
  step plainPostgres s (.claim 0 "worker" 60 1)
    = some (markClaimed 0 "worker" (some (seconds 60)) s (newRun ⟨1⟩ ⟨0⟩ 1 .pending 0 0))
  := by
  obtain ⟨headers, retryStrategy, maxAttempts, cancellation, idempotencyKey⟩ := options
  obtain rfl : cancellation = none := hoptions
  have hcancel : cancelCandidates plainPostgres s 0 = .ok [] := by
    have hdue : (s.tasks.rows.filter (fun t => !t.state.terminal)).filterM
        (cancellationDue plainPostgres 0) = .ok [] := by
      subst hs
      rfl
    rw [cancelCandidates, hdue]
    apply congrArg Except.ok
    apply List.mergeSort_nil
  have hexpired : expiredRuns plainPostgres s 0 (max (1 : ℤ) 1).toNat = [] := by
    subst hs
    exact congrArg (List.take 1) List.mergeSort_nil
  have hclaimed : claimCandidates plainPostgres s 0 (max (1 : ℤ) 1).toNat
      = [newRun ⟨1⟩ ⟨0⟩ 1 .pending 0 0] := by
    subst hs
    exact congrArg (List.take 1) (List.mergeSort_singleton _)
  exact step_claim (claimTask_of_quiet hcancel hexpired hclaimed)

theorem targetSpawned_reachable :
  Reachable plainPostgres targetSpawned
  := by
  have hclaim : step plainPostgres wrapperSpawned (.claim 0 "worker" 60 1)
      = some wrapperClaimed := step_claim_spawned _ _ rfl rfl
  apply reachable_iff.mpr
  refine ⟨.unpartitioned,
    [.spawn 0 ("tasks.add" ++ deferNameSuffix) (.obj [("kwargs", emptyCall)]) (.obj []),
      .claim 0 "worker" 60 1, .spawn 0 "tasks.add" emptyCall (.obj [])], ?_⟩
  apply Machine.run_cons.mpr
  refine ⟨wrapperSpawned, rfl, Machine.run_cons.mpr ⟨wrapperClaimed, hclaim, ?_⟩⟩
  rfl

theorem run_wrapperCompleted :
  (machine plainPostgres).run targetSpawned [.complete 1 ⟨1⟩ wrapperPayload]
    = some wrapperCompleted
  := rfl

theorem run_wrapperDeleted :
  (machine plainPostgres).run wrapperCompleted [.cleanupTasks 5000000 1 10 [⟨0⟩]]
    = some wrapperDeleted
  := rfl

theorem targetRow_describable (run : Option RunRow) :
  Describable addProject absurdBackend "absurd" "default" targetRow run
  where
  imports := ⟨addTask .absurdTask "absurd", rfl, .inl ⟨rfl, rfl⟩⟩
  reason := reasonReadable_of_ne_failed (by decide) run
  call := rfl

theorem targetRow_plain :
  isDeferredWrapper targetRow = false
  := by
  have hname : targetRow.taskName = "tasks.add" := rfl
  rw [isDeferredWrapper, hname, endsWith, deferNameSuffix]
  simp
  decide

/-- The wrapper's run returns, and the wrapper's id gives the result of its target. -/
theorem getResult_iff_completed :
  ∃ result, (getResult addProject asciiLower absurdBackend "absurd" (databaseOf wrapperCompleted) 2
      [] (buildResultId addProject "default" ⟨0⟩)).1 = .ok result
    ∧ describe addProject "absurd" "default" wrapperCompleted targetRow = .ok result
  := by
  have hrow : targetSpawned.tasks.get? ⟨0⟩ = some ((TaskRow.claim 0 wrapperRun).apply wrapperRow) :=
    rfl
  have hwrapper : isDeferredWrapper ((TaskRow.claim 0 wrapperRun).apply wrapperRow) = true :=
    endsWith_append "tasks.add" deferNameSuffix
  have hopen : ((TaskRow.claim 0 wrapperRun).apply wrapperRow).state ≠ .completed := by decide
  have hreturns : (machine plainPostgres).Along (Returns ⟨0⟩ wrapperPayload) targetSpawned
      [.complete 1 ⟨1⟩ wrapperPayload] := by
    use fun payload ⟨_, _, hl, _⟩ => (Label.complete.inj hl).2.2.symm
    intro _ _
    trivial
  have hcompleted : CompletedAndSpared plainPostgres ⟨0⟩ targetSpawned
      [.complete 1 ⟨1⟩ wrapperPayload] :=
    ⟨_, [], wrapperCompleted, _, rfl, run_wrapperCompleted, rfl, rfl, trivial⟩
  apply (getResult_iff addProject asciiLower plainPostgres 0 rfl targetSpawned_reachable hrow
    hwrapper hopen run_wrapperCompleted hreturns rfl targetRow_plain (reads_databaseOf _)).mpr
  exact ⟨by decide, targetRow_describable _, hcompleted⟩

/-- A cleanup takes the completed wrapper while its target waits: the wrapper's id gives
no result any more. -/
theorem cleanup_orphans_id :
  ¬ ∀ (p : Project) (py : PythonLower) (pg : Postgres) (b : Backend) (backend queue : String)
      (db : Database) (registry : Registry) (s₀ s : QueueState) (ls : List Label)
      (wrapper target : Uuid) (w t : TaskRow) (fuel : ℕ),
      p.backends backend = some b → queue ∈ b.queues → Reachable pg s₀ →
      s₀.tasks.get? wrapper = some w → isDeferredWrapper w = true → w.state = .completed →
      w.completedPayload = some (.str (buildResultId p queue target)) →
      (machine pg).run s₀ ls = some s → s.tasks.get? target = some t →
      isDeferredWrapper t = false →
      Describable p b backend queue t (t.lastAttemptRun.bind s.runs.get?) →
      Reads py registry db queue s →
      ∃ result, (getResult p py b backend db (fuel + 2) registry
          (buildResultId p queue wrapper)).1 = .ok result
        ∧ describe p backend queue s t = .ok result
  := by
  intro h
  have hrow : wrapperCompleted.tasks.get? ⟨0⟩ = some ((TaskRow.complete ⟨1⟩ wrapperPayload).apply
      ((TaskRow.claim 0 wrapperRun).apply wrapperRow)) := rfl
  have hwrapper : isDeferredWrapper ((TaskRow.complete ⟨1⟩ wrapperPayload).apply
      ((TaskRow.claim 0 wrapperRun).apply wrapperRow)) = true :=
    endsWith_append "tasks.add" deferNameSuffix
  obtain ⟨result, hread, -⟩ := h addProject asciiLower plainPostgres absurdBackend "absurd" "default"
    (databaseOf wrapperDeleted) [] wrapperCompleted wrapperDeleted _ ⟨0⟩ ⟨2⟩ _ targetRow 0 rfl
    (by decide) (targetSpawned_reachable.run run_wrapperCompleted) hrow hwrapper rfl rfl
    run_wrapperDeleted rfl targetRow_plain (targetRow_describable _) (reads_databaseOf _)
  have hgone : wrapperDeleted.tasks.get? ⟨0⟩ = none := rfl
  rw [getResult_succ (reads_databaseOf _) (by decide), hgone] at hread
  cases hread

end DjangoAbsurd
