import DjangoAbsurd.Deferred
import DjangoAbsurd.Library.Observed

/-!
# What receivers and loggers can change

The package logs each spawn and each event of a run, and sends Django's task signals. A
receiver, a filter or a handler may raise at any of these; what raises at a record or a
signal is an observer. Each place the package tells its observers something reports their
failure in a record of its own, and `report_run_event` alone contains a failure of that
record as well.

`observedEnqueue`, `handler` and `deferredHandler` are scripts: `outcome_kept_iff` says when
their outcomes are what they are with no receiver and a silent logger.
-/

namespace DjangoAbsurd

open Engine (Time Uuid)

/-! ### Exceptions and events -/

/-- The exceptions of Python: those of an enqueue, those the SDK ends a run with, any other
`Exception`, and those that are not an `Exception`. -/
inductive Exc where
  | enqueue (e : EnqueueError)
  | suspendTask
  | cancelledTask
  | failedTask
  | exception (name message : String)
  | baseException (name message : String)
  deriving DecidableEq, Repr

/-- What `except Exception` catches. -/
def Exc.isException : Exc → Bool
  | .baseException _ _ => false
  | _ => true

/-- The levels of the records. -/
inductive Level where
  | debug
  | info
  | warning
  | error
  deriving DecidableEq, Repr

/-- A call of a logger. -/
structure LogRecord where
  logger : String
  level : Level
  msg : String
  args : List String
  excInfo : Option Exc

/-- The signals of `django.tasks`. -/
inductive TaskSignal where
  | taskEnqueued
  | taskStarted
  | taskFinished
  deriving DecidableEq, Repr

/-- `SIGNAL_NAMES`. -/
def TaskSignal.name : TaskSignal → String
  | .taskEnqueued => "task_enqueued"
  | .taskStarted => "task_started"
  | .taskFinished => "task_finished"

/-- What observers are told: a record, or a signal with its sender. -/
inductive Event where
  | logged (record : LogRecord)
  | sent (signal : TaskSignal) (sender : String) (result : TaskResult)

/-- The receivers, filters and handlers of a process. They raise `Exception`s. -/
abbrev Receivers := Observers Event Exc Exc.isException

/-- No receivers, and a silent logger. -/
abbrev Receivers.none : Receivers := .silent Event Exc Exc.isException

/-! ### `send_task_signal` and the hooks -/

/-- The record of a receiver's failure. -/
def receiverFailed (signal : TaskSignal) (result : TaskResult) (e : Exc) : Event :=
  .logged {
    logger := "django_absurd.dispatch"
    level := .error
    msg := "%s receiver failed for task result id=\"%s\""
    args := [signal.name, result.id]
    excInfo := some e }

/-- `send_task_signal`. -/
def sendTaskSignal (obs : Receivers) (signal : TaskSignal) (sender : String)
    (result : TaskResult) : Observed Event Exc Unit :=
  .reported obs (.sent signal sender result) (receiverFailed signal result)

/-- The detail of a spawn. -/
def spawnDetail (p : Project) (name queue : String) (options : SpawnKwargs) : String :=
  "name=\"" ++ name ++ "\" queue=\"" ++ queue ++ "\""
    ++ (match options .maxAttempts with
      | some n => " max_attempts=" ++ p.str n
      | none => "")
    ++ (match options .idempotencyKey with
      | some key => " idempotency_key=\"" ++ p.str key ++ "\""
      | none => "")

/-- The record of a spawn. -/
def spawnRequested (p : Project) (name queue : String) (options : SpawnKwargs) : Event :=
  .logged {
    logger := "django_absurd.hooks"
    level := .debug
    msg := "spawn requested: %s"
    args := [spawnDetail p name queue options]
    excInfo := none }

/-- The record of a spawn that could not be logged. -/
def spawnLogFailed (name : String) (e : Exc) : Event :=
  .logged {
    logger := "django_absurd.hooks"
    level := .error
    msg := "failed to log spawn: name=\"%s\""
    args := [name]
    excInfo := some e }

/-- `log_before_spawn`. -/
def logBeforeSpawn (obs : Receivers) (p : Project) (name queue : String)
    (options : SpawnKwargs) : Observed Event Exc SpawnKwargs := do
  .reported obs (spawnRequested p name queue options) (spawnLogFailed name)
  return options

/-- What the handler of a run reads of its context. -/
structure RunContext where
  taskId : String
  taskName : String
  attempt : ℤ
  maxAttempts : Option ℤ

/-- The detail of a run, with its duration once it ended. -/
def runDetail (ctx : RunContext) (duration : Option String) : String :=
  "name=\"" ++ ctx.taskName ++ "\" task_id=\"" ++ ctx.taskId ++ "\" attempt="
    ++ toString ctx.attempt ++ " max_attempts="
    ++ (match ctx.maxAttempts with
      | some n => toString n
      | none => "None")
    ++ (match duration with
      | some d => " duration=" ++ d
      | none => "")

/-- `report_run_event`. -/
def reportRunEvent (obs : Receivers) (level : Level) (event : String) (ctx : RunContext)
    (duration : Option String) (excInfo : Option Exc) : Observed Event Exc Unit :=
  .suppressed obs
    (.logged {
      logger := "django_absurd.hooks"
      level
      msg := "%s: %s"
      args := [event, runDetail ctx duration]
      excInfo })
    (fun e => .logged {
      logger := "django_absurd.hooks"
      level := .error
      msg := "failed to log a run lifecycle event: event=\"%s\""
      args := [event]
      excInfo := some e })

/-- `log_task_execution`, around what runs the handler. -/
def logTaskExecution (obs : Receivers) (ctx : RunContext) (duration : String)
    (execute : Observed Event Exc PyValue) : Observed Event Exc PyValue := do
  reportRunEvent obs .info "task started" ctx none none
  let result ← Observed.tryExcept Exc.isException execute fun e => do
    match e with
    | .suspendTask => reportRunEvent obs .info "task suspended" ctx (some duration) none
    | .cancelledTask => reportRunEvent obs .warning "task cancelled" ctx (some duration) none
    | .failedTask =>
        reportRunEvent obs .warning "run already failed elsewhere" ctx (some duration) none
    | e => reportRunEvent obs .error "task failed" ctx (some duration) (some e)
    Observed.ended (.error e)
  reportRunEvent obs .info "task completed" ctx (some duration) none
  return result

/-! ### Enqueueing under observation -/

/-- The result of an enqueue that spawned a row. -/
def enqueuedResult (p : Project) (now : Time) (t : Task) (args : List PyValue)
    (kwargs : Kwargs) (id : Uuid) : TaskResult where
  task := t
  id := t.queueName ++ ":" ++ p.ids.print id
  status := .ready
  enqueuedAt := some now
  startedAt := none
  finishedAt := none
  lastAttemptedAt := none
  args := .list args
  kwargs := pyDict kwargs
  backend := t.backend
  errors := []
  workerIds := []
  returnValue := none

/-- What `enqueue` makes of an exception of the spawn. -/
def reclassify (b : Backend) (config : AbsurdConfig) (t : Task) : Exc → Exc
  | .enqueue (.spawn e) => .enqueue (classifySpawnError b config t e)
  | e => e

/-- The spawn itself, with the options the hook returned. -/
def clientSpawn (spawn : Spawn) (config : AbsurdConfig) (t : Task) (name : String)
    (params : PyValue) (options : SpawnKwargs) : Except Exc Uuid :=
  match buildSpawnRequest config.database t.queueName (name, params, options) with
  | .error e => .error (.enqueue e)
  | .ok request => (spawn request).mapError (fun e => .enqueue (.spawn e))

/-- `AbsurdBackend.enqueue`, where `sender` is the class of the backend. -/
def observedEnqueue (obs : Receivers) (p : Project) (spawn : Spawn) (now : Time)
    (sender : String) (b : Backend) (config : AbsurdConfig) (t : Task) (args : List PyValue)
    (kwargs : Kwargs) : Observed Event Exc TaskResult :=
  if b.validates t then do
    let (name, params, options) := prepareSpawn p config t args kwargs
    let id ← Observed.translate (reclassify b config t) do
      let options ← logBeforeSpawn obs p name t.queueName options
      Observed.ended (clientSpawn spawn config t name params options)
    let result := enqueuedResult p now t args kwargs id
    sendTaskSignal obs .taskEnqueued sender result
    return result
  else .ended (.error (.enqueue (.task (.invalidTask t.backend t.queueName))))

/-- `Task.enqueue`, of either class. Only an Absurd backend is observed here. -/
def Task.observedEnqueue (obs : Receivers) (p : Project) (spawn : Spawn) (now : Time)
    (sender : String) (t : Task) (args : List PyValue) (kwargs : Kwargs) :
    Observed Event Exc TaskResult :=
  if "self" ∈ kwargs.map Prod.fst then
    .ended (.error (.enqueue (selfCollides t.taskClass)))
  else
    match p.backends t.backend with
    | none => .ended (.error (.enqueue (.task (.invalidTaskBackend t.backend))))
    | some b =>
        match b.absurd with
        | some config => DjangoAbsurd.observedEnqueue obs p spawn now sender b config t args kwargs
        | none => .ended ((p.foreignEnqueue b t args kwargs).mapError .enqueue)

/-! ### Handlers -/

/-- `TaskParams`, as a handler reads them. -/
structure TaskParams where
  args : Option (List PyValue)
  kwargs : Option Kwargs

/-- What Python does with the task of one delivery: the call of its function, with the
context where the task takes it, `normalize_json`, and the path and the traceback of an
exception. -/
structure TaskRuntime where
  call : Func → Option TaskResult → List PyValue → Kwargs → Except Exc PyValue
  normalizeJson : PyValue → Except Exc PyValue
  classPath : Exc → String
  formatException : Exc → String

/-- A delivery of a task: the worker's backend with its class, its queue, the params and
the context of the run, and the instants the handler reads. -/
structure Delivery where
  task : Task
  sender : String
  backend : String
  queue : String
  params : TaskParams
  ctx : RunContext
  startedAt : Time
  finishedAt : Time

/-- `build_running_task_result`. -/
def buildRunningTaskResult (p : Project) (d : Delivery) : Except Exc TaskResult :=
  let routed :=
    if d.task.queueName = d.queue ∧ d.task.backend = d.backend then .ok d.task
    else d.task.usingWith p.backends ⟨none, some d.queue, none, some d.backend⟩
  match routed with
  | .error e => .error (.enqueue (.task e))
  | .ok task =>
      .ok {
        task
        id := d.queue ++ ":" ++ d.ctx.taskId
        status := .running
        enqueuedAt := none
        startedAt := some d.startedAt
        finishedAt := none
        lastAttemptedAt := some d.startedAt
        args := .list (d.params.args.getD [])
        kwargs := pyDict (d.params.kwargs.getD [])
        backend := d.backend
        errors := []
        workerIds := List.replicate d.ctx.attempt.toNat "absurd"
        returnValue := none }

/-- `is_terminal_attempt`. -/
def isTerminalAttempt (attempt : ℤ) (maxAttempts : Option ℤ) : Bool :=
  maxAttempts.any (fun n => decide (n ≤ attempt))

/-- `mark_task_result_failed`. -/
def markTaskResultFailed (py : TaskRuntime) (finishedAt : Time) (result : TaskResult)
    (e : Exc) : TaskResult :=
  { result with
    status := .failed
    finishedAt := some finishedAt
    errors := result.errors ++ [⟨.str (py.classPath e), .str (py.formatException e)⟩] }

/-- The task result after a success. -/
def markTaskResultSuccessful (finishedAt : Time) (result : TaskResult) (value : PyValue) :
    TaskResult :=
  { result with status := .successful, finishedAt := some finishedAt, returnValue := some value }

/-- `send_finished_if_terminal`. -/
def sendFinishedIfTerminal (obs : Receivers) (py : TaskRuntime) (d : Delivery)
    (result : TaskResult) (e : Exc) : Observed Event Exc Unit :=
  if isTerminalAttempt d.ctx.attempt d.ctx.maxAttempts then
    sendTaskSignal obs .taskFinished d.sender (markTaskResultFailed py d.finishedAt result e)
  else return

/-- The exceptions Absurd itself ends a run with. -/
def Exc.endsRun : Exc → Bool
  | .suspendTask | .cancelledTask | .failedTask => true
  | _ => false

/-- What the task's function gives, called with the context where the task takes it. -/
def callTask (py : TaskRuntime) (d : Delivery) (result : TaskResult) : Except Exc PyValue :=
  py.call d.task.func (if d.task.takesContext then some result else none)
    (d.params.args.getD []) (d.params.kwargs.getD [])

/-- The handler of `build_handler`. -/
def handler (obs : Receivers) (p : Project) (py : TaskRuntime) (d : Delivery) :
    Observed Event Exc PyValue := do
  let result ← Observed.ended (buildRunningTaskResult p d)
  sendTaskSignal obs .taskStarted d.sender result
  let value ← Observed.tryExcept Exc.isException (Observed.ended (callTask py d result))
    fun e => do
      unless e.endsRun do sendFinishedIfTerminal obs py d result e
      Observed.ended (.error e)
  let normalized ← Observed.ended (py.normalizeJson value)
  sendTaskSignal obs .taskFinished d.sender
    (markTaskResultSuccessful d.finishedAt result normalized)
  return value

/-- What the SDK gives the handler of a wrapper: whether `sleep_until` returns, and the
checkpoints of `step`, those stored and whether one is written. -/
structure StepContext where
  sleepUntil : String → Except Exc Unit
  stored : String → Option PyValue
  persist : String → PyValue → Except Exc Unit

/-- `ctx.step`. -/
def StepContext.step (ctx : StepContext) (name : String) (run : Observed Event Exc PyValue) :
    Observed Event Exc PyValue :=
  match ctx.stored name with
  | some value => .ended (.ok value)
  | none => do
      let value ← run
      Observed.ended (ctx.persist name value)
      return value

/-- `enqueue_deferred_target`. -/
def observedEnqueueDeferredTarget (obs : Receivers) (p : Project) (spawn : Spawn) (now : Time)
    (sender target : String) (spec : DeferredSpec) : Observed Event Exc PyValue :=
  match deferredTarget p target spec.queue spec.options with
  | .error e => .ended (.error (.enqueue e))
  | .ok t => do
      let result ← t.observedEnqueue obs p spawn now sender spec.args spec.kwargs
      return .str result.id

/-- The handler of `build_deferred_handler`. -/
def deferredHandler (obs : Receivers) (p : Project) (spawn : Spawn) (now : Time)
    (sender target : String) (params : Json) (ctx : StepContext) :
    Observed Event Exc PyValue :=
  match (params.get? "kwargs").bind (fun spec => spec.get? "due") with
  | none => .ended (.error (.enqueue .malformedParams))
  | some due => do
      Observed.ended (ctx.sleepUntil (p.str (loads due)))
      ctx.step ("enqueue:" ++ target)
        (match readDeferredSpec p params with
        | none => .ended (.error (.enqueue .malformedParams))
        | some spec => observedEnqueueDeferredTarget obs p spawn now sender target spec)

/-! ### Their scripts -/

/-- `send_task_signal`, as a script. -/
def signalScript (signal : TaskSignal) (sender : String) (result : TaskResult) :
    Script Event Exc Unit :=
  .send (.sent signal sender result) (receiverFailed signal result)

/-- How the spawn of an enqueue ends by itself. -/
def spawnEnding (p : Project) (spawn : Spawn) (b : Backend) (config : AbsurdConfig) (t : Task)
    (args : List PyValue) (kwargs : Kwargs) : Except Exc Uuid :=
  let (name, params, options) := prepareSpawn p config t args kwargs
  (clientSpawn spawn config t name params options).mapError (reclassify b config t)

/-- `AbsurdBackend.enqueue`, as a script. -/
def enqueueScript (p : Project) (spawn : Spawn) (now : Time) (sender : String) (b : Backend)
    (config : AbsurdConfig) (t : Task) (args : List PyValue) (kwargs : Kwargs) :
    Script Event Exc TaskResult :=
  if b.validates t then do
    let (name, params, options) := prepareSpawn p config t args kwargs
    let id ← Script.translate (reclassify b config t) do
      Script.send (spawnRequested p name t.queueName options) (spawnLogFailed name)
      Script.ended (clientSpawn spawn config t name params options)
    let result := enqueuedResult p now t args kwargs id
    signalScript .taskEnqueued sender result
    return result
  else .ended (.error (.enqueue (.task (.invalidTask t.backend t.queueName))))

/-- `Task.enqueue`, as a script. -/
def Task.enqueueScript (p : Project) (spawn : Spawn) (now : Time) (sender : String) (t : Task)
    (args : List PyValue) (kwargs : Kwargs) : Script Event Exc TaskResult :=
  match if "self" ∈ kwargs.map Prod.fst then none else p.backends t.backend with
  | some b =>
      match b.absurd with
      | some config => DjangoAbsurd.enqueueScript p spawn now sender b config t args kwargs
      | none => .ended ((t.enqueue p spawn now args kwargs).mapError .enqueue)
  | none => .ended ((t.enqueue p spawn now args kwargs).mapError .enqueue)

/-- How the run of a task ends by itself. -/
def handlerEnding (p : Project) (py : TaskRuntime) (d : Delivery) : Except Exc PyValue := do
  let result ← buildRunningTaskResult p d
  let value ← callTask py d result
  let _ ← py.normalizeJson value
  return value

/-- The handler of `build_handler`, as a script. -/
def handlerScript (p : Project) (py : TaskRuntime) (d : Delivery) : Script Event Exc PyValue := do
  let result ← Script.ended (buildRunningTaskResult p d)
  signalScript .taskStarted d.sender result
  match callTask py d result with
  | .ok value => do
      let normalized ← Script.ended (py.normalizeJson value)
      signalScript .taskFinished d.sender (markTaskResultSuccessful d.finishedAt result normalized)
      return value
  | .error e => do
      if e.isException && !e.endsRun && isTerminalAttempt d.ctx.attempt d.ctx.maxAttempts then
        signalScript .taskFinished d.sender (markTaskResultFailed py d.finishedAt result e)
      Script.ended (.error e)

/-- `enqueue_deferred_target`, as a script. -/
def enqueueDeferredTargetScript (p : Project) (spawn : Spawn) (now : Time)
    (sender target : String) (spec : DeferredSpec) : Script Event Exc PyValue :=
  match deferredTarget p target spec.queue spec.options with
  | .error e => .ended (.error (.enqueue e))
  | .ok t => do
      let result ← t.enqueueScript p spawn now sender spec.args spec.kwargs
      return .str result.id

/-- The handler of `build_deferred_handler`, as a script. -/
def deferredScript (p : Project) (spawn : Spawn) (now : Time) (sender target : String)
    (params : Json) (ctx : StepContext) : Script Event Exc PyValue :=
  match (params.get? "kwargs").bind (fun spec => spec.get? "due") with
  | none => .ended (.error (.enqueue .malformedParams))
  | some due => do
      Script.ended (ctx.sleepUntil (p.str (loads due)))
      match ctx.stored ("enqueue:" ++ target), readDeferredSpec p params with
      | some value, _ => Script.ended (.ok value)
      | none, none => Script.ended (.error (.enqueue .malformedParams))
      | none, some spec => do
          let value ← enqueueDeferredTargetScript p spawn now sender target spec
          Script.ended (ctx.persist ("enqueue:" ++ target) value)
          return value

/-- How the run of a wrapper ends by itself. -/
def deferredEnding (p : Project) (spawn : Spawn) (now : Time) (target : String) (params : Json)
    (ctx : StepContext) : Except Exc PyValue :=
  match (params.get? "kwargs").bind (fun spec => spec.get? "due") with
  | none => .error (.enqueue .malformedParams)
  | some due => do
      ctx.sleepUntil (p.str (loads due))
      match ctx.stored ("enqueue:" ++ target), readDeferredSpec p params with
      | some value, _ => return value
      | none, none => .error (.enqueue .malformedParams)
      | none, some spec => do
          let result ← (enqueueDeferredTarget p spawn now target spec).mapError .enqueue
          ctx.persist ("enqueue:" ++ target) (.str result.id)
          return .str result.id

/-! ### Enqueues and handlers run their scripts -/

section Enqueues

variable (obs : Receivers) (p : Project) (spawn : Spawn) (now : Time) (sender : String)

theorem observedEnqueue_eq_run (b : Backend) (config : AbsurdConfig) (t : Task)
    (args : List PyValue) (kwargs : Kwargs) :
  observedEnqueue obs p spawn now sender b config t args kwargs
    = (enqueueScript p spawn now sender b config t args kwargs).run obs
  := by
  unfold observedEnqueue enqueueScript
  split
  · simp [logBeforeSpawn, signalScript, sendTaskSignal]
  · rfl

theorem eq_of_buildSpawnRequest_error {database queue : String}
    {prepared : String × PyValue × SpawnKwargs} {e : EnqueueError}
    (h : buildSpawnRequest database queue prepared = .error e) :
  e = .notSerializable
  := by
  obtain ⟨name, params, options⟩ := prepared
  rw [buildSpawnRequest] at h
  split at h
  · cases h
  · exact (Except.error.inj h).symm

/-- An enqueue ends as its spawn does. -/
theorem absurdEnqueue_eq_map {b : Backend} {t : Task} (hvalid : b.validates t = true)
    (config : AbsurdConfig) (args : List PyValue) (kwargs : Kwargs) :
  (absurdEnqueue p spawn now b config t args kwargs).mapError .enqueue
    = (spawnEnding p spawn b config t args kwargs).map (enqueuedResult p now t args kwargs)
  := by
  unfold absurdEnqueue spawnEnding
  simp only [hvalid, if_true, spawnRequest, clientSpawn]
  cases hrequest : buildSpawnRequest config.database t.queueName (prepareSpawn p config t args kwargs) with
  | error e =>
      obtain rfl := eq_of_buildSpawnRequest_error hrequest
      rfl
  | ok request =>
      cases hspawn : spawn request with
      | error e => simp [hspawn, Except.mapError, Except.map, reclassify]
      | ok id => simp [hspawn, Except.mapError, Except.map, enqueuedResult]

theorem enqueueScript_ending (b : Backend) (config : AbsurdConfig) (t : Task)
    (args : List PyValue) (kwargs : Kwargs) :
  (enqueueScript p spawn now sender b config t args kwargs).ending
    = (absurdEnqueue p spawn now b config t args kwargs).mapError .enqueue
  := by
  by_cases hvalid : b.validates t = true
  · rw [absurdEnqueue_eq_map _ _ _ hvalid, enqueueScript, if_pos hvalid, Script.ending_bind]
    change (spawnEnding p spawn b config t args kwargs >>=
      fun id => .ok (enqueuedResult p now t args kwargs id)) = _
    cases spawnEnding p spawn b config t args kwargs <;> rfl
  · rw [enqueueScript, if_neg hvalid, absurdEnqueue, if_neg hvalid]
    rfl

theorem Task.observedEnqueue_eq_run (t : Task) (args : List PyValue) (kwargs : Kwargs) :
  t.observedEnqueue obs p spawn now sender args kwargs
    = (t.enqueueScript p spawn now sender args kwargs).run obs
  := by
  unfold Task.observedEnqueue Task.enqueueScript
  by_cases hself : "self" ∈ kwargs.map Prod.fst
  · simp only [hself, if_true, Task.enqueue]
    rfl
  · simp only [hself, if_false]
    cases hb : p.backends t.backend with
    | none =>
        simp only [Task.enqueue, hself, if_false, hb]
        rfl
    | some b =>
        cases hconfig : b.absurd with
        | some config => simp only [DjangoAbsurd.observedEnqueue_eq_run, hconfig]
        | none =>
            simp only [Task.enqueue, hself, if_false, hb, hconfig]
            rfl

theorem Task.enqueueScript_ending (t : Task) (args : List PyValue) (kwargs : Kwargs) :
  (t.enqueueScript p spawn now sender args kwargs).ending
    = (t.enqueue p spawn now args kwargs).mapError .enqueue
  := by
  unfold Task.enqueueScript
  split
  · rename_i b hrouted
    split
    · rename_i config hconfig
      have hself : "self" ∉ kwargs.map Prod.fst := by
        intro hself
        rw [if_pos hself] at hrouted
        cases hrouted
      rw [if_neg hself] at hrouted
      rw [DjangoAbsurd.enqueueScript_ending, Task.enqueue, if_neg hself, hrouted]
      simp only [hconfig]
    · rfl
  · rfl

theorem observedEnqueueDeferredTarget_eq_run (target : String) (spec : DeferredSpec) :
  observedEnqueueDeferredTarget obs p spawn now sender target spec
    = (enqueueDeferredTargetScript p spawn now sender target spec).run obs
  := by
  unfold observedEnqueueDeferredTarget enqueueDeferredTargetScript
  split
  · rfl
  · simp [Task.observedEnqueue_eq_run]

theorem deferredHandler_eq_run (target : String) (params : Json) (ctx : StepContext) :
  deferredHandler obs p spawn now sender target params ctx
    = (deferredScript p spawn now sender target params ctx).run obs
  := by
  unfold deferredHandler deferredScript
  split
  · rfl
  · rw [Script.run_bind, Script.run_ended]
    congr 1
    funext _
    rw [StepContext.step]
    cases ctx.stored ("enqueue:" ++ target) with
    | some value => rfl
    | none =>
        cases readDeferredSpec p params with
        | none => rfl
        | some spec => simp [observedEnqueueDeferredTarget_eq_run]

theorem enqueueDeferredTargetScript_ending (target : String) (spec : DeferredSpec) :
  (enqueueDeferredTargetScript p spawn now sender target spec).ending
    = ((enqueueDeferredTarget p spawn now target spec).mapError .enqueue).map
        (fun result => .str result.id)
  := by
  unfold enqueueDeferredTargetScript enqueueDeferredTarget
  cases deferredTarget p target spec.queue spec.options with
  | error e => rfl
  | ok t =>
      simp only [Script.ending_bind, Task.enqueueScript_ending]
      cases t.enqueue p spawn now spec.args spec.kwargs <;> rfl

theorem deferredScript_ending (target : String) (params : Json) (ctx : StepContext) :
  (deferredScript p spawn now sender target params ctx).ending
    = deferredEnding p spawn now target params ctx
  := by
  unfold deferredScript deferredEnding
  split
  · rfl
  · rw [Script.ending_bind, Script.ending_ended]
    congr 1
    funext _
    split
    · rfl
    · rfl
    · rename_i spec _ _
      simp only [Script.ending_bind, Script.ending_ended, enqueueDeferredTargetScript_ending]
      cases enqueueDeferredTarget p spawn now target spec <;> rfl

end Enqueues

theorem handler_eq_run (obs : Receivers) (p : Project) (py : TaskRuntime) (d : Delivery) :
  handler obs p py d = (handlerScript p py d).run obs
  := by
  unfold handler handlerScript
  rw [Script.run_bind, Script.run_ended]
  congr 1
  funext result
  rw [Script.run_bind, sendTaskSignal, signalScript, Script.run_send]
  congr 1
  funext _
  cases callTask py d result with
  | ok value => simp [sendTaskSignal, signalScript]
  | error e =>
      rw [Observed.tryExcept_ended_error, sendFinishedIfTerminal]
      cases hcaught : e.isException with
      | false => simp [hcaught]
      | true =>
          cases hends : e.endsRun with
          | true => simp [hcaught, hends]
          | false =>
              cases isTerminalAttempt d.ctx.attempt d.ctx.maxAttempts with
              | false => simp [hcaught, hends]
              | true => simp [hcaught, hends, sendTaskSignal, signalScript]

/-- How the run of a task ends by itself. -/
theorem handlerScript_ending (p : Project) (py : TaskRuntime) (d : Delivery) :
  (handlerScript p py d).ending = handlerEnding p py d
  := by
  unfold handlerScript handlerEnding
  simp only [Script.ending_bind, Script.ending_ended]
  congr 1
  funext result
  change Script.ending _ = _
  cases callTask py d result with
  | ok value =>
      simp only [Script.ending_bind, Script.ending_ended]
      rfl
  | error e =>
      dsimp only
      split <;> rfl

/-! ### The outcome of a run -/

/-- What the observers were told when the handler of a run starts. -/
def toldAtStart (obs : Receivers) (ctx : RunContext) (told : List Event) : List Event :=
  (reportRunEvent obs .info "task started" ctx none none told).2

/-- The log of an execution does not change its outcome. -/
theorem logTaskExecution_ends (obs : Receivers) (ctx : RunContext) (duration : String)
    (execute : Observed Event Exc PyValue) (told : List Event) :
  (logTaskExecution obs ctx duration execute told).1 = (execute (toldAtStart obs ctx told)).1
  := by
  unfold logTaskExecution
  rw [reportRunEvent, Observed.suppressed_bind_ends, Observed.bind_ends_of_keeps,
    Observed.tryExcept_ends_of_keeps]
  · rfl
  · intro e told'
    cases e <;> exact Observed.suppressed_bind_ends _ _ _ _ _
  · intro a told'
    exact Observed.suppressed_bind_ends _ _ _ _ _

/-- A script whose outcome is observed, against the same script unobserved. -/
theorem run_eq_silent_iff {α : Type} (obs : Receivers) (x : Script Event Exc α) (told told' : List Event) :
  (x.run obs told).1 = (x.run Receivers.none told').1
    ↔ ∀ e, x.escape obs told = some e → x.ending = .error e
  := by
  rw [Receivers.none, Script.run_silent, Script.run_eq_ending_iff]

/-- An enqueue whose spawn is not reached sends nothing, and an enqueue ends with an
exception exactly when its spawn does. -/
theorem enqueueScript_ending_iff (obs : Receivers) (p : Project) (spawn : Spawn) (now : Time)
    (sender : String) (b : Backend) (config : AbsurdConfig) (t : Task) (args : List PyValue)
    (kwargs : Kwargs) (told : List Event) {e : Exc}
    (hescape : (enqueueScript p spawn now sender b config t args kwargs).escape obs told = some e) :
  (enqueueScript p spawn now sender b config t args kwargs).ending = .error e
    ↔ spawnEnding p spawn b config t args kwargs = .error e
  := by
  by_cases hvalid : b.validates t = true
  · rw [enqueueScript_ending, absurdEnqueue_eq_map _ _ _ hvalid]
    cases spawnEnding p spawn b config t args kwargs <;> simp [Except.map]
  · rw [enqueueScript, if_neg hvalid] at hescape
    cases hescape

/-- Take any receivers and loggers, and what they were told before. An enqueue ends as with
none of them exactly when the exception that escapes its log or its signal, if one does, is
the one its spawn raises. A run of a task, and a run of a wrapper, ends as with none of them
exactly when the exception that escapes its signals, if one does, is the one it raises by
itself. -/
theorem outcome_kept_iff (obs : Receivers) (p : Project) (spawn : Spawn) (now : Time)
    (sender : String) (told : List Event) :
  (∀ (b : Backend) (config : AbsurdConfig) (t : Task) (args : List PyValue) (kwargs : Kwargs),
      (observedEnqueue obs p spawn now sender b config t args kwargs told).1
          = (observedEnqueue .none p spawn now sender b config t args kwargs []).1
        ↔ ∀ e, (enqueueScript p spawn now sender b config t args kwargs).escape obs told = some e →
            spawnEnding p spawn b config t args kwargs = .error e)
    ∧ (∀ (py : TaskRuntime) (d : Delivery) (duration : String),
      (logTaskExecution obs d.ctx duration (handler obs p py d) told).1
          = (logTaskExecution .none d.ctx duration (handler .none p py d) []).1
        ↔ ∀ e, (handlerScript p py d).escape obs (toldAtStart obs d.ctx told) = some e →
            handlerEnding p py d = .error e)
    ∧ (∀ (target : String) (params : Json) (step : StepContext) (ctx : RunContext)
        (duration : String),
      (logTaskExecution obs ctx duration
            (deferredHandler obs p spawn now sender target params step) told).1
          = (logTaskExecution .none ctx duration
            (deferredHandler .none p spawn now sender target params step) []).1
        ↔ ∀ e, (deferredScript p spawn now sender target params step).escape obs
              (toldAtStart obs ctx told) = some e →
            deferredEnding p spawn now target params step = .error e)
  := by
  refine ⟨?_, ?_, ?_⟩
  · intro b config t args kwargs
    rw [observedEnqueue_eq_run, observedEnqueue_eq_run, run_eq_silent_iff]
    apply forall_congr'
    intro e
    apply forall_congr'
    intro hescape
    exact enqueueScript_ending_iff obs p spawn now sender b config t args kwargs told hescape
  · intro py d duration
    rw [logTaskExecution_ends, logTaskExecution_ends, handler_eq_run, handler_eq_run,
      run_eq_silent_iff, handlerScript_ending]
  · intro target params step ctx duration
    rw [logTaskExecution_ends, logTaskExecution_ends, deferredHandler_eq_run,
      deferredHandler_eq_run, run_eq_silent_iff, deferredScript_ending]

/-- A receiver that raises at `task_finished`, and a filter that raises at the record of
that. -/
def brokenReceivers : Receivers where
  raises
    | _, .sent .taskFinished _ _ => some (.exception "builtins.RuntimeError" "receiver is broken")
    | _, .logged record =>
        if record.logger = "django_absurd.dispatch" then
          some (.exception "builtins.ValueError" "cannot emit the line")
        else none
    | _, _ => none
  caught_of_raises := by
    intro told event e h
    split at h
    · cases h
      rfl
    · split at h
      · cases h
        rfl
      · cases h
    · cases h

/-- The first attempt of `tasks.add`, which returns `3`. -/
def addDelivery : Delivery where
  task := addTask .absurdTask "absurd"
  sender := "AbsurdBackend"
  backend := "absurd"
  queue := "default"
  params := ⟨some [.int 1, .int 2], some []⟩
  ctx := ⟨"0", "tasks.add", 1, some 5⟩
  startedAt := 0
  finishedAt := 1

/-- The call of `tasks.add`. -/
def addRuntime : TaskRuntime where
  call _ _ _ _ := .ok (.int 3)
  normalizeJson := .ok
  classPath
    | .exception name _ => name
    | _ => ""
  formatException _ := ""

/-- A run that returned is reported as failed, and its attempt is spent. -/
theorem raising_record_fails_run :
  ¬ ∀ (obs : Receivers) (p : Project) (spawn : Spawn) (now : Time) (sender : String)
      (told : List Event),
    (∀ (b : Backend) (config : AbsurdConfig) (t : Task) (args : List PyValue) (kwargs : Kwargs),
        (observedEnqueue obs p spawn now sender b config t args kwargs told).1
          = (observedEnqueue .none p spawn now sender b config t args kwargs []).1)
      ∧ (∀ (py : TaskRuntime) (d : Delivery) (duration : String),
        (logTaskExecution obs d.ctx duration (handler obs p py d) told).1
          = (logTaskExecution .none d.ctx duration (handler .none p py d) []).1)
      ∧ (∀ (target : String) (params : Json) (step : StepContext) (ctx : RunContext)
          (duration : String),
        (logTaskExecution obs ctx duration
              (deferredHandler obs p spawn now sender target params step) told).1
          = (logTaskExecution .none ctx duration
              (deferredHandler .none p spawn now sender target params step) []).1)
  := by
  intro h
  obtain ⟨-, hruns, -⟩ :=
    h brokenReceivers (twoBackends (addTask .absurdTask "absurd")) (fun _ => .ok ⟨0⟩) 0
      "AbsurdBackend" []
  have hrun := hruns addRuntime addDelivery "0.000"
  have hbroken : (logTaskExecution brokenReceivers addDelivery.ctx "0.000"
      (handler brokenReceivers (twoBackends (addTask .absurdTask "absurd")) addRuntime
        addDelivery) []).1 = .error (.exception "builtins.ValueError" "cannot emit the line") := rfl
  have hsilent : (logTaskExecution .none addDelivery.ctx "0.000"
      (handler .none (twoBackends (addTask .absurdTask "absurd")) addRuntime addDelivery) []).1
        = .ok (.int 3) := rfl
  rw [hbroken, hsilent] at hrun
  cases hrun

end DjangoAbsurd
