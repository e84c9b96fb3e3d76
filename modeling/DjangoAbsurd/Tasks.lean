import DjangoAbsurd.Engine.State
import DjangoAbsurd.Library.Overlay

/-!
# Tasks and their spawn parameters

A Django `Task` names a function, a task backend and a queue. `using` and
`absurd_params(...).bind` derive tasks from tasks; every task is validated by its backend
when it is built. An `AbsurdTask` carries spawn parameters as a field, folded over the
parameters its function is decorated with.
-/

namespace DjangoAbsurd

open Engine (Time)

/-- A datetime: an instant in UTC when it is aware, a wall time when it is naive. -/
structure DateTime where
  moment : Time
  aware : Bool
  deriving DecidableEq, Repr

/-- The fields of `SpawnKwargs`. -/
inductive SpawnField where
  | maxAttempts
  | retryStrategy
  | cancellation
  | headers
  | idempotencyKey
  deriving DecidableEq, Repr

/-- The keyword of a field. -/
def SpawnField.keyword : SpawnField → String
  | .maxAttempts => "max_attempts"
  | .retryStrategy => "retry_strategy"
  | .cancellation => "cancellation"
  | .headers => "headers"
  | .idempotencyKey => "idempotency_key"

/-- `FIELD_NAMES`. -/
def SpawnField.all : List SpawnField :=
  [.maxAttempts, .retryStrategy, .cancellation, .headers, .idempotencyKey]

theorem SpawnField.mem_all (f : SpawnField) :
  f ∈ SpawnField.all
  := by
  cases f <;> decide

theorem SpawnField.keyword_injective {f g : SpawnField} (h : f.keyword = g.keyword) :
  f = g
  := by
  cases f <;> cases g <;> first | rfl | simp [SpawnField.keyword] at h

/-- `SpawnKwargs`: the fields that are present, with their values. -/
abbrev SpawnKwargs := SpawnField → Option PyValue

/-- `{}`. -/
def SpawnKwargs.empty : SpawnKwargs := fun _ => none

/-- The item of a field, when it is present. -/
def SpawnKwargs.item (kwargs : SpawnKwargs) (f : SpawnField) : Option (String × PyValue) :=
  (kwargs f).map (fun v => (f.keyword, v))

/-- `dict(kwargs)`. -/
def SpawnKwargs.toDict (kwargs : SpawnKwargs) : List (String × PyValue) :=
  SpawnField.all.filterMap kwargs.item

/-- `build_merged_spawn_options`: the later layer wins, field by field. -/
def buildMergedSpawnOptions (defaults perCall : Option SpawnKwargs) : SpawnKwargs :=
  overlay (defaults.getD .empty) (perCall.getD .empty)

/-- The function of a task: its `module.qualname` and its decorator defaults. -/
structure Func where
  modulePath : String
  absurdParams : Option SpawnKwargs

/-- The classes of tasks. -/
inductive TaskClass where
  | task
  | absurdTask
  deriving DecidableEq, Repr

/-- `__name__` of a class of tasks. -/
def TaskClass.name : TaskClass → String
  | task => "Task"
  | absurdTask => "AbsurdTask"

/-- A `Task`, or an `AbsurdTask` with its spawn parameters. -/
structure Task where
  taskClass : TaskClass
  func : Func
  priority : ℤ
  backend : String
  queueName : String
  runAfter : Option DateTime
  takesContext : Bool
  absurdParams : Option SpawnKwargs

/-- `task.module_path`. -/
def Task.modulePath (t : Task) : String := t.func.modulePath

/-- The parameters a spawn of the task starts from: those it carries, or its function's
when it is not an `AbsurdTask`. -/
def Task.params (t : Task) : Option SpawnKwargs :=
  match t.taskClass with
  | .absurdTask => t.absurdParams
  | .task => t.func.absurdParams

/-- The options an `AbsurdBackend` reads. -/
structure AbsurdConfig where
  database : String
  defaultMaxAttempts : ℤ
  declaredQueues : List String

/-- A configured task backend. No queue in `queues` means any queue. `admits` stands for
the checks of Django's `validate_task` that are not about the queue; they look at the
function, the priority, `run_after` and `takes_context`. -/
structure Backend where
  queues : List String
  admits : Func → ℤ → Option DateTime → Bool → Bool
  absurd : Option AbsurdConfig

/-- What building a task may raise. -/
inductive TaskError where
  | invalidTaskBackend (backend : String)
  | invalidTask (backend queueName : String)
  | typeError (message : String)
  deriving DecidableEq, Repr

/-- The configured backends, `task_backends`. -/
abbrev TaskBackends := String → Option Backend

/-- `backend.validate_task(task)`. -/
def Backend.validates (b : Backend) (t : Task) : Bool :=
  b.admits t.func t.priority t.runAfter t.takesContext
    && (b.queues = [] || t.queueName ∈ b.queues)

/-- `Task.__post_init__`: the backend the task names validates it. -/
def Task.validate (backends : TaskBackends) (t : Task) : Except TaskError Task :=
  match backends t.backend with
  | none => .error (.invalidTaskBackend t.backend)
  | some b => if b.validates t then .ok t else .error (.invalidTask t.backend t.queueName)

/-- The fold of `AbsurdTask.__post_init__`. -/
def Task.foldDefaults (t : Task) : Task :=
  match t.taskClass, t.func.absurdParams, t.absurdParams with
  | .absurdTask, none, none => t
  | .absurdTask, defaults, own =>
      { t with absurdParams := some (buildMergedSpawnOptions defaults own) }
  | .task, _, _ => t

/-- `__post_init__` of the task's class. -/
def Task.postInit (backends : TaskBackends) (t : Task) : Except TaskError Task :=
  t.foldDefaults.validate backends

/-- The arguments of `Task.using`. -/
structure Routing where
  priority : Option ℤ
  queueName : Option String
  runAfter : Option DateTime
  backend : Option String

/-- `Task.using`. -/
def Task.usingWith (backends : TaskBackends) (t : Task) (routing : Routing) :
    Except TaskError Task :=
  Task.postInit backends { t with
    priority := routing.priority.getD t.priority
    queueName := routing.queueName.getD t.queueName
    runAfter := routing.runAfter.or t.runAfter
    backend := routing.backend.getD t.backend }

/-- `ParamsBase.bind`. -/
def bind (backends : TaskBackends) (kwargs : SpawnKwargs) (target : Task) :
    Except TaskError Task :=
  Task.postInit backends { target with
    taskClass := .absurdTask
    absurdParams := some (buildMergedSpawnOptions
      (match target.taskClass with
      | .absurdTask => target.absurdParams
      | .task => none)
      (some kwargs)) }

/-- `build_unsupported_keyword_message`. -/
def buildUnsupportedKeywordMessage (name : String) : String :=
  if name = "queue" ∨ name = "queue_name" then
    "'" ++ name ++ "' cannot be set through absurd_params — queue routing belongs "
      ++ "to Django's Task API:\n\n    send_report.using(queue_name=\"reports\")"
  else
    "'" ++ name ++ "' is an invalid argument for absurd_params. Valid arguments: "
      ++ ", ".intercalate (SpawnField.all.map SpawnField.keyword) ++ "."

/-- `absurd_params(**options)`, up to the form that carries the parameters. -/
def absurdParams (options : List (String × PyValue)) : Except TaskError SpawnKwargs :=
  match options.find? (fun o => o.1 ∉ SpawnField.all.map SpawnField.keyword) with
  | some o => .error (.typeError (buildUnsupportedKeywordMessage o.1))
  | none => .ok (fun f => (options.find? (fun o => o.1 = f.keyword)).map Prod.snd)

/-! ### What deriving a task keeps -/

/-- The spawn parameters of a task, as a layer. -/
def Task.layer (t : Task) : SpawnKwargs := t.params.getD .empty

/-- The decorator defaults of a function, as a layer. -/
def Func.defaults (f : Func) : SpawnKwargs := f.absurdParams.getD .empty

theorem validate_eq_ok {backends : TaskBackends} {t t' : Task} :
  t.validate backends = .ok t' ↔ t = t' ∧ ∃ b, backends t.backend = some b ∧ b.validates t = true
  := by
  unfold Task.validate
  cases backends t.backend with
  | none => simp
  | some b =>
      cases hb : b.validates t with
      | false => simp [hb]
      | true => simp [hb]

/-- Folding the defaults in changes nothing but the parameters. -/
theorem foldDefaults_eq (t : Task) :
  t.foldDefaults = { t with absurdParams := t.foldDefaults.absurdParams }
  := by
  unfold Task.foldDefaults
  split <;> rfl

/-- An `AbsurdTask` carries its own parameters over the defaults of its function. -/
theorem layer_foldDefaults {t : Task} (h : t.taskClass = .absurdTask) :
  t.foldDefaults.layer = overlay t.func.defaults (t.absurdParams.getD .empty)
  := by
  unfold Task.foldDefaults
  split
  · rename_i hdefaults hown
    rw [Task.layer, Task.params, h, Func.defaults, hdefaults, hown]
    rfl
  · simp only [Task.layer, Task.params, h]
    rfl
  · rename_i hclass
    rw [h] at hclass
    cases hclass

/-- A task whose class is not `AbsurdTask` has the defaults of its function. -/
theorem layer_foldDefaults_task {t : Task} (h : t.taskClass = .task) :
  t.foldDefaults.layer = t.func.defaults
  := by
  unfold Task.foldDefaults
  split
  · rename_i hclass _ _
    rw [h] at hclass
    cases hclass
  · rename_i hclass _
    rw [h] at hclass
    cases hclass
  · rw [Task.layer, Task.params, h, Func.defaults]

/-- A task whose backend validates it can be built. -/
theorem postInit_of_validates {backends : TaskBackends} {t : Task} {b : Backend}
    (hb : backends t.backend = some b) (hvalid : b.validates t = true) :
  t.postInit backends = .ok t.foldDefaults
  := by
  apply validate_eq_ok.mpr
  use rfl, b
  rw [foldDefaults_eq]
  exact ⟨hb, hvalid⟩

/-- What building a task gives: the same fields, the parameters folded over the defaults,
and a backend that validates it. -/
theorem postInit_eq_ok {backends : TaskBackends} {t t' : Task}
    (h : t.postInit backends = .ok t') :
  t' = t.foldDefaults ∧ ∃ b, backends t.backend = some b ∧ b.validates t' = true
  := by
  obtain ⟨rfl, b, hb, hvalid⟩ := validate_eq_ok.mp h
  rw [foldDefaults_eq] at hb
  exact ⟨rfl, b, hb, hvalid⟩

/-- The fields of one layer are all fields of another. -/
def Covers (b a : SpawnKwargs) : Prop := ∀ f, a f ≠ none → b f ≠ none

theorem covers_overlay_left (a b : SpawnKwargs) :
  Covers (overlay a b) a
  := fun _ hf => overlay.ne_none.mpr (.inl hf)

theorem covers_overlay_right (a b : SpawnKwargs) :
  Covers (overlay a b) b
  := fun _ hf => overlay.ne_none.mpr (.inr hf)

@[trans]
theorem Covers.trans {a b c : SpawnKwargs} (h : Covers c b) (h' : Covers b a) :
  Covers c a
  := fun f hf => h f (h' f hf)

/-- A task that was built: its parameters cover its function's defaults, and its backend
validates it. -/
structure Task.Built (backends : TaskBackends) (t : Task) : Prop where
  covers : Covers t.layer t.func.defaults
  valid : ∃ b, backends t.backend = some b ∧ b.validates t = true

theorem built_of_postInit {backends : TaskBackends} {t t' : Task}
    (h : t.postInit backends = .ok t') :
  t'.Built backends
  := by
  obtain ⟨rfl, b, hb, hvalid⟩ := postInit_eq_ok h
  constructor
  · have hfunc : t.foldDefaults.func = t.func := by rw [foldDefaults_eq]
    rw [hfunc]
    cases hclass : t.taskClass with
    | absurdTask =>
        rw [layer_foldDefaults hclass]
        apply covers_overlay_left
    | task =>
        rw [layer_foldDefaults_task hclass]
        exact fun _ hf => hf
  · use b
    rw [foldDefaults_eq]
    rw [foldDefaults_eq] at hvalid
    exact ⟨hb, hvalid⟩

/-- What `using` gives. -/
theorem usingWith_eq_ok {backends : TaskBackends} {t t' : Task} {routing : Routing}
    (h : t.usingWith backends routing = .ok t') :
  t'.func = t.func ∧ t'.taskClass = t.taskClass ∧ t'.takesContext = t.takesContext
    ∧ t'.priority = routing.priority.getD t.priority
    ∧ t'.queueName = routing.queueName.getD t.queueName
    ∧ t'.runAfter = routing.runAfter.or t.runAfter
    ∧ t'.backend = routing.backend.getD t.backend
  := by
  obtain ⟨rfl, -⟩ := postInit_eq_ok h
  rw [foldDefaults_eq]
  exact ⟨rfl, rfl, rfl, rfl, rfl, rfl, rfl⟩

/-- `using` succeeds on a backend that admits the task and takes the queue. -/
theorem usingWith_of_admits {backends : TaskBackends} (t : Task) (routing : Routing) {b : Backend}
    (hb : backends (routing.backend.getD t.backend) = some b)
    (hadmits : b.admits t.func (routing.priority.getD t.priority) (routing.runAfter.or t.runAfter)
      t.takesContext = true)
    (hqueue : b.queues = [] ∨ routing.queueName.getD t.queueName ∈ b.queues) :
  ∃ t', t.usingWith backends routing = .ok t'
  := by
  refine ⟨_, postInit_of_validates hb ?_⟩
  rw [Backend.validates, Bool.and_eq_true]
  use hadmits
  simpa using hqueue

/-- `using` keeps the parameters of a task that was built. -/
theorem layer_usingWith {backends : TaskBackends} {t t' : Task} {routing : Routing}
    (hbuilt : t.Built backends) (h : t.usingWith backends routing = .ok t') :
  t'.layer = t.layer
  := by
  obtain ⟨heq, -⟩ := postInit_eq_ok h
  rw [heq]
  cases hclass : t.taskClass with
  | absurdTask =>
      rw [layer_foldDefaults rfl]
      have hlayer : t.layer = t.absurdParams.getD .empty := by
        rw [Task.layer, Task.params, hclass]
      rw [← hlayer]
      apply overlay.eq_right hbuilt.covers
  | task =>
      rw [layer_foldDefaults_task rfl]
      simp only [Func.defaults, Task.layer, Task.params, hclass]

/-- What `bind` gives: an `AbsurdTask` with the same fields, whose parameters are the
defaults, the task's own and the bound ones, the later winning. -/
theorem bind_eq_ok {backends : TaskBackends} {kwargs : SpawnKwargs} {t t' : Task}
    (h : bind backends kwargs t = .ok t') :
  (t'.func = t.func ∧ t'.taskClass = .absurdTask ∧ t'.takesContext = t.takesContext
    ∧ t'.priority = t.priority ∧ t'.queueName = t.queueName ∧ t'.runAfter = t.runAfter
    ∧ t'.backend = t.backend)
    ∧ t'.layer = overlay t.func.defaults
        (overlay (if t.taskClass = .absurdTask then t.layer else SpawnKwargs.empty) kwargs)
  := by
  obtain ⟨rfl, -⟩ := postInit_eq_ok h
  constructor
  · rw [foldDefaults_eq]
    exact ⟨rfl, rfl, rfl, rfl, rfl, rfl, rfl⟩
  · rw [layer_foldDefaults rfl]
    cases hclass : t.taskClass with
    | absurdTask => simp only [Task.layer, Task.params, hclass]; rfl
    | task => rfl

/-- Tasks derived from a definition by any sequence of `using` and
`absurd_params(...).bind`. -/
inductive Derives (backends : TaskBackends) (definition : Task) : Task → Prop where
  | refl : Derives backends definition definition
  | routed {t t' : Task} (routing : Routing) (h : Derives backends definition t)
      (ht : t.usingWith backends routing = .ok t') : Derives backends definition t'
  | bound {t t' : Task} (kwargs : SpawnKwargs) (h : Derives backends definition t)
      (ht : bind backends kwargs t = .ok t') : Derives backends definition t'

/-- Derived tasks were built. -/
theorem Derives.built {backends : TaskBackends} {definition t : Task}
    (hd : definition.Built backends) (h : Derives backends definition t) :
  t.Built backends
  := by
  induction h with
  | refl => exact hd
  | routed routing h ht ih => apply built_of_postInit ht
  | bound kwargs h ht ih => apply built_of_postInit ht

/-- A derived task has its definition's function, is deferred when the definition is, and
has a value for every parameter the definition has one for. -/
theorem Derives.keeps {backends : TaskBackends} {definition t : Task}
    (hd : definition.Built backends) (h : Derives backends definition t) :
  t.func = definition.func ∧ (t.runAfter = none → definition.runAfter = none)
    ∧ Covers t.layer definition.layer
  := by
  induction h with
  | refl => exact ⟨rfl, id, fun _ hf => hf⟩
  | routed routing h ht ih =>
      obtain ⟨hfunc, hafter, hcovers⟩ := ih
      obtain ⟨hfunc', -, -, -, -, hafter', -⟩ := usingWith_eq_ok ht
      rw [hfunc', hafter', layer_usingWith (h.built hd) ht, Option.or_eq_none_iff]
      exact ⟨hfunc, fun hnone => hafter hnone.2, hcovers⟩
  | @bound t t' kwargs h ht ih =>
      obtain ⟨hfunc, hafter, hcovers⟩ := ih
      obtain ⟨⟨hfunc', -, -, -, -, hafter', -⟩, hlayer⟩ := bind_eq_ok ht
      rw [hfunc', hafter', hlayer]
      use hfunc, hafter
      intro f hf
      apply overlay.ne_none.mpr
      cases hclass : t.taskClass with
      | absurdTask =>
          right
          apply overlay.ne_none.mpr
          left
          simpa [hclass] using hcovers f hf
      | task =>
          left
          have hlayer := hcovers f hf
          simpa only [Func.defaults, Task.layer, Task.params, hclass] using hlayer

end DjangoAbsurd
