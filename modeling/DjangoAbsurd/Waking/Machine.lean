import DjangoAbsurd.Engine.Checkpoints
import DjangoAbsurd.Engine.Keys
import DjangoAbsurd.Results
import DjangoAbsurd.Spawning

/-!
# The attempts of a wrapper

A run of a wrapper sleeps until it is due and then enqueues its target in a checkpointed
step. A worker may lose its claim while it does, or die at any moment, so several attempts of
one wrapper may be under way. A `WakingState` has the tables of the queue, the attempts that
have come to the step and what the completed ones returned; `wakingMachine` lets the
attempts, the enqueues with the wrapper's key and whoever else calls the engine go on one
step at a time.

The target is enqueued with the caller's key, and so once, as long as the enqueue goes to the
tables the wrapper is in: it goes through the backend the definition names.
-/

namespace DjangoAbsurd

open Engine

/-! ### Enqueues on the tables of one queue -/

/-- The tables of a queue of a database, and what is used to enqueue on them. -/
structure WakingSetup where
  project : Project
  sdk : Sdk
  pg : Postgres
  raised : EngineError → SpawnError
  database : String
  queue : String

namespace WakingSetup

variable (setup : WakingSetup)

/-- The request is for the queue. -/
def Reaches (request : SpawnRequest) : Prop :=
  request.database = setup.database ∧ request.queue = setup.queue

instance (request : SpawnRequest) : Decidable (setup.Reaches request) :=
  inferInstanceAs (Decidable (_ ∧ _))

/-- `client.spawn`, on the tables of the queue or `elsewhere`. -/
def spawn (elsewhere : Spawn) (s : QueueState) (now : Time) : Spawn := fun request =>
  if setup.Reaches request then spawnOn setup.sdk setup.pg setup.raised s now request
  else elsewhere request

/-- The tables of the queue after a spawn. -/
def after (s : QueueState) (now : Time) (request : SpawnRequest) : QueueState :=
  if setup.Reaches request then
    match setup.sdk.call request with
    | none => s
    | some call =>
        match call.execute setup.pg s now with
        | .error _ => s
        | .ok (s', _) => s'
  else s

/-- The request of an enqueue, when it goes through an Absurd backend and can be written. -/
def request (t : Task) (args : List PyValue) (kwargs : Kwargs) : Option SpawnRequest := do
  let b ← setup.project.backends t.backend
  let config ← b.absurd
  (spawnRequest setup.project config t args kwargs).toOption

/-- An enqueue, and the tables of the queue after it. -/
def enqueue (elsewhere : Spawn) (s : QueueState) (now : Time) (t : Task) (args : List PyValue)
    (kwargs : Kwargs) : Except EnqueueError (QueueState × TaskResult) :=
  (t.enqueue setup.project (setup.spawn elsewhere s now) now args kwargs).map (fun result =>
    (((setup.request t args kwargs).map (setup.after s now)).getD s, result))

/-- What the handler of a wrapper does once its run is due, and the tables of the queue
after it. -/
def wake (elsewhere : Spawn) (s : QueueState) (now : Time) (name : String) (params : Json) :
    Except EnqueueError (QueueState × TaskResult) :=
  match readDeferredSpec setup.project params with
  | none => .error .malformedParams
  | some spec =>
      match deferredTarget setup.project (removeSuffix name deferNameSuffix) spec.queue
          spec.options with
      | .error e => .error e
      | .ok t => setup.enqueue elsewhere s now t spec.args spec.kwargs

/-- An enqueue that reaches the queue executes a call on it and returns the id of the task
the call is given. -/
theorem enqueue_executes {elsewhere : Spawn} {s s' : QueueState} {now : Time} {t : Task}
    {b : Backend} {config : AbsurdConfig} {args : List PyValue} {kwargs : Kwargs}
    {result : TaskResult} (hb : setup.project.backends t.backend = some b)
    (hconfig : b.absurd = some config) (hdatabase : config.database = setup.database)
    (hqueue : t.queueName = setup.queue)
    (h : setup.enqueue elsewhere s now t args kwargs = .ok (s', result)) :
  ∃ request call spawned, spawnRequest setup.project config t args kwargs = .ok request
    ∧ setup.sdk.call request = some call ∧ call.execute setup.pg s now = .ok (s', spawned)
    ∧ result.id = setup.queue ++ ":" ++ setup.project.ids.print spawned.taskId
  := by
  obtain ⟨result', henqueue, heq⟩ := Except.map_eq_ok h
  obtain ⟨hafter, rfl⟩ := Prod.mk.inj heq
  obtain ⟨request, id, hrequest, hspawn, -, -, hid⟩ := enqueue_eq_ok hb hconfig henqueue
  obtain ⟨-, -, hrequestDatabase, -, hrequestQueue⟩ := buildSpawnRequest_eq_ok hrequest
  have hreaches : setup.Reaches request :=
    ⟨hrequestDatabase.trans hdatabase, hrequestQueue.trans hqueue⟩
  have hmade : setup.request t args kwargs = some request := by
    simp [WakingSetup.request, hb, hconfig, hrequest, Except.toOption]
  rw [WakingSetup.spawn, if_pos hreaches, spawnOn, Sdk.spawn] at hspawn
  rw [hmade, Option.map_some, Option.getD_some, after, if_pos hreaches] at hafter
  split at hspawn
  · cases hspawn
  · rename_i call hcall
    simp only [hcall] at hafter
    split at hspawn
    · rename_i s₁ spawned hexecute
      simp only [hexecute] at hafter
      cases hspawn
      subst hafter
      rw [hqueue] at hid
      exact ⟨request, call, spawned, hrequest, hcall, hexecute, hid⟩
    · cases hspawn

end WakingSetup

/-! ### What a wrapper with a key wakes to enqueue -/

/-- The task a wrapper wakes to enqueue is the definition on the queue the wrapper carries,
with the key the wrapper carries. -/
theorem deferredTarget_eq_ok {p : Project} {definition t : Task} {queue key : String}
    {options : SpawnKwargs} (himport : p.importString definition.modulePath = some definition)
    (hkey : options .idempotencyKey = some (.str key))
    (h : deferredTarget p definition.modulePath queue options.toDict = .ok t) :
  t.func = definition.func ∧ t.backend = definition.backend ∧ t.queueName = queue
    ∧ t.runAfter = definition.runAfter ∧ t.layer .idempotencyKey = some (.str key)
  := by
  obtain ⟨definition', himport', hfunc, hbackend, hqueue, hafter⟩ := deferredTarget_keeps h
  rw [himport] at himport'
  obtain rfl := Option.some.inj himport'
  exact ⟨hfunc, hbackend, hqueue, hafter, key_deferredTarget hkey h⟩

/-- The task is the definition's, carries the key and is enqueued on the queue of the
setup. -/
structure KeyedEnqueue (setup : WakingSetup) (definition : Task) (key : String) (t : Task) :
    Prop where
  derives : Derives setup.project.backends definition t
  layer : t.layer .idempotencyKey = some (.str key)
  queue : t.queueName = setup.queue
  database : ∃ b config, setup.project.backends t.backend = some b ∧ b.absurd = some config
    ∧ config.database = setup.database

/-- The name and the params are those of a deferred enqueue with the key. -/
def Wraps (setup : WakingSetup) (definition : Task) (key name : String) (params : Json) : Prop :=
  ∃ t config due args kwargs wrapper, KeyedEnqueue setup definition key t ∧ t.runAfter = some due
    ∧ spawnRequest setup.project config t args kwargs = .ok wrapper
    ∧ name = wrapper.name ∧ params = wrapper.params

/-- The task whose enqueues are keyed: it is imported from its path, its definition is not
deferred, and the SDK sends the key. -/
structure KeyedTask (setup : WakingSetup) (definition : Task) (key : String) : Prop where
  built : definition.Built setup.project.backends
  imported : setup.project.importString definition.modulePath = some definition
  immediate : definition.runAfter = none
  sent : setup.sdk.normalize .idempotencyKey (.str key) = some (some (.str key))

/-- The backend the definition names is an Absurd backend on the database of the queue. -/
def WakesHere (setup : WakingSetup) (definition : Task) : Prop :=
  ∃ b config, setup.project.backends definition.backend = some b ∧ b.absurd = some config
    ∧ config.database = setup.database

/-- A spawn with the key of the enqueues, of the target itself or of a wrapper of it. -/
def SpawnsKeyed (setup : WakingSetup) (definition : Task) (key : String) (deferred : Bool)
    (s s' : QueueState) (id : Uuid) : Prop :=
  ∃ now name params options spawned,
    spawnTask setup.pg s now name params options = .ok (s', spawned) ∧ spawned.taskId = id
    ∧ textMember options "idempotency_key" = some (spawnedKey deferred key)
    ∧ (deferred = false → name = definition.modulePath)
    ∧ (deferred = true → Wraps setup definition key name params)

section

variable {setup : WakingSetup} {definition t : Task} {key : String}

theorem spawnedKey_true_ne_empty (key : String) :
  spawnedKey true key ≠ ""
  := by
  intro hempty
  have hsuffix : deferNameSuffix ≠ "" := by decide
  exact hsuffix (String.append_eq_empty_iff.mp hempty).2

/-- The SDK sends the key of a wrapper as it sends the caller's. -/
theorem KeyedTask.sent_spawnedKey (h : KeyedTask setup definition key) (deferred : Bool) :
  setup.sdk.normalize .idempotencyKey (.str (spawnedKey deferred key))
    = some (some (.str (spawnedKey deferred key)))
  := by
  cases deferred with
  | false => exact h.sent
  | true => exact setup.sdk.normalize_key _ (spawnedKey_true_ne_empty key)

/-- A task derived from the definition has its path. -/
theorem KeyedTask.modulePath_eq (h : KeyedTask setup definition key)
    (ht : Derives setup.project.backends definition t) :
  t.modulePath = definition.modulePath
  := by
  obtain ⟨hfunc, -, -⟩ := ht.keeps h.built
  rw [Task.modulePath, hfunc, ← Task.modulePath]

/-- An enqueue with the key, not deferred or deferred, spawns the target or a wrapper. -/
theorem KeyedEnqueue.spawnsKeyed (htask : KeyedTask setup definition key)
    (h : KeyedEnqueue setup definition key t) {elsewhere : Spawn} {s s' : QueueState} {now : Time}
    {args : List PyValue} {kwargs : Kwargs} {result : TaskResult}
    (henqueue : setup.enqueue elsewhere s now t args kwargs = .ok (s', result)) :
  ∃ id, SpawnsKeyed setup definition key t.runAfter.isSome s s' id
  := by
  obtain ⟨b, config, hb, hconfig, hdatabase⟩ := h.database
  obtain ⟨request, call, spawned, hrequest, hcall, hexecute, -⟩ :=
    setup.enqueue_executes hb hconfig hdatabase h.queue henqueue
  obtain ⟨-, hname, hparams, -⟩ := call_eq_some hcall
  have hkey := key_call h.layer (htask.sent_spawnedKey _) hrequest hcall
  refine ⟨_, now, _, _, _, spawned, hexecute, rfl, hkey, ?_, ?_⟩
  · intro hnone
    rw [Option.isSome_eq_false_iff, Option.isNone_iff_eq_none] at hnone
    rw [hname, name_spawnRequest hnone hrequest, htask.modulePath_eq h.derives]
  · intro hsome
    obtain ⟨due, hdue⟩ := Option.isSome_iff_exists.mp hsome
    exact ⟨t, config, due, args, kwargs, request, h, hdue, hrequest, hname, hparams⟩

/-- What a wrapper with the key enqueues is the target, with the key, on the tables the
wrapper is in. -/
theorem wake_spawnsKeyed (htask : KeyedTask setup definition key)
    (hhere : WakesHere setup definition) {name : String} {params : Json}
    (hwraps : Wraps setup definition key name params) {elsewhere : Spawn} {s s' : QueueState}
    {now : Time} {result : TaskResult}
    (hwake : setup.wake elsewhere s now name params = .ok (s', result)) :
  ∃ id, SpawnsKeyed setup definition key false s s' id
    ∧ result.id = setup.queue ++ ":" ++ setup.project.ids.print id
  := by
  obtain ⟨t, config, due, args, kwargs, wrapper, hkeyed, hdue, hrequest, rfl, rfl⟩ := hwraps
  obtain ⟨hname, items, members, written, -, -, -, hspec⟩ := wrapper_carries hdue hrequest
  have hoptions : reloaded (spawnOptions config t) .idempotencyKey = some (.str key) := by
    rw [reloaded, spawnOptions_eq, overlay.apply, hkeyed.layer]
    rfl
  rw [WakingSetup.wake, hspec, hname, removeSuffix_append, htask.modulePath_eq hkeyed.derives] at hwake
  dsimp only at hwake
  split at hwake
  · cases hwake
  · rename_i target htarget
    obtain ⟨hfunc, hbackend, hqueue, hafter, hlayer⟩ :=
      deferredTarget_eq_ok htask.imported hoptions htarget
    rw [htask.immediate] at hafter
    obtain ⟨b, config', hb, hconfig, hdatabase⟩ := hhere
    rw [← hbackend] at hb
    obtain ⟨request, call, spawned, hrequest', hcall, hexecute, hid⟩ :=
      setup.enqueue_executes hb hconfig hdatabase (hqueue.trans hkeyed.queue) hwake
    obtain ⟨-, hcallName, -⟩ := call_eq_some hcall
    have hkey := key_call hlayer (htask.sent_spawnedKey _) hrequest' hcall
    rw [hafter] at hkey
    refine ⟨spawned.taskId, ⟨now, _, _, _, spawned, hexecute, rfl, hkey, ?_, ?_⟩, hid⟩
    · intro _
      rw [hcallName, name_spawnRequest hafter hrequest', Task.modulePath, hfunc, ← Task.modulePath]
    · intro hfalse
      cases hfalse

end

/-! ### The machine of the attempts -/

/-- The step that enqueues a target. -/
def enqueueStep (target : String) : String := "enqueue:" ++ target

/-- Where an attempt is: the function of the step runs, it has returned an id, or the step
has returned a value. -/
inductive WakingPhase where
  | enqueuing
  | enqueued (id : String)
  | returned (value : Json)

/-- An attempt of a wrapper that has come to the step: its run, and the task it was claimed
with. -/
structure WakingAttempt where
  run : Uuid
  task : Uuid
  name : String
  params : Json
  phase : WakingPhase

/-- The step of the attempt. -/
def WakingAttempt.step (a : WakingAttempt) : String :=
  enqueueStep (removeSuffix a.name deferNameSuffix)

/-- The tables of the queue, the attempts under way, and the task and the payload of every
attempt that completed. -/
structure WakingState where
  queue : QueueState
  attempts : ℕ → Option WakingAttempt
  completed : List (Uuid × Json)

/-- No task is there and no attempt is under way. -/
def WakingState.create (storage : StorageMode) : WakingState :=
  ⟨.create storage, fun _ => none, []⟩

/-- An attempt goes on, or is gone. -/
def WakingState.setAttempt (S : WakingState) (n : ℕ) (a : Option WakingAttempt) : WakingState :=
  { S with attempts := Function.update S.attempts n a }

/-- What holds of every attempt holds of every one still when one goes on with it. -/
theorem WakingState.forall_setAttempt {S : WakingState} {P : WakingAttempt → Prop}
    (h : ∀ n a, S.attempts n = some a → P a) (n : ℕ) {a : Option WakingAttempt}
    (ha : ∀ a', a = some a' → P a') :
  ∀ n' a', (S.setAttempt n a).attempts n' = some a' → P a'
  := by
  intro n' a' ha'
  rw [WakingState.setAttempt] at ha'
  simp only [Function.update_apply] at ha'
  split at ha'
  · exact ha a' ha'
  · exact h n' a' ha'

/-- What happens next: anyone calls the engine; a task is enqueued; an attempt comes to the
step, runs the function of the step, commits what it returned, or completes its run; or an
attempt dies. -/
inductive WakingLabel where
  | call (l : Label)
  | enqueue (now : Time) (t : Task) (args : List PyValue) (kwargs : Kwargs) (elsewhere : Spawn)
  | arrive (n : ℕ) (run : Uuid)
  | wake (n : ℕ) (now : Time) (elsewhere : Spawn)
  | commit (n : ℕ) (now : Time) (extendClaimBy : Option ℤ)
  | complete (n : ℕ) (now : Time)
  | crash (n : ℕ)

namespace WakingSetup

variable (setup : WakingSetup)

/-- The attempt that comes to the step: a checkpoint of the step is replayed. -/
def arrived (s : QueueState) (run : Uuid) : Option WakingAttempt := do
  let r ← s.runs.get? run
  let t ← s.tasks.get? r.taskId
  if isDeferredWrapper t then
    let a : WakingAttempt := ⟨run, t.taskId, t.taskName, t.params, .enqueuing⟩
    match s.checkpoints.get? (a.task, a.step) with
    | none => some a
    | some c => some { a with phase := .returned (c.state.getD .null) }
  else none

/-- One step. An attempt whose call raises is gone. -/
def step (S : WakingState) : WakingLabel → Option WakingState
  | .call l => (Engine.step setup.pg S.queue l).map (fun s => { S with queue := s })
  | .enqueue now t args kwargs elsewhere =>
      match setup.enqueue elsewhere S.queue now t args kwargs with
      | .error _ => some S
      | .ok (s, _) => some { S with queue := s }
  | .arrive n run => (arrived S.queue run).map (fun a => S.setAttempt n (some a))
  | .wake n now elsewhere =>
      match S.attempts n with
      | some ⟨run, task, name, params, .enqueuing⟩ =>
          match setup.wake elsewhere S.queue now name params with
          | .error _ => some (S.setAttempt n none)
          | .ok (s, result) =>
              some ({ S with queue := s }.setAttempt n
                (some ⟨run, task, name, params, .enqueued result.id⟩))
      | _ => none
  | .commit n now extendClaimBy =>
      match S.attempts n with
      | some ⟨run, task, name, params, .enqueued id⟩ =>
          match setTaskCheckpointState S.queue now task
              (enqueueStep (removeSuffix name deferNameSuffix)) (some (.str id)) run
              extendClaimBy with
          | .error _ => some (S.setAttempt n none)
          | .ok s =>
              some ({ S with queue := s }.setAttempt n
                (some ⟨run, task, name, params, .returned (.str id)⟩))
      | _ => none
  | .complete n now =>
      match S.attempts n with
      | some ⟨run, task, _, _, .returned value⟩ =>
          match completeRun S.queue now run (some value) with
          | .error _ => some (S.setAttempt n none)
          | .ok s =>
              some ({ S with queue := s, completed := (task, value) :: S.completed }.setAttempt n
                none)
      | _ => none
  | .crash n => some (S.setAttempt n none)

/-- The machine of the attempts. -/
def wakingMachine : Machine WakingState WakingLabel := ⟨setup.step⟩

end WakingSetup

end DjangoAbsurd
