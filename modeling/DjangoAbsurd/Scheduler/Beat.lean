import DjangoAbsurd.Deferred

/-!
# Schedules and the beat scheduler

A `SCHEDULE` entry names a task object by its dotted path. The beat scheduler imports the
object, routes it to its own backend and to the entry's queue, binds an idempotency key for
the due time to it and enqueues it.

The SDK normalizes the options of an enqueue field by field and calls `absurd.spawn_task`;
the arguments of that call are a `SpawnCall`.
-/

namespace DjangoAbsurd

open Engine (Time Uuid)

/-- A spec of the `SCHEDULE` setting. -/
structure ScheduleSpec where
  task : String
  cron : String
  queue : Option String
  args : List PyValue
  kwargs : Kwargs

/-- `Schedule`. -/
structure Schedule where
  name : String
  task : String
  cron : String
  queue : Option String
  args : List PyValue
  kwargs : Kwargs
  backend : String

/-- `get_settings_schedules`. An empty queue is no queue. -/
def getSettingsSchedules (backend : String) (scheduleMap : List (String × ScheduleSpec)) :
    List Schedule :=
  scheduleMap.map (fun entry =>
    { name := entry.1
      task := entry.2.task
      cron := entry.2.cron
      queue := entry.2.queue.filter (· ≠ "")
      args := entry.2.args
      kwargs := entry.2.kwargs
      backend })

/-- The text of an instant to the second, and the SHA-256 of a text in hexadecimal. -/
structure KeyFormat where
  isoSeconds : Time → String
  sha256 : String → String

/-- `derive_idempotency_key`. -/
def deriveIdempotencyKey (k : KeyFormat) (schedule : Schedule) (due : Time) : String :=
  let raw := schedule.backend ++ "|" ++ schedule.name ++ "|" ++ schedule.cron ++ "|"
    ++ k.isoSeconds due
  "cron:" ++ String.ofList ((k.sha256 raw).toList.take 24)

theorem deriveIdempotencyKey_ne_empty (k : KeyFormat) (schedule : Schedule) (due : Time) :
  deriveIdempotencyKey k schedule due ≠ ""
  := by
  intro h
  rw [deriveIdempotencyKey, String.append_eq_empty_iff] at h
  exact absurd h.1 (by decide)

/-- The task `spawn_scheduled` enqueues. -/
def scheduledTask (p : Project) (schedule : Schedule) (key : String) : Except EnqueueError Task :=
  match p.importString schedule.task with
  | none => .error (.importError schedule.task)
  | some t =>
      match t.usingWith p.backends ⟨none, schedule.queue, none, some schedule.backend⟩ with
      | .error e => .error (.task e)
      | .ok t =>
          match bind p.backends (keyOnly key) t with
          | .error e => .error (.task e)
          | .ok t => .ok t

/-! ### The call the SDK makes -/

/-- `_normalize_spawn_options`, field by field: a value is refused, left out or written. A
key that is not empty is written as it is. -/
structure Sdk where
  normalize : SpawnField → Json → Option (Option Json)
  normalize_key : ∀ s, s ≠ "" → normalize .idempotencyKey (.str s) = some (some (.str s))

/-- The arguments of `absurd.spawn_task`. -/
structure SpawnCall where
  queue : String
  name : String
  params : Json
  options : SpawnField → Option Json

/-- A field is set to a value the SDK does not refuse, or is not set. -/
def Sdk.Takes (sdk : Sdk) (options : SpawnField → Option Json) (f : SpawnField) : Prop :=
  ∀ j, options f = some j → sdk.normalize f j ≠ none

instance (sdk : Sdk) (options : SpawnField → Option Json) (f : SpawnField) :
    Decidable (sdk.Takes options f) :=
  match h : options f with
  | none => .isTrue (fun j hj => by rw [h] at hj; cases hj)
  | some j =>
      if hj : sdk.normalize f j = none then .isFalse (fun hall => hall j h hj)
      else .isTrue (fun j' hj' => by rw [h] at hj'; cases hj'; exact hj)

/-- The normalized options, unless a value is refused. -/
def Sdk.options (sdk : Sdk) (options : SpawnField → Option Json) :
    Option (SpawnField → Option Json) :=
  if ∀ f ∈ SpawnField.all, sdk.Takes options f then
    some (fun f => (options f).bind (fun j => (sdk.normalize f j).join))
  else none

/-- The call the SDK makes for a request. -/
def Sdk.call (sdk : Sdk) (request : SpawnRequest) : Option SpawnCall :=
  (sdk.options request.options).map (fun options =>
    { queue := request.queue, name := request.name, params := request.params, options })

/-- `client.spawn` with the SDK, where `execute` runs `absurd.spawn_task`. -/
def Sdk.spawn (sdk : Sdk) (execute : SpawnCall → Except SpawnError Uuid) : Spawn :=
  fun request =>
    match sdk.call request with
    | none => .error (.other "invalid spawn options")
    | some call => execute call

/-- The call an enqueue through an Absurd backend makes, if it gets that far. -/
def enqueueCall (p : Project) (sdk : Sdk) (t : Task) (args : List PyValue) (kwargs : Kwargs) :
    Option SpawnCall :=
  if "self" ∈ kwargs.map Prod.fst then none
  else do
    let b ← p.backends t.backend
    let config ← b.absurd
    if b.validates t then (spawnRequest p config t args kwargs).toOption.bind sdk.call else none

/-- `spawn_scheduled`, up to the call the SDK makes. -/
def beatCall (p : Project) (sdk : Sdk) (schedule : Schedule) (key : String) : Option SpawnCall :=
  (scheduledTask p schedule key).toOption.bind
    (fun t => enqueueCall p sdk t schedule.args schedule.kwargs)

/-- An SDK that leaves null out and sends every other value as it is. -/
def plainSdk : Sdk where
  normalize _ j := some (if j = .null then none else some j)
  normalize_key s _ := by simp

end DjangoAbsurd
