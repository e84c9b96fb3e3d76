import DjangoAbsurd.Engine.Refinement
import DjangoAbsurd.Scheduler.Beat

/-!
# Enqueues on a queue

The call an enqueue makes, executed on the tables of its queue by `absurd.spawn_task`. The
name, the params and the key of the call are those of the row it creates.
-/

namespace DjangoAbsurd

open Engine

/-- The options of a call as the object that is sent. -/
def SpawnCall.optionsJson (call : SpawnCall) : Json :=
  .obj (SpawnField.all.filterMap (fun f => (call.options f).map (fun j => (f.keyword, j))))

/-- `absurd.spawn_task` on the tables of the queue of a call. -/
def SpawnCall.execute (call : SpawnCall) (pg : Postgres) (s : QueueState) (now : Time) :
    Except EngineError (QueueState × Spawned) :=
  spawnTask pg s now call.name call.params call.optionsJson

/-- `client.spawn` on the tables of a queue, where `raised` is what the driver raises for an
error of `absurd.spawn_task`. -/
def spawnOn (sdk : Sdk) (pg : Postgres) (raised : EngineError → SpawnError) (s : QueueState)
    (now : Time) : Spawn :=
  sdk.spawn (fun call =>
    match call.execute pg s now with
    | .ok (_, spawned) => .ok spawned.taskId
    | .error e => .error (raised e))

/-- The key a call is executed with. -/
theorem key_optionsJson {call : SpawnCall} {key : String}
    (h : call.options .idempotencyKey = some (.str key)) :
  textMember call.optionsJson "idempotency_key" = some key
  := by
  have hall : SpawnField.all
      = [.maxAttempts, .retryStrategy, .cancellation, .headers] ++ [.idempotencyKey] := rfl
  rw [textMember, SpawnCall.optionsJson, Json.get?, hall, List.filterMap_append,
    List.reverse_append]
  simp [h, SpawnField.keyword]

/-- A call without a key is executed without one. -/
theorem key_optionsJson_none {call : SpawnCall} (h : call.options .idempotencyKey = none) :
  textMember call.optionsJson "idempotency_key" = none
  := by
  have hnone : call.optionsJson.get? "idempotency_key" = none := by
    rw [SpawnCall.optionsJson, Json.get?, Option.map_eq_none_iff, List.find?_eq_none]
    intro member hmember hkey
    obtain ⟨f, -, hf⟩ := List.mem_filterMap.mp (List.mem_reverse.mp hmember)
    obtain ⟨j, hj, rfl⟩ := Option.map_eq_some_iff.mp hf
    have hfield : f = .idempotencyKey :=
      SpawnField.keyword_injective (of_decide_eq_true hkey)
    rw [hfield, h] at hj
    cases hj
  rw [textMember, hnone]

/-- The call for a request has its queue, its name, its params and what the SDK makes of its
options. -/
theorem call_eq_some {sdk : Sdk} {request : SpawnRequest} {call : SpawnCall}
    (h : sdk.call request = some call) :
  call.queue = request.queue ∧ call.name = request.name ∧ call.params = request.params
    ∧ call.options = fun f => (request.options f).bind (fun j => (sdk.normalize f j).join)
  := by
  obtain ⟨options, hoptions, rfl⟩ := Option.map_eq_some_iff.mp h
  rw [Sdk.options] at hoptions
  split at hoptions
  · cases hoptions
    exact ⟨rfl, rfl, rfl, rfl⟩
  · cases hoptions

/-- The call an enqueue makes is the call for its request. -/
theorem enqueueCall_eq_some {p : Project} {sdk : Sdk} {t : Task} {args : List PyValue}
    {kwargs : Kwargs} {call : SpawnCall} (h : enqueueCall p sdk t args kwargs = some call) :
  ∃ b config request, p.backends t.backend = some b ∧ b.absurd = some config
    ∧ b.validates t = true ∧ spawnRequest p config t args kwargs = .ok request
    ∧ sdk.call request = some call
  := by
  rw [enqueueCall] at h
  split at h
  · cases h
  · obtain ⟨b, hb, h⟩ := Option.bind_eq_some_iff.mp h
    obtain ⟨config, hconfig, h⟩ := Option.bind_eq_some_iff.mp h
    split at h
    · rename_i hvalid
      obtain ⟨request, hrequest, hcall⟩ := Option.bind_eq_some_iff.mp h
      exact ⟨b, config, request, hb, hconfig, hvalid, Except.toOption_eq_some.mp hrequest, hcall⟩
    · cases h

/-- The key of the call for the request of a task with a caller's key, when the SDK sends
it. -/
theorem key_call {p : Project} {sdk : Sdk} {config : AbsurdConfig} {t : Task}
    {args : List PyValue} {kwargs : Kwargs} {request : SpawnRequest} {call : SpawnCall}
    {key : String} (hkey : t.layer .idempotencyKey = some (.str key))
    (hsent : sdk.normalize .idempotencyKey (.str (spawnedKey t.runAfter.isSome key))
      = some (some (.str (spawnedKey t.runAfter.isSome key))))
    (hrequest : spawnRequest p config t args kwargs = .ok request)
    (hcall : sdk.call request = some call) :
  textMember call.optionsJson "idempotency_key" = some (spawnedKey t.runAfter.isSome key)
  := by
  obtain ⟨-, -, -, hoptions⟩ := call_eq_some hcall
  apply key_optionsJson
  simp only [hoptions, key_of_spawnRequest hkey hrequest, Option.bind_some, hsent]
  rfl

/-- The key of the call an enqueue with a caller's key makes, when the SDK sends it. -/
theorem key_enqueueCall {p : Project} {sdk : Sdk} {t : Task} {args : List PyValue}
    {kwargs : Kwargs} {call : SpawnCall} {key : String}
    (hkey : t.layer .idempotencyKey = some (.str key))
    (hsent : sdk.normalize .idempotencyKey (.str (spawnedKey t.runAfter.isSome key))
      = some (some (.str (spawnedKey t.runAfter.isSome key))))
    (h : enqueueCall p sdk t args kwargs = some call) :
  textMember call.optionsJson "idempotency_key" = some (spawnedKey t.runAfter.isSome key)
  := by
  obtain ⟨b, config, request, -, -, -, hrequest, hcall⟩ := enqueueCall_eq_some h
  apply key_call hkey hsent hrequest hcall

/-- An enqueue on a queue returns the id of the task its call is executed for. -/
theorem enqueue_spawnOn {p : Project} {sdk : Sdk} {pg : Postgres}
    {raised : EngineError → SpawnError} {s : QueueState} {now : Time} {t : Task} {b : Backend}
    {config : AbsurdConfig} {args : List PyValue} {kwargs : Kwargs} {result : TaskResult}
    (hb : p.backends t.backend = some b) (hconfig : b.absurd = some config)
    (h : t.enqueue p (spawnOn sdk pg raised s now) now args kwargs = .ok result) :
  ∃ call s' spawned, enqueueCall p sdk t args kwargs = some call
    ∧ call.execute pg s now = .ok (s', spawned)
    ∧ result.id = t.queueName ++ ":" ++ p.ids.print spawned.taskId
  := by
  obtain ⟨hself, hvalid, -⟩ := (enqueue_isOk_iff hb hconfig).mp ⟨result, h⟩
  obtain ⟨request, id, hrequest, hspawn, -, -, hid⟩ := enqueue_eq_ok hb hconfig h
  rw [spawnOn, Sdk.spawn] at hspawn
  split at hspawn
  · cases hspawn
  · rename_i call hcall
    split at hspawn
    · rename_i s' spawned hexecute
      cases hspawn
      refine ⟨call, s', spawned, ?_, hexecute, hid⟩
      rw [enqueueCall, if_neg hself]
      simp [hb, hconfig, hvalid, hrequest, hcall, Except.toOption]
    · cases hspawn

end DjangoAbsurd
