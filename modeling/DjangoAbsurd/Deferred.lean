import DjangoAbsurd.Backends

/-!
# Deferred enqueues

A deferred enqueue spawns a wrapper. When its run is due, the wrapper's handler imports the
definition its name leads with, routes it to the queue the wrapper carries, binds the
options the wrapper carries and enqueues it.

The options ride through JSON and back over every default of the definition, so the task
that is enqueued is spawned as the caller's would have been, provided it goes through the
same backend: `enqueue_deferred_target` routes the queue and not the backend, so it goes
through the backend the definition names.
-/

namespace DjangoAbsurd

open Engine (Time Uuid UuidText)

/-! ### Reading a wrapper -/

/-- `list(value)` of an array, which is what an enqueue stores. -/
def Json.list? : Json → Option (List PyValue)
  | .arr items => some (loadsItems items)
  | _ => none

/-- `dict(value)` of an object, which is what an enqueue stores. -/
def Json.dict? : Json → Option Kwargs
  | .obj members => some (loadsKwargs members)
  | _ => none

theorem Json.toList?_of_list? {j : Json} {items : List PyValue} (h : j.list? = some items) :
  j.toList? = some items
  := by
  cases j with
  | arr items => exact h
  | null | bool _ | num _ | str _ | obj _ => cases h

theorem Json.toDict?_of_dict? {j : Json} {kwargs : Kwargs} (h : j.dict? = some kwargs) :
  j.toDict? = some (kwargs.map (fun m => (PyKey.str m.1, m.2)))
  := by
  cases j with
  | obj members =>
      obtain rfl := Option.some.inj h
      rw [Json.toDict?, loadsMembers_eq_map, loadsKwargs, List.map_map]
      rfl
  | null | bool _ | num _ | str _ | arr _ => cases h

/-- What the handler of a wrapper reads of its params. -/
structure DeferredSpec where
  args : List PyValue
  kwargs : Kwargs
  queue : String
  options : Kwargs
  due : String

/-- The reads of `build_deferred_handler`. -/
def readDeferredSpec (p : Project) (params : Json) : Option DeferredSpec := do
  let spec ← params.get? "kwargs"
  let args ← (← spec.get? "args").list?
  let kwargs ← (← spec.get? "kwargs").dict?
  let queue ← spec.get? "queue"
  let options ← (← spec.get? "options").dict?
  let due ← spec.get? "due"
  return { args, kwargs, queue := p.str (loads queue), options, due := p.str (loads due) }

/-- The definition, routed to the queue when that is not its own. -/
def routeToQueue (p : Project) (definition : Task) (queue : String) : Except TaskError Task :=
  if definition.queueName ≠ queue then
    definition.usingWith p.backends ⟨none, some queue, none, none⟩
  else .ok definition

/-- The task with the options bound to it, when there are any. -/
def bindOptions (p : Project) (options : Kwargs) (t : Task) : Except TaskError Task :=
  if options.isEmpty then .ok t
  else
    match absurdParams options with
    | .error e => .error e
    | .ok kwargs => bind p.backends kwargs t

/-- The task `enqueue_deferred_target` enqueues. -/
def deferredTarget (p : Project) (target queue : String) (options : Kwargs) :
    Except EnqueueError Task :=
  match p.importString target with
  | none => .error (.importError target)
  | some definition =>
      match routeToQueue p definition queue with
      | .error e => .error (.task e)
      | .ok t =>
          match bindOptions p options t with
          | .error e => .error (.task e)
          | .ok t => .ok t

/-- `enqueue_deferred_target`, up to the result whose id it returns. -/
def enqueueDeferredTarget (p : Project) (spawn : Spawn) (now : Time) (target : String)
    (spec : DeferredSpec) : Except EnqueueError TaskResult :=
  match deferredTarget p target spec.queue spec.options with
  | .error e => .error e
  | .ok t => t.enqueue p spawn now spec.args spec.kwargs

/-- What the handler of a wrapper does once its run is due. -/
def runDeferred (p : Project) (spawn : Spawn) (now : Time) (name : String) (params : Json) :
    Except EnqueueError TaskResult :=
  match readDeferredSpec p params with
  | none => .error .malformedParams
  | some spec => enqueueDeferredTarget p spawn now (removeSuffix name deferNameSuffix) spec

/-! ### Options through JSON -/

/-- The options after `json.dumps` and `json.loads`. -/
def reloaded (options : SpawnKwargs) : SpawnKwargs :=
  fun f => ((options f).bind dumps).map loads

theorem loadsKwargs_dumpsKwargs_options {options : SpawnKwargs} :
  ∀ {fields : List SpawnField} {members : List (String × Json)},
    dumpsKwargs (fields.filterMap options.item) = some members →
    loadsKwargs members = fields.filterMap (reloaded options).item
  | [], members, h => by
      cases h
      rfl
  | f :: fields, members, h => by
      cases hf : options f with
      | none =>
          have hentry : options.item f = none := by rw [SpawnKwargs.item, hf]; rfl
          have hentry' : (reloaded options).item f = none := by
            rw [SpawnKwargs.item, reloaded, hf]; rfl
          rw [List.filterMap_cons_none hentry] at h
          rw [List.filterMap_cons_none hentry']
          apply loadsKwargs_dumpsKwargs_options h
      | some v =>
          have hentry : options.item f = some (f.keyword, v) := by rw [SpawnKwargs.item, hf]; rfl
          rw [List.filterMap_cons_some hentry, dumpsKwargs_cons] at h
          obtain ⟨j, hj, h⟩ := Option.bind_eq_some_iff.mp h
          obtain ⟨rest, hrest, rfl⟩ := Option.map_eq_some_iff.mp h
          have hentry' : (reloaded options).item f = some (f.keyword, loads j) := by
            rw [SpawnKwargs.item, reloaded, hf, Option.bind_some, hj]
            rfl
          rw [List.filterMap_cons_some hentry', ← loadsKwargs_dumpsKwargs_options hrest]
          rfl

theorem find_item (options : SpawnKwargs) (g : SpawnField) :
  ∀ fields : List SpawnField, g ∈ fields →
    ((fields.filterMap options.item).find? (fun o => o.1 = g.keyword)).map Prod.snd
      = options g
  | f :: fields, hg => by
      by_cases hfg : f = g
      · subst hfg
        cases hf : options f with
        | none =>
            have hentry : options.item f = none := by rw [SpawnKwargs.item, hf]; rfl
            rw [List.filterMap_cons_none hentry]
            rw [List.find?_eq_none.mpr]
            · rfl
            · intro o ho
              obtain ⟨f', -, hf'⟩ := List.mem_filterMap.mp ho
              obtain ⟨v, hv, rfl⟩ := Option.map_eq_some_iff.mp hf'
              intro hkey
              have heq : f' = f := SpawnField.keyword_injective (of_decide_eq_true hkey)
              rw [heq, hf] at hv
              cases hv
        | some v =>
            have hentry : options.item f = some (f.keyword, v) := by
              rw [SpawnKwargs.item, hf]; rfl
            rw [List.filterMap_cons_some hentry, List.find?_cons_of_pos (by simp)]
            rfl
      · have hmem : g ∈ fields := List.mem_of_ne_of_mem (Ne.symm hfg) hg
        cases hf : options f with
        | none =>
            have hentry : options.item f = none := by rw [SpawnKwargs.item, hf]; rfl
            rw [List.filterMap_cons_none hentry]
            apply find_item options g fields hmem
        | some v =>
            have hentry : options.item f = some (f.keyword, v) := by
              rw [SpawnKwargs.item, hf]; rfl
            rw [List.filterMap_cons_some hentry, List.find?_cons_of_neg]
            · apply find_item options g fields hmem
            · intro hkey
              apply hfg (SpawnField.keyword_injective (of_decide_eq_true hkey))

/-- Options passed by keyword are the options. -/
theorem absurdParams_toDict (options : SpawnKwargs) :
  absurdParams options.toDict = .ok options
  := by
  have hknown : options.toDict.find?
      (fun o => decide (o.1 ∉ SpawnField.all.map SpawnField.keyword)) = none := by
    rw [List.find?_eq_none]
    intro o ho hunknown
    obtain ⟨f, hf, hentry⟩ := List.mem_filterMap.mp ho
    obtain ⟨v, -, rfl⟩ := Option.map_eq_some_iff.mp hentry
    apply of_decide_eq_true hunknown
    apply List.mem_map_of_mem hf
  rw [absurdParams, hknown]
  apply congrArg Except.ok
  funext g
  apply find_item options g SpawnField.all g.mem_all

theorem isSome_dumps_of_mem {item : String × PyValue} :
  ∀ {kwargs : Kwargs} {members : List (String × Json)}, dumpsKwargs kwargs = some members →
    item ∈ kwargs → (dumps item.2).isSome = true
  | (key, v) :: kwargs, members, h, hitem => by
      rw [dumpsKwargs_cons] at h
      obtain ⟨j, hj, h⟩ := Option.bind_eq_some_iff.mp h
      obtain ⟨rest, hrest, -⟩ := Option.map_eq_some_iff.mp h
      rcases List.mem_cons.mp hitem with rfl | hitem
      · rw [hj]
        rfl
      · apply isSome_dumps_of_mem hrest hitem

/-- A dictionary keeps its keys through JSON. -/
theorem keys_loadsKwargs :
  ∀ {kwargs : Kwargs} {members : List (String × Json)}, dumpsKwargs kwargs = some members →
    (loadsKwargs members).map Prod.fst = kwargs.map Prod.fst
  | [], members, h => by
      cases h
      rfl
  | (key, v) :: kwargs, members, h => by
      rw [dumpsKwargs_cons] at h
      obtain ⟨j, -, h⟩ := Option.bind_eq_some_iff.mp h
      obtain ⟨rest, hrest, rfl⟩ := Option.map_eq_some_iff.mp h
      rw [List.map_cons, ← keys_loadsKwargs hrest]
      rfl

theorem dumpsOptions_eq_some {options : SpawnKwargs} {written : SpawnField → Option Json} :
  dumpsOptions options = some written
    ↔ (∀ f, (options f).all (fun v => (dumps v).isSome) = true)
      ∧ written = fun f => (options f).bind dumps
  := by
  rw [dumpsOptions]
  split
  · rename_i h
    rw [Option.some_inj]
    constructor
    · rintro rfl
      exact ⟨fun f => h f f.mem_all, rfl⟩
    · rintro ⟨-, rfl⟩
      rfl
  · rename_i h
    simp only [reduceCtorEq, false_iff, not_and]
    intro hall
    exact absurd (fun f _ => hall f) h

/-- Options written as a dictionary can be written one by one. -/
theorem dumpsOptions_of_toDict {options : SpawnKwargs} {members : List (String × Json)}
    (h : dumpsKwargs options.toDict = some members) :
  dumpsOptions options = some (fun f => (options f).bind dumps)
  := by
  apply dumpsOptions_eq_some.mpr
  use fun f => ?_
  cases hf : options f with
  | none => rfl
  | some v =>
      have hitem : (f.keyword, v) ∈ options.toDict := by
        apply List.mem_filterMap.mpr
        use f, f.mem_all
        rw [SpawnKwargs.item, hf]
        rfl
      rw [Option.all_some]
      apply isSome_dumps_of_mem h hitem

/-- Options are sent the same after a round through JSON. -/
theorem dumpsOptions_reloaded {options : SpawnKwargs} {written : SpawnField → Option Json}
    (h : dumpsOptions options = some written) :
  dumpsOptions (reloaded options) = some written
  := by
  obtain ⟨hall, rfl⟩ := dumpsOptions_eq_some.mp h
  apply dumpsOptions_eq_some.mpr
  constructor
  · intro f
    rw [reloaded]
    cases (options f).bind dumps with
    | none => rfl
    | some j => simp [dumps_loads]
  · funext f
    rw [reloaded]
    cases (options f).bind dumps with
    | none => rfl
    | some j => simp [dumps_loads]

/-! ### The request of a wrapper -/

theorem callParams_dumps (args : List PyValue) (kwargs : Kwargs) :
  dumps (callParams args kwargs)
    = (dumpsItems args).bind (fun args => (dumpsKwargs kwargs).map (fun kwargs =>
        Json.obj [("args", .arr args), ("kwargs", .obj kwargs)]))
  := by
  rw [callParams, dumps_pyDict, dumpsKwargs_cons, dumpsKwargs_cons, dumpsKwargs_nil,
    dumps_pyDict, dumps]
  cases dumpsItems args with
  | none => rfl
  | some args => cases dumpsKwargs kwargs <;> rfl

theorem buildSpawnRequest_eq_ok {database queue name : String} {params : PyValue}
    {options : SpawnKwargs} {request : SpawnRequest}
    (h : buildSpawnRequest database queue (name, params, options) = .ok request) :
  dumps params = some request.params ∧ dumpsOptions options = some request.options
    ∧ request.database = database ∧ request.name = name ∧ request.queue = queue
  := by
  rw [buildSpawnRequest] at h
  split at h
  · rename_i hparams hoptions
    cases h
    exact ⟨hparams, hoptions, rfl, rfl, rfl⟩
  · cases h

/-- A request that is not deferred has the name of the task. -/
theorem name_spawnRequest {p : Project} {config : AbsurdConfig} {t : Task} {args : List PyValue}
    {kwargs : Kwargs} {request : SpawnRequest} (hafter : t.runAfter = none)
    (h : spawnRequest p config t args kwargs = .ok request) :
  request.name = t.modulePath
  := by
  rw [spawnRequest, prepareSpawn, hafter] at h
  obtain ⟨-, -, -, hname, -⟩ := buildSpawnRequest_eq_ok h
  exact hname

/-- What is read of the params of a wrapper. -/
theorem readDeferredSpec_obj (p : Project) (items : List Json)
    (members options : List (String × Json)) (queue due : String) :
  readDeferredSpec p (.obj [("args", .arr []), ("kwargs", .obj [("args", .arr items),
      ("kwargs", .obj members), ("queue", .str queue), ("options", .obj options),
      ("due", .str due)])])
    = some {
        args := loadsItems items
        kwargs := loadsKwargs members
        queue
        options := loadsKwargs options
        due }
  := by
  calc readDeferredSpec p _
    _ = some {
          args := loadsItems items
          kwargs := loadsKwargs members
          queue := p.str (.str queue)
          options := loadsKwargs options
          due := p.str (.str due) } := rfl
    _ = some _ := by rw [p.str_str, p.str_str]

/-- A wrapper whose request can be written carries the caller's call, queue and options,
each as it reads back from JSON. -/
theorem wrapper_carries {p : Project} {config : AbsurdConfig} {t : Task} {due : DateTime}
    {args : List PyValue} {kwargs : Kwargs} {request : SpawnRequest}
    (hdue : t.runAfter = some due) (h : spawnRequest p config t args kwargs = .ok request) :
  request.name = t.modulePath ++ deferNameSuffix
    ∧ ∃ items members written, dumpsItems args = some items
      ∧ dumpsKwargs kwargs = some members
      ∧ dumpsOptions (spawnOptions config t) = some written
      ∧ readDeferredSpec p request.params = some {
          args := loadsItems items
          kwargs := loadsKwargs members
          queue := t.queueName
          options := (reloaded (spawnOptions config t)).toDict
          due := p.isoformat (normalizeToUtc p due) }
  := by
  rw [spawnRequest, prepareSpawn, hdue] at h
  obtain ⟨hparams, -, -, hname, -⟩ := buildSpawnRequest_eq_ok h
  use hname
  rw [wrapperParams, callParams_dumps] at hparams
  simp only [dumpsItems, dumpsKwargs_cons, dumpsKwargs_nil, dumps, Option.bind_some,
    dumps_pyDict] at hparams
  cases hitems : dumpsItems args with
  | none => simp [hitems] at hparams
  | some items =>
      cases hmembers : dumpsKwargs kwargs with
      | none => simp [hitems, hmembers] at hparams
      | some members =>
          cases hoptions : dumpsKwargs (spawnOptions config t).toDict with
          | none => simp [hitems, hmembers, hoptions] at hparams
          | some options =>
              simp only [hitems, hmembers, hoptions, Option.map_some, Option.bind_some,
                Option.some_inj] at hparams
              refine ⟨items, members, _, rfl, rfl, dumpsOptions_of_toDict hoptions, ?_⟩
              rw [← hparams, readDeferredSpec_obj, loadsKwargs_dumpsKwargs_options hoptions]
              rfl

/-! ### What the wrapper wakes to enqueue -/

/-- Reloading keeps the fields that can be written. -/
theorem covers_reloaded {options : SpawnKwargs} {written : SpawnField → Option Json}
    (h : dumpsOptions options = some written) :
  Covers (reloaded options) options
  := by
  obtain ⟨hall, -⟩ := dumpsOptions_eq_some.mp h
  intro f hf
  have hdumps := hall f
  obtain ⟨v, hv⟩ := Option.ne_none_iff_exists'.mp hf
  rw [hv, Option.all_some] at hdumps
  obtain ⟨j, hj⟩ := Option.isSome_iff_exists.mp hdumps
  rw [reloaded, hv, Option.bind_some, hj]
  simp

/-- The options of an enqueue are the parameters of its task over the default. -/
theorem spawnOptions_eq (config : AbsurdConfig) (t : Task) :
  spawnOptions config t = overlay (maxAttemptsOnly config.defaultMaxAttempts) t.layer
  := by
  rw [spawnOptions, buildMergedSpawnOptions]
  apply congrArg
  apply overlay.empty_right

/-- The options of an enqueue cover the parameters of its task. -/
theorem covers_spawnOptions (config : AbsurdConfig) (t : Task) :
  Covers (spawnOptions config t) t.layer
  := by
  rw [spawnOptions_eq]
  apply covers_overlay_right

/-- Options over the layers they cover are the options. -/
theorem layer_bind_of_covers {backends : TaskBackends} {options : SpawnKwargs} {t t' : Task}
    (h : bind backends options t = .ok t') (hdefaults : Covers options t.func.defaults)
    (hlayer : Covers options t.layer) :
  t'.layer = options
  := by
  obtain ⟨-, hbound⟩ := bind_eq_ok h
  rw [hbound]
  have hown : overlay (if t.taskClass = .absurdTask then t.layer else SpawnKwargs.empty) options
      = options := by
    apply overlay.eq_right
    intro f hf
    split at hf
    · apply hlayer f hf
    · cases hf rfl
  rw [hown]
  apply overlay.eq_right hdefaults

/-- The options a task is spawned with are its parameters when these set `max_attempts`. -/
theorem spawnOptions_of_maxAttempts {config : AbsurdConfig} {t : Task}
    (h : t.layer .maxAttempts ≠ none) :
  spawnOptions config t = t.layer
  := by
  rw [spawnOptions_eq]
  apply overlay.eq_right
  intro f hf
  cases f with
  | maxAttempts => exact h
  | retryStrategy | cancellation | headers | idempotencyKey => cases hf rfl

/-- Options of an enqueue set `max_attempts`. -/
theorem spawnOptions_maxAttempts (config : AbsurdConfig) (t : Task) :
  spawnOptions config t .maxAttempts ≠ none
  := by
  rw [spawnOptions_eq]
  apply overlay.ne_none.mpr
  left
  simp [maxAttemptsOnly]

/-- The task a wrapper wakes to enqueue is the definition at the path, on the queue. -/
theorem deferredTarget_keeps {p : Project} {t : Task} {path queue : String} {options : Kwargs}
    (h : deferredTarget p path queue options = .ok t) :
  ∃ definition, p.importString path = some definition ∧ t.func = definition.func
    ∧ t.backend = definition.backend ∧ t.queueName = queue ∧ t.runAfter = definition.runAfter
  := by
  rw [deferredTarget] at h
  split at h
  · cases h
  · rename_i definition himport
    use definition, himport
    split at h
    · cases h
    · rename_i routed hrouted
      split at h
      · cases h
      · rename_i bound hbound
        cases h
        have hroute : routed.func = definition.func ∧ routed.backend = definition.backend
            ∧ routed.queueName = queue ∧ routed.runAfter = definition.runAfter := by
          rw [routeToQueue] at hrouted
          split at hrouted
          · obtain ⟨hfunc, -, -, -, hqueue, hafter, hbackend⟩ := usingWith_eq_ok hrouted
            exact ⟨hfunc, hbackend, hqueue, hafter⟩
          · rename_i hown
            cases hrouted
            exact ⟨rfl, rfl, not_ne_iff.mp hown, rfl⟩
        rw [bindOptions] at hbound
        split at hbound
        · cases hbound
          exact hroute
        · split at hbound
          · cases hbound
          · obtain ⟨⟨hfunc, -, -, -, hqueue, hafter, hbackend⟩, -⟩ := bind_eq_ok hbound
            rw [hfunc, hbackend, hqueue, hafter]
            exact hroute

/-- The task a wrapper wakes to enqueue keeps the backend its definition names. -/
theorem backend_deferredTarget {p : Project} {definition t : Task} {queue : String}
    {options : Kwargs} (himport : p.importString definition.modulePath = some definition)
    (h : deferredTarget p definition.modulePath queue options = .ok t) :
  t.backend = definition.backend
  := by
  obtain ⟨definition', himport', -, hbackend, -⟩ := deferredTarget_keeps h
  rw [himport] at himport'
  obtain rfl := Option.some.inj himport'
  exact hbackend

/-- The task a wrapper wakes to enqueue has the key the wrapper carries. -/
theorem key_deferredTarget {p : Project} {t : Task} {path queue : String} {options : SpawnKwargs}
    {key : PyValue} (hkey : options .idempotencyKey = some key)
    (h : deferredTarget p path queue options.toDict = .ok t) :
  t.layer .idempotencyKey = some key
  := by
  have hnonempty : options.toDict.isEmpty = false := by
    have hitem : (SpawnField.idempotencyKey.keyword, key) ∈ options.toDict := by
      apply List.mem_filterMap.mpr
      use .idempotencyKey, SpawnField.mem_all _
      rw [SpawnKwargs.item, hkey]
      rfl
    apply List.isEmpty_eq_false_iff.mpr (List.ne_nil_of_mem hitem)
  rw [deferredTarget] at h
  split at h
  · cases h
  · split at h
    · cases h
    · split at h
      · cases h
      · rename_i bound hbound
        cases h
        rw [bindOptions, hnonempty, absurdParams_toDict] at hbound
        obtain ⟨-, hlayer⟩ := bind_eq_ok hbound
        rw [hlayer, overlay.apply, overlay.apply, hkey]
        rfl

/-- Routing a definition to a queue its backend takes. -/
theorem routeToQueue_of_validates {p : Project} {definition : Task} {b : Backend}
    {queue : String} (hbuilt : definition.Built p.backends)
    (hb : p.backends definition.backend = some b) (hqueue : b.queues = [] ∨ queue ∈ b.queues) :
  ∃ t, routeToQueue p definition queue = .ok t ∧ t.Built p.backends ∧ t.func = definition.func
    ∧ t.backend = definition.backend ∧ t.queueName = queue
    ∧ t.runAfter = definition.runAfter ∧ t.layer = definition.layer
  := by
  rw [routeToQueue]
  split
  · obtain ⟨b', hb', hvalid⟩ := hbuilt.valid
    rw [hb] at hb'
    cases hb'
    rw [Backend.validates, Bool.and_eq_true] at hvalid
    obtain ⟨t, hroute⟩ := usingWith_of_admits definition ⟨none, some queue, none, none⟩ hb hvalid.1
      hqueue
    obtain ⟨hfunc, -, -, -, hqueueName, hafter, hbackend⟩ := usingWith_eq_ok hroute
    exact ⟨t, hroute, built_of_postInit hroute, hfunc, hbackend, hqueueName, hafter,
      layer_usingWith hbuilt hroute⟩
  · rename_i hown
    exact ⟨definition, rfl, hbuilt, rfl, rfl, not_ne_iff.mp hown, rfl, rfl⟩

/-- Binding options to a task that was built. -/
theorem bindOptions_of_built {p : Project} {t : Task} {options : SpawnKwargs}
    (hbuilt : t.Built p.backends) (hcovers : Covers options t.layer)
    (hmax : options .maxAttempts ≠ none) :
  ∃ t', bindOptions p options.toDict t = .ok t' ∧ t'.Built p.backends ∧ t'.func = t.func
    ∧ t'.backend = t.backend ∧ t'.queueName = t.queueName ∧ t'.runAfter = t.runAfter
    ∧ t'.layer = options
  := by
  have hnonempty : options.toDict.isEmpty = false := by
    obtain ⟨v, hv⟩ := Option.ne_none_iff_exists'.mp hmax
    have hitem : (SpawnField.maxAttempts.keyword, v) ∈ options.toDict := by
      apply List.mem_filterMap.mpr
      use .maxAttempts, SpawnField.mem_all _
      rw [SpawnKwargs.item, hv]
      rfl
    apply List.isEmpty_eq_false_iff.mpr (List.ne_nil_of_mem hitem)
  obtain ⟨b, hb, hvalid⟩ := hbuilt.valid
  have hbind : bind p.backends options t = .ok _ := postInit_of_validates hb hvalid
  rw [bindOptions, hnonempty, absurdParams_toDict]
  obtain ⟨⟨hfunc, -, -, -, hqueue, hafter, hbackend⟩, -⟩ := bind_eq_ok hbind
  exact ⟨_, hbind, built_of_postInit hbind, hfunc, hbackend, hqueue, hafter,
    layer_bind_of_covers hbind (hcovers.trans hbuilt.covers) hcovers⟩

/-- With options that cover the definition's parameters, on a queue the definition's
backend takes, the wrapper's target is the definition with that queue and those options. -/
theorem deferredTarget_of_covers {p : Project} {definition : Task} {b : Backend} {queue : String}
    {options : SpawnKwargs} (hbuilt : definition.Built p.backends)
    (himport : p.importString definition.modulePath = some definition)
    (hb : p.backends definition.backend = some b) (hqueue : b.queues = [] ∨ queue ∈ b.queues)
    (hcovers : Covers options definition.layer) (hmax : options .maxAttempts ≠ none) :
  ∃ target, deferredTarget p definition.modulePath queue options.toDict = .ok target
    ∧ target.Built p.backends ∧ target.func = definition.func
    ∧ target.backend = definition.backend ∧ target.queueName = queue
    ∧ target.runAfter = definition.runAfter ∧ target.layer = options
  := by
  obtain ⟨routed, hrouted, hbuiltR, hfuncR, hbackendR, hqueueR, hafterR, hlayerR⟩ :=
    routeToQueue_of_validates hbuilt hb hqueue
  obtain ⟨target, htarget, hbuiltT, hfuncT, hbackendT, hqueueT, hafterT, hlayerT⟩ :=
    bindOptions_of_built hbuiltR (hlayerR ▸ hcovers) hmax
  refine ⟨target, ?_, hbuiltT, hfuncT.trans hfuncR, hbackendT.trans hbackendR,
    hqueueT.trans hqueueR, hafterT.trans hafterR, hlayerT⟩
  rw [deferredTarget, himport]
  simp only [hrouted, htarget]

/-! ### Deferred routing against immediate routing -/

/-- `task.using(backend=…, queue_name=…, run_after=…).enqueue(*args, **kwargs)`. -/
def enqueueUsing (p : Project) (spawn : Spawn) (now : Time) (t : Task) (routing : Routing)
    (args : List PyValue) (kwargs : Kwargs) : Except EnqueueError TaskResult :=
  match t.usingWith p.backends routing with
  | .error e => .error (.task e)
  | .ok t => t.enqueue p spawn now args kwargs

/-- What the wrapper wakes to enqueue goes through the backend and onto the queue the
caller's task was sent to, and is enqueued whenever the caller's task, not deferred, would
have been. -/
structure FollowsRouting (p : Project) (t : Task) (backend queue : String)
    (args : List PyValue) (kwargs : Kwargs) (wrapper : SpawnRequest) : Prop where
  through : ∃ spec target, readDeferredSpec p wrapper.params = some spec
    ∧ deferredTarget p (removeSuffix wrapper.name deferNameSuffix) spec.queue spec.options
      = .ok target
    ∧ target.backend = backend ∧ target.queueName = queue
  succeeds : t.runAfter = none → ∀ (spawn : Spawn) (now : Time) (result : TaskResult),
    enqueueUsing p spawn now t ⟨none, some queue, none, some backend⟩ args kwargs = .ok result →
    ∃ result', runDeferred p spawn now wrapper.name wrapper.params = .ok result'

/-- A target with the caller's function and options, not deferred and on the caller's
queue, is spawned with the request of the caller's task. -/
theorem spawnRequest_target {p : Project} {config : AbsurdConfig} {t target : Task}
    {args : List PyValue} {kwargs : Kwargs} {items : List Json} {members : List (String × Json)}
    {request : SpawnRequest} (hfunc : target.func = t.func) (hqueue : target.queueName = t.queueName)
    (hafter : t.runAfter = none) (htarget : target.runAfter = none)
    (hlayer : target.layer = reloaded (spawnOptions config t))
    (hitems : dumpsItems args = some items) (hmembers : dumpsKwargs kwargs = some members)
    (h : spawnRequest p config t args kwargs = .ok request) :
  spawnRequest p config target (loadsItems items) (loadsKwargs members) = .ok request
  := by
  rw [spawnRequest, prepareSpawn, hafter] at h
  obtain ⟨hparams, hoptions, hdatabase, hname, hrequest⟩ := buildSpawnRequest_eq_ok h
  have hmax : target.layer .maxAttempts ≠ none := by
    rw [hlayer]
    apply covers_reloaded hoptions _ (spawnOptions_maxAttempts config t)
  have hparams' : dumps (callParams (loadsItems items) (loadsKwargs members))
      = some request.params := by
    rw [callParams_dumps, dumpsItems_loadsItems, dumpsKwargs_loadsKwargs, ← hparams,
      callParams_dumps, hitems, hmembers]
  rw [spawnRequest, prepareSpawn, htarget]
  simp only [spawnOptions_of_maxAttempts hmax, hlayer]
  rw [buildSpawnRequest, hparams', dumpsOptions_reloaded hoptions, ← hdatabase, hqueue, ← hrequest,
    Task.modulePath, hfunc, ← Task.modulePath, ← hname]

/-- The wake of a wrapper follows the routing of its enqueue exactly when the definition
names the backend the enqueue was routed to. -/
theorem wrapper_follows_iff {p : Project} {definition t deferred : Task} {b : Backend}
    {config : AbsurdConfig} {backend queue : String} {due : DateTime} {args : List PyValue}
    {kwargs : Kwargs} {wrapper : SpawnRequest} (hbuilt : definition.Built p.backends)
    (himport : p.importString definition.modulePath = some definition)
    (hderives : Derives p.backends definition t)
    (hb : p.backends backend = some b) (hconfig : b.absurd = some config)
    (hroute : t.usingWith p.backends ⟨none, some queue, some due, some backend⟩ = .ok deferred)
    (hwrapper : spawnRequest p config deferred args kwargs = .ok wrapper) :
  FollowsRouting p t backend queue args kwargs wrapper ↔ definition.backend = backend
  := by
  obtain ⟨hfunc, hkept, hcovers⟩ := hderives.keeps hbuilt
  obtain ⟨hfuncD, -, -, -, hqueueD, hafterD, hbackendD⟩ := usingWith_eq_ok hroute
  have hdue : deferred.runAfter = some due := hafterD
  have hlayerD := layer_usingWith (hderives.built hbuilt) hroute
  have hpath : deferred.modulePath = definition.modulePath := by
    rw [Task.modulePath, hfuncD, hfunc, ← Task.modulePath]
  obtain ⟨hname, items, members, written', hitems, hmembers, hoptions, hspec⟩ :=
    wrapper_carries hdue hwrapper
  have htail : removeSuffix wrapper.name deferNameSuffix = definition.modulePath := by
    rw [hname, removeSuffix_append, hpath]
  constructor
  · rintro ⟨⟨spec, target, -, htarget, hbackend, -⟩, -⟩
    rw [htail] at htarget
    rw [← backend_deferredTarget himport htarget, hbackend]
  · rintro rfl
    have hqueue : b.queues = [] ∨ queue ∈ b.queues := by
      obtain ⟨b', hb', hvalid⟩ := (built_of_postInit hroute).valid
      rw [hbackendD, Option.getD_some, hb] at hb'
      cases hb'
      rw [Backend.validates, Bool.and_eq_true, hqueueD] at hvalid
      simpa using hvalid.2
    have hoptionsCover := covers_reloaded hoptions
    obtain ⟨target, htarget, hbuiltT, hfuncT, hbackendT, hqueueT, hafterT, hlayerT⟩ :=
      deferredTarget_of_covers hbuilt himport hb hqueue
        ((hoptionsCover.trans (covers_spawnOptions config deferred)).trans (hlayerD ▸ hcovers))
        (hoptionsCover _ (spawnOptions_maxAttempts config deferred))
    have hqueueD' : deferred.queueName = queue := hqueueD
    rw [← hqueueD'] at htarget
    constructor
    · refine ⟨_, target, hspec, ?_, hbackendT, hqueueT⟩
      rw [htail]
      exact htarget
    · intro hafter spawn' now' result' himmediate
      rw [enqueueUsing] at himmediate
      split at himmediate
      · cases himmediate
      · rename_i immediate hrouteI
        obtain ⟨hfuncI, -, -, -, hqueueI, hafterI, hbackendI⟩ := usingWith_eq_ok hrouteI
        have hlayerI := layer_usingWith (hderives.built hbuilt) hrouteI
        have hbI : p.backends immediate.backend = some b := by rw [hbackendI]; exact hb
        obtain ⟨hself, -, request, id, hrequest, hspawn⟩ :=
          (enqueue_isOk_iff hbI hconfig).mp ⟨result', himmediate⟩
        have hsame : spawnOptions config immediate = spawnOptions config deferred := by
          rw [spawnOptions_eq, spawnOptions_eq, hlayerI, hlayerD]
        have htargetRequest := spawnRequest_target (hfuncT.trans (hfunc.symm.trans hfuncI.symm))
          (hqueueT.trans hqueueI.symm) (hafterI.trans hafter) (hafterT.trans (hkept hafter))
          (hlayerT.trans (by rw [hsame])) hitems hmembers hrequest
        have hbT : p.backends target.backend = some b := by rw [hbackendT]; exact hb
        obtain ⟨b', hb', hvalid⟩ := hbuiltT.valid
        rw [hbT] at hb'
        cases hb'
        rw [runDeferred, hspec]
        simp only [enqueueDeferredTarget, htail, htarget]
        apply (enqueue_isOk_iff hbT hconfig).mpr
        rw [keys_loadsKwargs hmembers]
        exact ⟨hself, hvalid, request, id, htargetRequest, hspawn⟩

/-- A deferred enqueue on an Absurd backend spawns a wrapper, and the wrapper's wake follows
its routing exactly when the definition names that backend. -/
theorem followsRouting_iff (p : Project) {written definition t : Task} {b : Backend}
    {config : AbsurdConfig} {backend queue : String} {due : DateTime} {args : List PyValue}
    {kwargs : Kwargs} {spawn : Spawn} {now : Time} {result : TaskResult}
    (hdefinition : written.postInit p.backends = .ok definition)
    (himport : p.importString definition.modulePath = some definition)
    (hderives : Derives p.backends definition t)
    (hb : p.backends backend = some b) (hconfig : b.absurd = some config)
    (henqueue : enqueueUsing p spawn now t ⟨none, some queue, some due, some backend⟩ args kwargs
      = .ok result) :
  ∃ wrapper id, spawnRequest p config result.task args kwargs = .ok wrapper
    ∧ spawn wrapper = .ok id ∧ result.id = queue ++ ":" ++ p.ids.print id
    ∧ (FollowsRouting p t backend queue args kwargs wrapper ↔ definition.backend = backend)
  := by
  rw [enqueueUsing] at henqueue
  split at henqueue
  · cases henqueue
  · rename_i deferred hroute
    obtain ⟨-, -, -, -, hqueue, -, hbackend⟩ := usingWith_eq_ok hroute
    have hbD : p.backends deferred.backend = some b := by rw [hbackend]; exact hb
    obtain ⟨wrapper, id, hwrapper, hspawn, htask, -, hid⟩ := enqueue_eq_ok hbD hconfig henqueue
    rw [htask]
    use wrapper, id, hwrapper, hspawn
    constructor
    · rw [hid, hqueue]
      rfl
    · apply wrapper_follows_iff (built_of_postInit hdefinition) himport hderives hb hconfig hroute
        hwrapper

/-- An Absurd backend with the queue `default`. -/
def absurdBackend : Backend where
  queues := ["default"]
  admits _ _ _ _ := true
  absurd := some ⟨"default", 5, ["default"]⟩

/-- A project with the backend `default`, which runs tasks at once, the Absurd backend
`absurd` and one definition. -/
def twoBackends (definition : Task) : Project where
  backends name :=
    if name = "absurd" then some absurdBackend
    else if name = "default" then
      some {
        queues := ["default"]
        admits := fun _ _ runAfter _ => runAfter.isNone
        absurd := none }
    else none
  imports path := if path = "tasks.add" then .task definition else .importError
  imports_plain := by
    intro path t h
    split at h
    · rename_i hpath
      subst hpath
      decide
    · cases h
  makeAware := id
  isoformat _ := "2026-01-01T00:00:00+00:00"
  ids := unaryIds
  str
    | .str s => s
    | _ => ""
  str_str _ := rfl
  foreignEnqueue _ _ _ _ := .error (.foreign "")

/-- The definition of `tasks.add` on a backend. -/
def addTask (taskClass : TaskClass) (backend : String) : Task where
  taskClass
  func := ⟨"tasks.add", none⟩
  priority := 0
  backend
  queueName := "default"
  runAfter := none
  takesContext := false
  absurdParams := none

/-- A definition on the Absurd backend, deferred there. -/
theorem followsRouting_iff_own :
  ∃ wrapper, FollowsRouting (twoBackends (addTask .absurdTask "absurd"))
    (addTask .absurdTask "absurd") "absurd" "default" [] [] wrapper
  := by
  have hdefinition : (addTask .absurdTask "absurd").postInit
      (twoBackends (addTask .absurdTask "absurd")).backends
        = .ok (addTask .absurdTask "absurd") := rfl
  have henqueue : ∃ result, enqueueUsing (twoBackends (addTask .absurdTask "absurd"))
      (fun _ => .ok ⟨0⟩) 0 (addTask .absurdTask "absurd")
      ⟨none, some "default", some ⟨0, true⟩, some "absurd"⟩ [] [] = .ok result := ⟨_, rfl⟩
  obtain ⟨result, henqueue⟩ := henqueue
  obtain ⟨wrapper, id, -, -, -, h⟩ :=
    followsRouting_iff _ hdefinition rfl .refl rfl rfl henqueue
  exact ⟨wrapper, h.mpr rfl⟩

/-- A definition on the backend `default`, deferred on the Absurd backend: the wake goes
through `default`. -/
theorem wake_leaves_backend :
  ¬ ∀ (p : Project) (written definition t : Task) (b : Backend) (config : AbsurdConfig)
      (backend queue : String) (due : DateTime) (args : List PyValue) (kwargs : Kwargs)
      (spawn : Spawn) (now : Time) (result : TaskResult) (wrapper : SpawnRequest),
      written.postInit p.backends = .ok definition →
      p.importString definition.modulePath = some definition →
      Derives p.backends definition t →
      p.backends backend = some b → b.absurd = some config →
      enqueueUsing p spawn now t ⟨none, some queue, some due, some backend⟩ args kwargs
        = .ok result →
      spawnRequest p config result.task args kwargs = .ok wrapper →
      FollowsRouting p t backend queue args kwargs wrapper
  := by
  intro h
  let definition := addTask .task "default"
  have hfollows := h (twoBackends definition) definition definition definition _ _ "absurd"
    "default" ⟨0, true⟩ [] [] (fun _ => .ok ⟨0⟩) 0 _ _ rfl rfl .refl rfl rfl rfl rfl
  have hbuilt : definition.Built (twoBackends definition).backends :=
    built_of_postInit (t := definition) rfl
  have hbackend := (wrapper_follows_iff hbuilt rfl .refl rfl rfl rfl rfl).mp hfollows
  simp [definition, addTask] at hbackend

/-! ### Deferred payload against immediate payload -/

/-- The task object without its `run_after`. -/
def Task.immediate (t : Task) : Task := { t with runAfter := none }

/-- A wrapper whose request can be written could have been spawned at once. -/
theorem spawnRequest_immediate {p : Project} {config : AbsurdConfig} {t : Task} {due : DateTime}
    {args : List PyValue} {kwargs : Kwargs} {wrapper : SpawnRequest}
    (hdue : t.runAfter = some due) (hwrapper : spawnRequest p config t args kwargs = .ok wrapper) :
  ∃ request, spawnRequest p config t.immediate args kwargs = .ok request
  := by
  obtain ⟨-, items, members, written, hitems, hmembers, hoptions, -⟩ :=
    wrapper_carries hdue hwrapper
  have hparams : dumps (callParams args kwargs)
      = some (.obj [("args", .arr items), ("kwargs", .obj members)]) := by
    rw [callParams_dumps, hitems, hmembers]
    rfl
  have hprepared : prepareSpawn p config t.immediate args kwargs
      = (t.modulePath, callParams args kwargs, spawnOptions config t) := rfl
  rw [spawnRequest, hprepared, buildSpawnRequest, hparams, hoptions]
  exact ⟨_, rfl⟩

/-- What a wrapper wakes to enqueue is spawned with the request the task without its
`run_after` would have been spawned with. -/
theorem wake_request {p : Project} {definition t : Task} {b : Backend} {config : AbsurdConfig}
    {due : DateTime} {args : List PyValue} {kwargs : Kwargs} {wrapper request : SpawnRequest}
    (hbuilt : definition.Built p.backends)
    (himport : p.importString definition.modulePath = some definition)
    (himmediate : definition.runAfter = none) (hderives : Derives p.backends definition t)
    (hdue : t.runAfter = some due) (hbackend : t.backend = definition.backend)
    (hb : p.backends t.backend = some b)
    (hwrapper : spawnRequest p config t args kwargs = .ok wrapper)
    (hrequest : spawnRequest p config t.immediate args kwargs = .ok request) :
  ∃ spec target, readDeferredSpec p wrapper.params = some spec
    ∧ deferredTarget p (removeSuffix wrapper.name deferNameSuffix) spec.queue spec.options
      = .ok target
    ∧ target.Built p.backends ∧ target.backend = t.backend ∧ target.queueName = t.queueName
    ∧ spec.kwargs.map Prod.fst = kwargs.map Prod.fst
    ∧ spawnRequest p config target spec.args spec.kwargs = .ok request
  := by
  obtain ⟨hfunc, -, hcovers⟩ := hderives.keeps hbuilt
  have hpath : t.modulePath = definition.modulePath := by
    rw [Task.modulePath, hfunc, ← Task.modulePath]
  obtain ⟨hname, items, members, written, hitems, hmembers, hoptions, hspec⟩ :=
    wrapper_carries hdue hwrapper
  have hqueue : b.queues = [] ∨ t.queueName ∈ b.queues := by
    obtain ⟨b', hb', hvalid⟩ := (hderives.built hbuilt).valid
    rw [hb] at hb'
    cases hb'
    rw [Backend.validates, Bool.and_eq_true] at hvalid
    simpa using hvalid.2
  have hoptionsCover := covers_reloaded hoptions
  obtain ⟨target, htarget, hbuiltT, hfuncT, hbackendT, hqueueT, hafterT, hlayerT⟩ :=
    deferredTarget_of_covers hbuilt himport (hbackend ▸ hb) hqueue
      ((hoptionsCover.trans (covers_spawnOptions config t)).trans hcovers)
      (hoptionsCover _ (spawnOptions_maxAttempts config t))
  refine ⟨_, target, hspec, ?_, hbuiltT, hbackendT.trans hbackend.symm, hqueueT,
    keys_loadsKwargs hmembers, ?_⟩
  · rw [hname, removeSuffix_append, hpath]
    exact htarget
  · have hfunc' : target.func = t.immediate.func := hfuncT.trans hfunc.symm
    have hlayer : target.layer = reloaded (spawnOptions config t.immediate) := hlayerT
    exact spawnRequest_target hfunc' hqueueT rfl (hafterT.trans himmediate) hlayer hitems hmembers
      hrequest

/-- A deferred enqueue spawns a wrapper, and the wrapper wakes to spawn what the same task
object without `run_after` would have spawned at enqueue time: the same name, params, queue
and options. It enqueues its target exactly when that spawn succeeds. -/
theorem wake_spawns_immediate (p : Project) {written definition t : Task} {b : Backend}
    {config : AbsurdConfig} {due : DateTime} {args : List PyValue} {kwargs : Kwargs}
    {spawn : Spawn} {now : Time} {result : TaskResult}
    (hdefinition : written.postInit p.backends = .ok definition)
    (himmediate : definition.runAfter = none)
    (himport : p.importString definition.modulePath = some definition)
    (hderives : Derives p.backends definition t) (hdue : t.runAfter = some due)
    (hbackend : t.backend = definition.backend) (hb : p.backends t.backend = some b)
    (hconfig : b.absurd = some config)
    (henqueue : t.enqueue p spawn now args kwargs = .ok result) :
  ∃ wrapper request, spawnRequest p config t args kwargs = .ok wrapper
    ∧ spawnRequest p config t.immediate args kwargs = .ok request
    ∧ (∃ spec target, readDeferredSpec p wrapper.params = some spec
      ∧ deferredTarget p (removeSuffix wrapper.name deferNameSuffix) spec.queue spec.options
        = .ok target
      ∧ spawnRequest p config target spec.args spec.kwargs = .ok request)
    ∧ ∀ spawn now, (∃ result, runDeferred p spawn now wrapper.name wrapper.params = .ok result)
      ↔ ∃ id, spawn request = .ok id
  := by
  have hbuilt : definition.Built p.backends := built_of_postInit hdefinition
  obtain ⟨hself, -, wrapper, -, hwrapper, -⟩ := (enqueue_isOk_iff hb hconfig).mp ⟨result, henqueue⟩
  obtain ⟨request, hrequest⟩ := spawnRequest_immediate hdue hwrapper
  obtain ⟨spec, target, hspec, htarget, hbuiltT, hbackendT, hqueueT, hkeys, hinner⟩ :=
    wake_request hbuilt himport himmediate hderives hdue hbackend hb hwrapper hrequest
  refine ⟨wrapper, request, hwrapper, hrequest, ⟨spec, target, hspec, htarget, hinner⟩, ?_⟩
  intro spawn now
  have hbT : p.backends target.backend = some b := by rw [hbackendT]; exact hb
  obtain ⟨b', hb', hvalid⟩ := hbuiltT.valid
  rw [hbT] at hb'
  cases hb'
  rw [runDeferred, hspec]
  simp only [enqueueDeferredTarget, htarget]
  rw [enqueue_isOk_iff hbT hconfig, hkeys, hinner]
  simp [hself, hvalid]

/-- A definition on the Absurd backend, deferred there with an argument. -/
theorem wake_spawns_immediate_add :
  ∃ wrapper request, spawnRequest (twoBackends (addTask .absurdTask "absurd"))
      ⟨"default", 5, ["default"]⟩
      { addTask .absurdTask "absurd" with runAfter := some ⟨0, true⟩ } [.int 2] [] = .ok wrapper
    ∧ ∀ spawn now, (∃ result, runDeferred (twoBackends (addTask .absurdTask "absurd")) spawn now
        wrapper.name wrapper.params = .ok result) ↔ ∃ id, spawn request = .ok id
  := by
  let definition := addTask .absurdTask "absurd"
  have hdefinition : definition.postInit (twoBackends definition).backends = .ok definition := rfl
  have hderives : Derives (twoBackends definition).backends definition
      { definition with runAfter := some ⟨0, true⟩ } :=
    .routed ⟨none, none, some ⟨0, true⟩, none⟩ .refl rfl
  have hb : (twoBackends definition).backends definition.backend = some absurdBackend := rfl
  have henqueue : ∃ result, Task.enqueue (twoBackends definition) (fun _ => .ok ⟨0⟩) 0
      { definition with runAfter := some ⟨0, true⟩ } [.int 2] [] = .ok result := ⟨_, rfl⟩
  obtain ⟨result, henqueue⟩ := henqueue
  obtain ⟨wrapper, request, hwrapper, -, -, hwake⟩ :=
    wake_spawns_immediate (twoBackends definition) hdefinition rfl rfl hderives rfl rfl hb rfl
      henqueue
  exact ⟨wrapper, request, hwrapper, hwake⟩

/-! ### The keys of wrappers -/

/-- The key an enqueue with a caller's key spawns its row with: the key itself, or with the
suffix when the enqueue is deferred. -/
def spawnedKey (deferred : Bool) (key : String) : String :=
  if deferred then key ++ deferNameSuffix else key

/-- Two spawned keys differ for different keys of one kind, and for the two kinds unless the
immediate key is the deferred one with the suffix. -/
theorem spawnedKey_injective_iff (deferred deferred' : Bool) (key key' : String) :
  (spawnedKey deferred key = spawnedKey deferred' key' → deferred = deferred' ∧ key = key')
    ↔ ¬ (deferred = false ∧ deferred' = true ∧ key = key' ++ deferNameSuffix)
      ∧ ¬ (deferred = true ∧ deferred' = false ∧ key' = key ++ deferNameSuffix)
  := by
  cases deferred <;> cases deferred'
  · simp [spawnedKey]
  · simp [spawnedKey]
  · simp [spawnedKey, eq_comm]
  · simp only [spawnedKey, if_true, Bool.true_eq_false, and_false, false_and,
      not_false_eq_true, and_self, iff_true, true_and]
    intro h
    have hlist := congrArg String.toList h
    rw [String.toList_append, String.toList_append] at hlist
    exact String.toList_inj.mp (List.append_cancel_right hlist)

/-- The row an enqueue first spawns has its spawned key. -/
theorem key_of_spawnRequest {p : Project} {config : AbsurdConfig} {t : Task} {key : String}
    {args : List PyValue} {kwargs : Kwargs} {request : SpawnRequest}
    (hkey : t.layer .idempotencyKey = some (.str key))
    (h : spawnRequest p config t args kwargs = .ok request) :
  request.options .idempotencyKey = some (.str (spawnedKey t.runAfter.isSome key))
  := by
  have hmerged : spawnOptions config t .idempotencyKey = some (.str key) := by
    rw [spawnOptions_eq, overlay.apply, hkey]
    rfl
  rw [spawnRequest, prepareSpawn] at h
  cases hafter : t.runAfter with
  | none =>
      rw [hafter] at h
      obtain ⟨-, hoptions, -⟩ := buildSpawnRequest_eq_ok h
      obtain ⟨-, hwritten⟩ := dumpsOptions_eq_some.mp hoptions
      rw [hwritten]
      simp only [hmerged]
      rfl
  | some due =>
      rw [hafter] at h
      obtain ⟨-, hoptions, -⟩ := buildSpawnRequest_eq_ok h
      obtain ⟨-, hwritten⟩ := dumpsOptions_eq_some.mp hoptions
      rw [hwritten]
      simp only [wrapperOptions, hmerged, Option.map_some, p.str_str]
      rfl

/-- Two enqueues with callers' keys spawn rows with one key only if they are of one kind and
carry one key, exactly when neither is immediate with the other's key and the suffix. -/
theorem spawnedKeys_iff (p : Project) {t t' : Task} {b b' : Backend}
    {config config' : AbsurdConfig} {key key' : String} {args args' : List PyValue}
    {kwargs kwargs' : Kwargs} {spawn spawn' : Spawn} {now now' : Time} {result result' : TaskResult}
    (hb : p.backends t.backend = some b) (hb' : p.backends t'.backend = some b')
    (hconfig : b.absurd = some config) (hconfig' : b'.absurd = some config')
    (hkey : t.layer .idempotencyKey = some (.str key))
    (hkey' : t'.layer .idempotencyKey = some (.str key'))
    (henqueue : t.enqueue p spawn now args kwargs = .ok result)
    (henqueue' : t'.enqueue p spawn' now' args' kwargs' = .ok result') :
  ∃ request request', spawnRequest p config t args kwargs = .ok request
    ∧ spawnRequest p config' t' args' kwargs' = .ok request'
    ∧ ((request.options .idempotencyKey = request'.options .idempotencyKey →
          t.runAfter.isSome = t'.runAfter.isSome ∧ key = key')
        ↔ ¬ (t.runAfter = none ∧ t'.runAfter ≠ none ∧ key = key' ++ deferNameSuffix)
          ∧ ¬ (t.runAfter ≠ none ∧ t'.runAfter = none ∧ key' = key ++ deferNameSuffix))
  := by
  obtain ⟨request, -, hrequest, -⟩ := enqueue_eq_ok hb hconfig henqueue
  obtain ⟨request', -, hrequest', -⟩ := enqueue_eq_ok hb' hconfig' henqueue'
  use request, request', hrequest, hrequest'
  rw [key_of_spawnRequest hkey hrequest, key_of_spawnRequest hkey' hrequest', Option.some_inj,
    Json.str.injEq, spawnedKey_injective_iff]
  cases t.runAfter <;> cases t'.runAfter <;> simp

/-- A layer with an idempotency key alone. -/
def keyOnly (key : String) : SpawnKwargs
  | .idempotencyKey => some (.str key)
  | _ => none

/-- The task `tasks.add` with a key, deferred or not. -/
def keyedAdd (key : String) (runAfter : Option DateTime) : Task :=
  { addTask .absurdTask "absurd" with absurdParams := some (keyOnly key), runAfter }

/-- An immediate and a deferred enqueue with one key. -/
theorem spawnedKeys_iff_add :
  ∃ request request', spawnRequest (twoBackends (addTask .absurdTask "absurd"))
      ⟨"default", 5, ["default"]⟩ (keyedAdd "k" none) [] [] = .ok request
    ∧ spawnRequest (twoBackends (addTask .absurdTask "absurd")) ⟨"default", 5, ["default"]⟩
      (keyedAdd "k" (some ⟨0, true⟩)) [] [] = .ok request'
    ∧ request.options .idempotencyKey ≠ request'.options .idempotencyKey
  := by
  let p := twoBackends (addTask .absurdTask "absurd")
  have hb : p.backends (keyedAdd "k" none).backend = some absurdBackend := rfl
  have hb' : p.backends (keyedAdd "k" (some ⟨0, true⟩)).backend = some absurdBackend := rfl
  have henqueue : ∃ result, (keyedAdd "k" none).enqueue p (fun _ => .ok ⟨0⟩) 0 [] [] = .ok result :=
    ⟨_, rfl⟩
  have henqueue' : ∃ result, (keyedAdd "k" (some ⟨0, true⟩)).enqueue p (fun _ => .ok ⟨1⟩) 0 [] []
      = .ok result := ⟨_, rfl⟩
  obtain ⟨result, henqueue⟩ := henqueue
  obtain ⟨result', henqueue'⟩ := henqueue'
  obtain ⟨request, request', hrequest, hrequest', hiff⟩ :=
    spawnedKeys_iff p hb hb' rfl rfl rfl rfl henqueue henqueue'
  have hdistinct : "k" ≠ "k" ++ deferNameSuffix := by decide
  use request, request', hrequest, hrequest'
  intro hsame
  have hkind := (hiff.mpr ⟨fun h => hdistinct h.2.2, fun h => hdistinct h.2.2⟩ hsame).1
  cases hkind

/-- An immediate enqueue whose key ends in the suffix shares its row with a deferred one. -/
theorem suffixed_key_collides :
  ¬ ∀ (p : Project) (t t' : Task) (b b' : Backend) (config config' : AbsurdConfig)
      (key key' : String) (args args' : List PyValue) (kwargs kwargs' : Kwargs)
      (spawn spawn' : Spawn) (now now' : Time) (result result' : TaskResult)
      (request request' : SpawnRequest),
      p.backends t.backend = some b → p.backends t'.backend = some b' →
      b.absurd = some config → b'.absurd = some config' →
      t.layer .idempotencyKey = some (.str key) → t'.layer .idempotencyKey = some (.str key') →
      t.queueName = t'.queueName →
      t.enqueue p spawn now args kwargs = .ok result →
      t'.enqueue p spawn' now' args' kwargs' = .ok result' →
      spawnRequest p config t args kwargs = .ok request →
      spawnRequest p config' t' args' kwargs' = .ok request' →
      request.options .idempotencyKey = request'.options .idempotencyKey →
      t.runAfter.isSome = t'.runAfter.isSome ∧ key = key'
  := by
  intro h
  have hcollides := h (twoBackends (addTask .absurdTask "absurd"))
    (keyedAdd "k:run_after" none) (keyedAdd "k" (some ⟨0, true⟩)) _ _ _ _ "k:run_after" "k" [] []
    [] [] (fun _ => .ok ⟨0⟩) (fun _ => .ok ⟨1⟩) 0 0 _ _ _ _ rfl rfl rfl rfl rfl rfl rfl rfl rfl rfl
    rfl rfl
  cases hcollides.1

end DjangoAbsurd
