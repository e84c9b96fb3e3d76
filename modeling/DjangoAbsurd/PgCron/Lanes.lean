import DjangoAbsurd.PgCron.Options
import Mathlib.Tactic.NormNum

/-!
# The two scheduler lanes

For one schedule, `beatSpawn` is the call the beat scheduler spawns with and `pgCronSpawn`
the call the job of its row spawns with. The beat scheduler enqueues the task object the
schedule names, with the parameters that object carries; the row is written from the
defaults its function is decorated with. `lanesMatch_iff` says when the two spawn the same
task.
-/

namespace DjangoAbsurd

open Engine (Time)

/-! ### What the lanes spawn -/

/-- What a worker runs for the name of a task. -/
inductive Handler where
  | deferred (target : String)
  | call (func : Func)

/-- `LazyTaskRegistry.get`. -/
def getHandler (p : Project) (name : String) : Option Handler :=
  if endsWith name deferNameSuffix then some (.deferred (removeSuffix name deferNameSuffix))
  else (p.importString name).map (fun t => .call t.func)

/-- The check of `absurd.spawn_task` on `max_attempts`. -/
def acceptsMaxAttempts (columns : Columns) (option : Option Json) : Bool :=
  (nullable columns.castInteger option).any (fun n => n.all (fun n => decide (1 ≤ n)))

/-- What the beat scheduler spawns for a schedule. -/
def beatSpawn (p : Project) (sdk : Sdk) (columns : Columns) (schedule : Schedule)
    (key : String) : Option SpawnCall :=
  (beatCall p sdk schedule key).filter
    (fun call => acceptsMaxAttempts columns (call.options .maxAttempts))

/-- What the job of a schedule's row spawns. -/
def pgCronSpawn (p : Project) (sdk : Sdk) (columns : Columns) (config : AbsurdConfig)
    (schedule : Schedule) : Option SpawnCall :=
  (pgCronCall p sdk columns config schedule).filter
    (fun call => acceptsMaxAttempts columns (call.options .maxAttempts))

/-- Two calls spawn the same task: the queue, what a worker runs, the params, and the options
but the idempotency key. -/
structure SameSpawn (p : Project) (a b : SpawnCall) : Prop where
  queue : a.queue = b.queue
  handler : getHandler p a.name = getHandler p b.name
  params : a.params = b.params
  options : ∀ f, f ≠ .idempotencyKey → SameOption (a.options f) (b.options f)

/-- Both lanes spawn the same task, or neither spawns one. -/
def LanesMatch (p : Project) (beat pgCron : Option SpawnCall) : Prop :=
  (beat.isSome ∨ pgCron.isSome) → ∃ a b, beat = some a ∧ pgCron = some b ∧ SameSpawn p a b

/-! ### The options the SDK sends -/

/-- A field is not set, or has a value the SDK takes. -/
def Sdk.Accepts (sdk : Sdk) (options : SpawnKwargs) (f : SpawnField) : Prop :=
  ∀ v, options f = some v → ∃ j, dumps v = some j ∧ sdk.normalize f j ≠ none

/-- What the SDK makes of a parameter. -/
def Sdk.form (sdk : Sdk) (f : SpawnField) (parameter : Option PyValue) : Option Json :=
  (parameter.bind dumps).bind (fun j => (sdk.normalize f j).join)

/-- What the SDK sends for a field. -/
def Sdk.sent (sdk : Sdk) (options : SpawnKwargs) (f : SpawnField) : Option Json :=
  sdk.form f (options f)

/-- The options that can be sent, and what is sent. -/
theorem options_dumpsOptions {sdk : Sdk} {options : SpawnKwargs} {sent : SpawnField → Option Json} :
  (dumpsOptions options).bind sdk.options = some sent
    ↔ (∀ f, sdk.Accepts options f) ∧ sent = sdk.sent options
  := by
  constructor
  · intro h
    obtain ⟨written, hwritten, hsent⟩ := Option.bind_eq_some_iff.mp h
    obtain ⟨hall, rfl⟩ := dumpsOptions_eq_some.mp hwritten
    rw [Sdk.options] at hsent
    split at hsent
    · rename_i htakes
      cases hsent
      refine ⟨fun f v hv => ?_, rfl⟩
      have hdumps := hall f
      rw [hv, Option.all_some] at hdumps
      obtain ⟨j, hj⟩ := Option.isSome_iff_exists.mp hdumps
      use j, hj
      apply htakes f f.mem_all
      simp only [hv, Option.bind_some, hj]
    · cases hsent
  · rintro ⟨haccepts, rfl⟩
    have hwritten : dumpsOptions options = some (fun f => (options f).bind dumps) := by
      apply dumpsOptions_eq_some.mpr
      use fun f => ?_
      cases hf : options f with
      | none => rfl
      | some v =>
          obtain ⟨j, hj, -⟩ := haccepts f v hf
          rw [Option.all_some, hj]
          rfl
    rw [hwritten, Option.bind_some, Sdk.options, if_pos]
    · rfl
    · intro f _ j hj
      obtain ⟨v, hv, hdumps⟩ := Option.bind_eq_some_iff.mp hj
      obtain ⟨j', hj', hnormal⟩ := haccepts f v hv
      rw [hdumps] at hj'
      cases hj'
      exact hnormal

/-! ### The beat scheduler -/

/-- The options of a task as it is enqueued: its own, or those of its wrapper. -/
def sentOptions (p : Project) (config : AbsurdConfig) (t : Task) : SpawnKwargs :=
  match t.runAfter with
  | none => spawnOptions config t
  | some _ => wrapperOptions p config (spawnOptions config t)

/-- The task object of a schedule gets through an enqueue: its backend validates it, its call
and its options can be written, and its options are accepted. -/
structure BeatAccepts (p : Project) (sdk : Sdk) (columns : Columns) (b : Backend)
    (config : AbsurdConfig) (t : Task) (schedule : Schedule) : Prop where
  admits : b.admits t.func t.priority t.runAfter t.takesContext = true
  queue : b.queues = [] ∨ schedule.queue.getD t.queueName ∈ b.queues
  keyword : "self" ∉ schedule.kwargs.map Prod.fst
  args : (dumpsItems schedule.args).isSome
  kwargs : (dumpsKwargs schedule.kwargs).isSome
  written : ∀ f, f ≠ .idempotencyKey →
    (spawnOptions config t f).all (fun v => (dumps v).isSome) = true
  taken : ∀ f, f ≠ .idempotencyKey → sdk.Accepts (sentOptions p config t) f
  attempts : acceptsMaxAttempts columns (sdk.sent (sentOptions p config t) .maxAttempts) = true

theorem keyOnly_of_ne {key : String} {f : SpawnField} (h : f ≠ .idempotencyKey) :
  keyOnly key f = none
  := by
  cases f <;> first | rfl | exact absurd rfl h

/-- The task the beat scheduler enqueues is the schedule's task on the schedule's backend and
queue, with the key bound to it. -/
theorem scheduledTask_eq_ok {p : Project} {b : Backend} {t t' : Task} {schedule : Schedule}
    {key : String} (himport : p.importString schedule.task = some t)
    (hbuilt : t.Built p.backends) (hb : p.backends schedule.backend = some b)
    (h : scheduledTask p schedule key = .ok t') :
  (t'.func = t.func ∧ t'.queueName = schedule.queue.getD t.queueName
      ∧ t'.runAfter = t.runAfter ∧ t'.backend = schedule.backend)
    ∧ t'.layer = overlay t.layer (keyOnly key) ∧ b.validates t' = true
    ∧ b.admits t.func t.priority t.runAfter t.takesContext = true
  := by
  rw [scheduledTask, himport] at h
  simp only at h
  split at h
  · cases h
  · rename_i routed hrouted
    split at h
    · cases h
    · rename_i bound hbound
      cases h
      obtain ⟨hfunc, -, hcontext, hpriority, hqueue, hafter, hbackend⟩ := usingWith_eq_ok hrouted
      obtain ⟨⟨hfunc', -, hcontext', hpriority', hqueue', hafter', hbackend'⟩, hlayer⟩ :=
        bind_eq_ok hbound
      have hroutedBuilt := built_of_postInit hrouted
      have hcovers := hroutedBuilt.covers
      obtain ⟨b', hb', hvalid⟩ := (built_of_postInit hbound).valid
      rw [hbackend', hbackend, Option.getD_some, hb] at hb'
      cases hb'
      refine ⟨⟨hfunc'.trans hfunc, hqueue'.trans hqueue, hafter'.trans hafter,
        hbackend'.trans hbackend⟩, ?_, hvalid, ?_⟩
      · rw [hlayer, ← overlay.assoc]
        congr 1
        rw [← layer_usingWith hbuilt hrouted]
        cases hclass : routed.taskClass with
        | absurdTask =>
            rw [if_pos rfl]
            apply overlay.eq_right hcovers
        | task =>
            rw [if_neg (by simp)]
            simp only [Func.defaults, Task.layer, Task.params, hclass]
            apply overlay.empty_right
      · rw [Backend.validates, Bool.and_eq_true, hfunc', hfunc, hpriority', hpriority, hafter',
          hafter, hcontext', hcontext] at hvalid
        simpa using hvalid.1

/-- The beat scheduler gets to enqueueing a task its backend validates. -/
theorem scheduledTask_of_admits {p : Project} {b : Backend} {t : Task} {schedule : Schedule}
    {key : String} (himport : p.importString schedule.task = some t)
    (hb : p.backends schedule.backend = some b)
    (hadmits : b.admits t.func t.priority t.runAfter t.takesContext = true)
    (hqueue : b.queues = [] ∨ schedule.queue.getD t.queueName ∈ b.queues) :
  ∃ t', scheduledTask p schedule key = .ok t'
  := by
  obtain ⟨routed, hrouted⟩ := usingWith_of_admits t
    ⟨none, schedule.queue, none, some schedule.backend⟩ hb hadmits hqueue
  obtain ⟨b', hb', hvalid⟩ := (built_of_postInit hrouted).valid
  obtain ⟨bound, hbound⟩ : ∃ bound, bind p.backends (keyOnly key) routed = .ok bound :=
    ⟨_, postInit_of_validates hb' hvalid⟩
  use bound
  rw [scheduledTask, himport]
  simp only [hrouted, hbound]

theorem isSome_dumpsKwargs_of_all {kwargs : Kwargs}
    (h : ∀ item ∈ kwargs, (dumps item.2).isSome = true) :
  (dumpsKwargs kwargs).isSome = true
  := by
  induction kwargs with
  | nil => rfl
  | cons item kwargs ih =>
      obtain ⟨key, v⟩ := item
      obtain ⟨j, hj⟩ := Option.isSome_iff_exists.mp (h (key, v) List.mem_cons_self)
      obtain ⟨rest, hrest⟩ := Option.isSome_iff_exists.mp
        (ih (fun item hitem => h item (List.mem_cons_of_mem _ hitem)))
      rw [dumpsKwargs_cons, hj, Option.bind_some, hrest]
      rfl

/-- Options can be written as a dictionary when each of them can be written. -/
theorem isSome_dumpsKwargs_toDict {options : SpawnKwargs} :
  (dumpsKwargs options.toDict).isSome = true
    ↔ ∀ f, (options f).all (fun v => (dumps v).isSome) = true
  := by
  constructor
  · intro h
    obtain ⟨members, hmembers⟩ := Option.isSome_iff_exists.mp h
    apply (dumpsOptions_eq_some.mp (dumpsOptions_of_toDict hmembers)).1
  · intro hall
    apply isSome_dumpsKwargs_of_all
    intro item hitem
    obtain ⟨f, -, hentry⟩ := List.mem_filterMap.mp hitem
    obtain ⟨v, hv, rfl⟩ := Option.map_eq_some_iff.mp hentry
    have hdumps := hall f
    rwa [hv, Option.all_some] at hdumps

theorem dumpsOptions_wrapperOptions {p : Project} {config : AbsurdConfig} (merged : SpawnKwargs) :
  ∃ written, dumpsOptions (wrapperOptions p config merged) = some written
  := by
  refine ⟨_, dumpsOptions_eq_some.mpr ⟨fun f => ?_, rfl⟩⟩
  cases f with
  | maxAttempts => rfl
  | idempotencyKey =>
      rw [wrapperOptions]
      cases merged .idempotencyKey <;> rfl
  | retryStrategy | cancellation | headers => rfl

/-- The request of an enqueue can be written when its call and its options can. -/
theorem spawnRequest_isOk_iff {p : Project} {config : AbsurdConfig} {t : Task}
    {args : List PyValue} {kwargs : Kwargs} :
  (∃ request, spawnRequest p config t args kwargs = .ok request)
    ↔ (dumpsItems args).isSome = true ∧ (dumpsKwargs kwargs).isSome = true
      ∧ ∀ f, (spawnOptions config t f).all (fun v => (dumps v).isSome) = true
  := by
  have hcall : ∀ members : Kwargs, (dumps (callParams args members)).isSome = true
      ↔ (dumpsItems args).isSome = true ∧ (dumpsKwargs members).isSome = true := by
    intro members
    rw [callParams_dumps]
    cases dumpsItems args <;> cases dumpsKwargs members <;> simp
  have hbuild : ∀ (name : String) (params : PyValue) (options : SpawnKwargs),
      (∃ request, buildSpawnRequest config.database t.queueName (name, params, options)
        = .ok request)
      ↔ (dumps params).isSome = true ∧ ∃ written, dumpsOptions options = some written := by
    intro name params options
    rw [buildSpawnRequest]
    cases dumps params <;> cases dumpsOptions options <;> simp
  rw [spawnRequest, prepareSpawn]
  cases hafter : t.runAfter with
  | none =>
      simp only [hbuild, hcall, and_assoc]
      apply and_congr_right
      intro _
      apply and_congr_right
      intro _
      constructor
      · rintro ⟨written, hwritten⟩
        apply (dumpsOptions_eq_some.mp hwritten).1
      · intro hall
        exact ⟨_, dumpsOptions_eq_some.mpr ⟨hall, rfl⟩⟩
  | some due =>
      simp only [hbuild, dumpsOptions_wrapperOptions, and_true, ← isSome_dumpsKwargs_toDict]
      rw [wrapperParams, callParams_dumps]
      simp only [dumpsItems, dumpsKwargs_cons, dumpsKwargs_nil, dumps, Option.bind_some,
        dumps_pyDict]
      cases dumpsItems args <;> cases dumpsKwargs kwargs <;>
        cases dumpsKwargs (spawnOptions config t).toDict <;> simp

/-- The options of a request are the task's as it is enqueued. -/
theorem dumpsOptions_of_spawnRequest {p : Project} {config : AbsurdConfig} {t : Task}
    {args : List PyValue} {kwargs : Kwargs} {request : SpawnRequest}
    (h : spawnRequest p config t args kwargs = .ok request) :
  dumpsOptions (sentOptions p config t) = some request.options
  := by
  rw [sentOptions]
  rw [spawnRequest, prepareSpawn] at h
  cases hafter : t.runAfter with
  | none =>
      rw [hafter] at h
      apply (buildSpawnRequest_eq_ok h).2.1
  | some due =>
      rw [hafter] at h
      apply (buildSpawnRequest_eq_ok h).2.1

/-- Binding the key changes no other option. -/
theorem spawnOptions_keyed {config : AbsurdConfig} {t t' : Task} {key : String} {f : SpawnField}
    (hlayer : t'.layer = overlay t.layer (keyOnly key)) (hf : f ≠ .idempotencyKey) :
  spawnOptions config t' f = spawnOptions config t f
  := by
  rw [spawnOptions_eq, spawnOptions_eq, hlayer, ← overlay.assoc, overlay.apply, keyOnly_of_ne hf,
    Option.none_or]

theorem spawnOptions_key {config : AbsurdConfig} {t t' : Task} {key : String}
    (hlayer : t'.layer = overlay t.layer (keyOnly key)) :
  spawnOptions config t' .idempotencyKey = some (.str key)
  := by
  rw [spawnOptions_eq, hlayer, ← overlay.assoc, overlay.apply]
  rfl

theorem sentOptions_keyed {p : Project} {config : AbsurdConfig} {t t' : Task} {key : String}
    {f : SpawnField} (hafter : t'.runAfter = t.runAfter)
    (hlayer : t'.layer = overlay t.layer (keyOnly key)) (hf : f ≠ .idempotencyKey) :
  sentOptions p config t' f = sentOptions p config t f
  := by
  rw [sentOptions, sentOptions, hafter]
  cases t.runAfter with
  | none => apply spawnOptions_keyed hlayer hf
  | some due => cases f <;> first | rfl | exact absurd rfl hf

/-- The SDK takes the key. -/
theorem accepts_key {p : Project} {sdk : Sdk} {config : AbsurdConfig} {t t' : Task} {key : String}
    (hkey : key ≠ "") (hlayer : t'.layer = overlay t.layer (keyOnly key)) :
  sdk.Accepts (sentOptions p config t') .idempotencyKey
  := by
  have htakes : ∀ s : String, s ≠ "" → ∀ v, some (PyValue.str s) = some v →
      ∃ j, dumps v = some j ∧ sdk.normalize .idempotencyKey j ≠ none := by
    rintro s hs v ⟨⟩
    use .str s, rfl
    rw [sdk.normalize_key s hs]
    simp
  intro v hv
  rw [sentOptions] at hv
  cases hafter : t'.runAfter with
  | none =>
      simp only [hafter, spawnOptions_key hlayer] at hv
      apply htakes key hkey v hv
  | some due =>
      simp only [hafter, wrapperOptions, spawnOptions_key hlayer, Option.map_some, p.str_str] at hv
      apply htakes (key ++ deferNameSuffix) _ v hv
      intro hempty
      apply hkey
      rw [String.append_eq_empty_iff] at hempty
      exact hempty.1

/-- The call the SDK makes for the request of an enqueue. -/
theorem call_eq_some_iff {p : Project} {sdk : Sdk} {config : AbsurdConfig} {t : Task}
    {args : List PyValue} {kwargs : Kwargs} {request : SpawnRequest} {call : SpawnCall}
    (h : spawnRequest p config t args kwargs = .ok request) :
  sdk.call request = some call
    ↔ (∀ f, sdk.Accepts (sentOptions p config t) f)
      ∧ call = ⟨request.queue, request.name, request.params, sdk.sent (sentOptions p config t)⟩
  := by
  have hoptions : (dumpsOptions (sentOptions p config t)).bind sdk.options
      = sdk.options request.options := by
    rw [dumpsOptions_of_spawnRequest h, Option.bind_some]
  rw [Sdk.call, Option.map_eq_some_iff, ← hoptions]
  constructor
  · rintro ⟨sent, hsent, rfl⟩
    obtain ⟨haccepts, rfl⟩ := options_dumpsOptions.mp hsent
    exact ⟨haccepts, rfl⟩
  · rintro ⟨haccepts, rfl⟩
    exact ⟨_, options_dumpsOptions.mpr ⟨haccepts, rfl⟩, rfl⟩

/-- The call of the beat scheduler is that of the request of the task it enqueues. -/
theorem beatCall_eq_some_iff {p : Project} {sdk : Sdk} {b : Backend} {config : AbsurdConfig}
    {t : Task} {schedule : Schedule} {key : String} {call : SpawnCall}
    (himport : p.importString schedule.task = some t) (hbuilt : t.Built p.backends)
    (hb : p.backends schedule.backend = some b) (hconfig : b.absurd = some config) :
  beatCall p sdk schedule key = some call
    ↔ "self" ∉ schedule.kwargs.map Prod.fst ∧ ∃ t' request, scheduledTask p schedule key = .ok t'
      ∧ spawnRequest p config t' schedule.args schedule.kwargs = .ok request
      ∧ sdk.call request = some call
  := by
  rw [beatCall]
  cases htask : scheduledTask p schedule key with
  | error e => simp [Except.toOption]
  | ok t' =>
      obtain ⟨⟨-, -, -, hbackend⟩, -, hvalid, -⟩ := scheduledTask_eq_ok himport hbuilt hb htask
      simp only [Except.toOption, Option.bind_some, Except.ok.injEq, exists_and_left,
        exists_eq_left']
      rw [enqueueCall]
      by_cases hself : "self" ∈ schedule.kwargs.map Prod.fst
      · simp [hself]
      · simp only [hself, if_false, not_false_eq_true, true_and, hbackend, hb, hconfig, hvalid,
          if_true, Option.bind_eq_bind, Option.bind_some]
        cases hrequest : spawnRequest p config t' schedule.args schedule.kwargs with
        | error e => simp [Except.toOption]
        | ok request => simp [Except.toOption]

/-- The beat scheduler spawns a task when its object gets through an enqueue. -/
theorem isSome_beatSpawn_iff {p : Project} {sdk : Sdk} {columns : Columns} {b : Backend}
    {config : AbsurdConfig} {t : Task} {schedule : Schedule} {key : String}
    (himport : p.importString schedule.task = some t) (hbuilt : t.Built p.backends)
    (hb : p.backends schedule.backend = some b) (hconfig : b.absurd = some config)
    (hkey : key ≠ "") :
  (beatSpawn p sdk columns schedule key).isSome = true
    ↔ BeatAccepts p sdk columns b config t schedule
  := by
  constructor
  · intro h
    obtain ⟨call, hcall⟩ := Option.isSome_iff_exists.mp h
    obtain ⟨hcall, hattempts⟩ := Option.filter_eq_some_iff.mp hcall
    obtain ⟨hself, t', request, htask, hrequest, hsdk⟩ :=
      (beatCall_eq_some_iff himport hbuilt hb hconfig).mp hcall
    obtain ⟨⟨-, hqueue, hafter, -⟩, hlayer, hvalid, hadmits⟩ :=
      scheduledTask_eq_ok himport hbuilt hb htask
    obtain ⟨hargs, hkwargs, hwritten⟩ := spawnRequest_isOk_iff.mp ⟨request, hrequest⟩
    obtain ⟨haccepts, rfl⟩ := (call_eq_some_iff hrequest).mp hsdk
    constructor
    · exact hadmits
    · rw [Backend.validates, Bool.and_eq_true, hqueue] at hvalid
      simpa using hvalid.2
    · exact hself
    · exact hargs
    · exact hkwargs
    · intro f hf
      rw [← spawnOptions_keyed hlayer hf]
      apply hwritten f
    · intro f hf v hv
      rw [← sentOptions_keyed hafter hlayer hf] at hv
      apply haccepts f v hv
    · simpa only [Sdk.sent, sentOptions_keyed (p := p) hafter hlayer
        (show SpawnField.maxAttempts ≠ .idempotencyKey by decide)] using hattempts
  · intro h
    obtain ⟨t', htask⟩ : ∃ t', scheduledTask p schedule key = .ok t' :=
      scheduledTask_of_admits himport hb h.admits h.queue
    obtain ⟨⟨-, -, hafter, -⟩, hlayer, -, -⟩ := scheduledTask_eq_ok himport hbuilt hb htask
    have hwritten : ∀ f, (spawnOptions config t' f).all (fun v => (dumps v).isSome) = true := by
      intro f
      by_cases hf : f = .idempotencyKey
      · rw [hf, spawnOptions_key hlayer]
        rfl
      · rw [spawnOptions_keyed hlayer hf]
        apply h.written f hf
    have haccepts : ∀ f, sdk.Accepts (sentOptions p config t') f := by
      intro f
      by_cases hf : f = .idempotencyKey
      · rw [hf]
        apply accepts_key hkey hlayer
      · intro v hv
        rw [sentOptions_keyed hafter hlayer hf] at hv
        apply h.taken f hf v hv
    obtain ⟨request, hrequest⟩ := spawnRequest_isOk_iff.mpr ⟨h.args, h.kwargs, hwritten⟩
    have hcall := (beatCall_eq_some_iff himport hbuilt hb hconfig).mpr
      ⟨h.keyword, t', request, htask, hrequest, (call_eq_some_iff hrequest).mpr ⟨haccepts, rfl⟩⟩
    apply Option.isSome_iff_exists.mpr
    refine ⟨_, Option.filter_eq_some_iff.mpr ⟨hcall, ?_⟩⟩
    simpa only [Sdk.sent, sentOptions_keyed (p := p) hafter hlayer
      (show SpawnField.maxAttempts ≠ .idempotencyKey by decide)] using h.attempts

/-- The beat scheduler spawns the function of the schedule's task, or its wrapper when the
task is deferred, with the options the task carries. -/
theorem beatSpawn_eq_some {p : Project} {sdk : Sdk} {columns : Columns} {b : Backend}
    {config : AbsurdConfig} {t : Task} {schedule : Schedule} {key : String} {call : SpawnCall}
    (himport : p.importString schedule.task = some t) (hbuilt : t.Built p.backends)
    (hb : p.backends schedule.backend = some b) (hconfig : b.absurd = some config)
    (h : beatSpawn p sdk columns schedule key = some call) :
  (t.runAfter ≠ none → call.name = t.modulePath ++ deferNameSuffix)
    ∧ (t.runAfter = none → call.queue = schedule.queue.getD t.queueName
      ∧ call.name = t.modulePath
      ∧ dumps (callParams schedule.args schedule.kwargs) = some call.params
      ∧ ∀ f, f ≠ .idempotencyKey → call.options f = sdk.sent (spawnOptions config t) f)
  := by
  obtain ⟨hcall, -⟩ := Option.filter_eq_some_iff.mp h
  obtain ⟨-, t', request, htask, hrequest, hsdk⟩ :=
    (beatCall_eq_some_iff himport hbuilt hb hconfig).mp hcall
  obtain ⟨⟨hfunc, hqueue, hafter, -⟩, hlayer, -, -⟩ := scheduledTask_eq_ok himport hbuilt hb htask
  obtain ⟨-, rfl⟩ := (call_eq_some_iff hrequest).mp hsdk
  have hpath : t'.modulePath = t.modulePath := by rw [Task.modulePath, hfunc, Task.modulePath]
  rw [spawnRequest, prepareSpawn, hafter] at hrequest
  constructor
  · intro hdeferred
    obtain ⟨due, hdue⟩ := Option.ne_none_iff_exists'.mp hdeferred
    rw [hdue] at hrequest
    obtain ⟨-, -, -, hname, -⟩ := buildSpawnRequest_eq_ok hrequest
    rw [hname, hpath]
  · intro hnone
    rw [hnone] at hrequest
    obtain ⟨hparams, -, -, hname, hrequestQueue⟩ := buildSpawnRequest_eq_ok hrequest
    refine ⟨hrequestQueue.trans hqueue, hname.trans hpath, hparams, fun f hf => ?_⟩
    have hsame : sentOptions p config t' f = spawnOptions config t f := by
      rw [sentOptions_keyed hafter hlayer hf, sentOptions, hnone]
    simp only [Sdk.sent, hsame]

/-! ### The row of a schedule -/

/-- The options the function of a task is decorated with, over the backend's default for
`max_attempts`. -/
def decoratedOptions (config : AbsurdConfig) (t : Task) : SpawnKwargs :=
  overlay (maxAttemptsOnly config.defaultMaxAttempts) t.func.defaults

/-- The row of a schedule can be written: its call can, and the columns take the options the
function of its task is decorated with. -/
structure RowAccepts (sdk : Sdk) (columns : Columns) (config : AbsurdConfig) (t : Task)
    (schedule : Schedule) : Prop where
  args : (dumpsItems schedule.args).isSome
  kwargs : (dumpsKwargs schedule.kwargs).isSome
  taken : ∀ f, sdk.Accepts (decoratedOptions config t) f
  held : ∀ f, (columns.held f (sdk.sent (decoratedOptions config t) f)).isSome

theorem resolveSpawnOptions_eq_some {p : Project} {sdk : Sdk} {config : AbsurdConfig} {t : Task}
    {taskPath : String} {opts : SpawnField → Option Json}
    (himport : p.importString taskPath = some t) :
  resolveSpawnOptions p sdk config taskPath = some opts
    ↔ (∀ f, sdk.Accepts (decoratedOptions config t) f)
      ∧ opts = sdk.sent (decoratedOptions config t)
  := by
  have hmerged : buildMergedSpawnOptions t.func.absurdParams none = t.func.defaults := by
    rw [buildMergedSpawnOptions]
    apply overlay.empty_right
  rw [← options_dumpsOptions, resolveSpawnOptions, himport, decoratedOptions, ← hmerged]
  rfl

/-- An integer column holds nothing `absurd.spawn_task` refuses. -/
theorem acceptsMaxAttempts_of_held {columns : Columns} {option kept : Option Json}
    (h : columns.held .maxAttempts option = some kept) :
  acceptsMaxAttempts columns kept = true
  := by
  simp only [Columns.held, Option.bind_eq_bind, Option.bind_eq_some_iff, Option.pure_def,
    Option.some_inj] at h
  obtain ⟨n, hn, ⟨⟩, hguard, rfl⟩ := h
  cases n with
  | none => rfl
  | some n =>
      have hpositive : 1 ≤ n := by
        rw [guard] at hguard
        split at hguard
        · rename_i hall
          simpa using hall
        · cases hguard
      obtain ⟨j, hj⟩ : ∃ j, columns.integer j = some n := by
        rw [nullable.eq_def] at hn
        split at hn
        · cases hn
        · cases hn
        · obtain ⟨n', hn', hsome⟩ := Option.map_eq_some_iff.mp hn
          cases hsome
          exact ⟨_, hn'⟩
      rw [acceptsMaxAttempts, Option.map_some, ofInteger, nullable, columns.castInteger_integer hj]
      · simpa using hpositive
      · simp

/-- The row of a schedule: its queue, its call and the options its task's function is
decorated with, in columns. -/
theorem scheduledRow_eq_some_iff {p : Project} {sdk : Sdk} {columns : Columns}
    {config : AbsurdConfig} {t : Task} {schedule : Schedule} {v : ScheduledTask}
    (himport : p.importString schedule.task = some t) (hqueue : schedule.queue ≠ some "") :
  scheduledRow p sdk columns config schedule = some v
    ↔ (∀ f, sdk.Accepts (decoratedOptions config t) f) ∧ ∃ options,
      buildOptionColumns columns (sdk.sent (decoratedOptions config t)) = some options
      ∧ ∃ items, dumpsItems schedule.args = some items
      ∧ ∃ members, dumpsKwargs schedule.kwargs = some members
      ∧ v = ⟨.settings, schedule.name, schedule.task, schedule.queue.getD t.queueName,
          .arr items, .obj members, options, schedule.cron, true⟩
  := by
  have hoverride : schedule.queue.filter (· ≠ "") = schedule.queue := by
    cases hq : schedule.queue with
    | none => rfl
    | some q =>
        have hne : q ≠ "" := fun hempty => hqueue (by rw [hq, hempty])
        simp [Option.filter, hne]
  simp only [scheduledRow, buildScheduledFields, himport, hoverride, Option.bind_eq_bind,
    Option.bind_some, Option.bind_eq_some_iff, Option.pure_def, Option.some_inj,
    resolveSpawnOptions_eq_some himport]
  constructor
  · rintro ⟨_, ⟨opts, ⟨haccepts, rfl⟩, options, hoptions, rfl⟩, items, hitems, members, hmembers,
      rfl⟩
    exact ⟨haccepts, options, hoptions, items, hitems, members, hmembers, rfl⟩
  · rintro ⟨haccepts, options, hoptions, items, hitems, members, hmembers, rfl⟩
    exact ⟨_, ⟨_, ⟨haccepts, rfl⟩, options, hoptions, rfl⟩, items, hitems, members, hmembers, rfl⟩

/-- The job of a schedule spawns the name of the schedule, on its queue, with what the columns
hold of the options its task's function is decorated with. -/
theorem pgCronSpawn_eq_some_iff {p : Project} {sdk : Sdk} {columns : Columns}
    {config : AbsurdConfig} {t : Task} {schedule : Schedule} {call : SpawnCall}
    (himport : p.importString schedule.task = some t) (hqueue : schedule.queue ≠ some "") :
  pgCronSpawn p sdk columns config schedule = some call
    ↔ (∀ f, sdk.Accepts (decoratedOptions config t) f)
      ∧ call.queue = schedule.queue.getD t.queueName ∧ call.name = schedule.task
      ∧ dumps (callParams schedule.args schedule.kwargs) = some call.params
      ∧ ∀ f, columns.held f (sdk.sent (decoratedOptions config t) f) = some (call.options f)
  := by
  rw [pgCronSpawn, pgCronCall, Option.filter_eq_some_iff, Option.bind_eq_some_iff]
  constructor
  · rintro ⟨⟨v, hv, hrun⟩, -⟩
    obtain ⟨haccepts, options, hoptions, items, hitems, members, hmembers, rfl⟩ :=
      (scheduledRow_eq_some_iff himport hqueue).mp hv
    cases hrun
    refine ⟨haccepts, rfl, rfl, ?_, held_of_buildOptionColumns hoptions⟩
    rw [callParams_dumps, hitems, hmembers]
    rfl
  · rintro ⟨haccepts, hcallQueue, hname, hparams, hheld⟩
    obtain ⟨options, hoptions⟩ := buildOptionColumns_isSome_iff.mpr
      (fun f => by rw [hheld f]; rfl)
    rw [callParams_dumps] at hparams
    obtain ⟨items, hitems, hparams⟩ := Option.bind_eq_some_iff.mp hparams
    obtain ⟨members, hmembers, hparams⟩ := Option.map_eq_some_iff.mp hparams
    refine ⟨⟨_, (scheduledRow_eq_some_iff himport hqueue).mpr
      ⟨haccepts, options, hoptions, items, hitems, members, hmembers, rfl⟩, ?_⟩,
      acceptsMaxAttempts_of_held (hheld .maxAttempts)⟩
    have hcall : call.options = scheduledOptions options := by
      funext f
      have hkept := hheld f
      rw [held_of_buildOptionColumns hoptions f] at hkept
      apply (Option.some.inj hkept).symm
    obtain ⟨queue, name, params, sent⟩ := call
    cases hcallQueue
    cases hname
    cases hparams
    cases hcall
    rfl

/-- The job of a schedule spawns a task when its row can be written. -/
theorem isSome_pgCronSpawn_iff {p : Project} {sdk : Sdk} {columns : Columns}
    {config : AbsurdConfig} {t : Task} {schedule : Schedule}
    (himport : p.importString schedule.task = some t) (hqueue : schedule.queue ≠ some "") :
  (pgCronSpawn p sdk columns config schedule).isSome = true
    ↔ RowAccepts sdk columns config t schedule
  := by
  rw [Option.isSome_iff_exists]
  constructor
  · rintro ⟨call, hcall⟩
    obtain ⟨haccepts, -, -, hparams, hheld⟩ := (pgCronSpawn_eq_some_iff himport hqueue).mp hcall
    rw [callParams_dumps] at hparams
    obtain ⟨items, hitems, hparams⟩ := Option.bind_eq_some_iff.mp hparams
    obtain ⟨members, hmembers, -⟩ := Option.map_eq_some_iff.mp hparams
    exact ⟨by rw [hitems]; rfl, by rw [hmembers]; rfl, haccepts, fun f => by rw [hheld f]; rfl⟩
  · rintro ⟨hargs, hkwargs, htaken, hheld⟩
    obtain ⟨items, hitems⟩ := Option.isSome_iff_exists.mp hargs
    obtain ⟨members, hmembers⟩ := Option.isSome_iff_exists.mp hkwargs
    let options := fun f => (columns.held f (sdk.sent (decoratedOptions config t) f)).join
    refine ⟨⟨schedule.queue.getD t.queueName, schedule.task,
      .obj [("args", .arr items), ("kwargs", .obj members)], options⟩,
      (pgCronSpawn_eq_some_iff himport hqueue).mpr ⟨htaken, rfl, rfl, ?_, fun f => ?_⟩⟩
    · rw [callParams_dumps, hitems, hmembers]
      rfl
    · obtain ⟨kept, hkept⟩ := Option.isSome_iff_exists.mp (hheld f)
      simp only [options, hkept]
      rfl

/-! ### The two lanes -/

/-- What parameters say of an option; the backend says `max_attempts` when they do not. -/
def AbsurdConfig.valueOf (config : AbsurdConfig) (params : SpawnKwargs) (f : SpawnField) :
    Option PyValue :=
  (params f).or (maxAttemptsOnly config.defaultMaxAttempts f)

/-- The columns keep an option, up to null. -/
def Columns.Keep (columns : Columns) (f : SpawnField) (option : Option Json) : Prop :=
  ∃ kept, columns.held f option = some kept ∧ SameOption option kept

/-- The columns keep the default the function of a task object is decorated with, and the object
carries no parameter over it that changes the option; or they hold something else than the default,
and that is the parameter the object carries. -/
def OptionAgrees (sdk : Sdk) (columns : Columns) (config : AbsurdConfig) (t : Task)
    (f : SpawnField) : Prop :=
  let default := sdk.form f (config.valueOf t.func.defaults f)
  let carried := sdk.form f (config.valueOf t.layer f)
  (columns.Keep f default ∧ SameOption carried default)
    ∨ (¬ columns.Keep f default
      ∧ ∃ other, columns.held f default = some other ∧ SameOption carried other)

/-- When either lane spawns a task, the task object is not deferred, it gets through an enqueue,
its row can be written, and the parameters it carries agree with the defaults of its function. -/
def LanesAgree (p : Project) (sdk : Sdk) (columns : Columns) (b : Backend)
    (config : AbsurdConfig) (t : Task) (schedule : Schedule) : Prop :=
  BeatAccepts p sdk columns b config t schedule ∨ RowAccepts sdk columns config t schedule →
    t.runAfter = none ∧ BeatAccepts p sdk columns b config t schedule
      ∧ RowAccepts sdk columns config t schedule
      ∧ ∀ f, f ≠ .idempotencyKey → OptionAgrees sdk columns config t f

/-- The parameters of an object and the defaults of its function agree on an option when what is
sent for the ones is what the columns hold of the others. -/
theorem optionAgrees_iff {sdk : Sdk} {columns : Columns} {config : AbsurdConfig} {t : Task}
    {f : SpawnField} :
  OptionAgrees sdk columns config t f
    ↔ ∃ kept, columns.held f (sdk.sent (decoratedOptions config t) f) = some kept
      ∧ SameOption (sdk.sent (spawnOptions config t) f) kept
  := by
  have hdefault : sdk.sent (decoratedOptions config t) f
      = sdk.form f (config.valueOf t.func.defaults f) := rfl
  have hcarried : sdk.sent (spawnOptions config t) f = sdk.form f (config.valueOf t.layer f) := by
    rw [Sdk.sent, spawnOptions_eq]
    rfl
  rw [hdefault, hcarried, OptionAgrees]
  constructor
  · rintro (⟨⟨kept, hkept, hkeep⟩, hsame⟩ | ⟨-, other, hother, hsame⟩)
    · exact ⟨kept, hkept, hsame.trans hkeep⟩
    · exact ⟨other, hother, hsame⟩
  · rintro ⟨kept, hkept, hsame⟩
    by_cases hkeep : columns.Keep f (sdk.form f (config.valueOf t.func.defaults f))
    · obtain ⟨kept', hkept', hdefault⟩ := hkeep
      left
      refine ⟨⟨kept', hkept', hdefault⟩, ?_⟩
      rw [hkept] at hkept'
      cases hkept'
      exact hsame.trans hdefault.symm
    · exact .inr ⟨hkeep, kept, hkept, hsame⟩

theorem getHandler_import {p : Project} {path : String} {t : Task}
    (h : p.importString path = some t) :
  getHandler p path = some (.call t.func)
  := by
  rw [getHandler, p.importString_plain h, h]
  rfl

theorem getHandler_deferred (p : Project) (path : String) :
  getHandler p (path ++ deferNameSuffix) = some (.deferred path)
  := by
  rw [getHandler, endsWith_append, removeSuffix_append]
  rfl

/-- The lanes match for a task that was built when they agree on it. -/
theorem lanesMatch_of_built {p : Project} {sdk : Sdk} {columns : Columns} {definition t : Task}
    {b : Backend} {config : AbsurdConfig} {schedule : Schedule} {key : String}
    (hdefinition : p.importString definition.modulePath = some definition)
    (hfunc : t.func = definition.func) (hbuilt : t.Built p.backends)
    (himport : p.importString schedule.task = some t)
    (hb : p.backends schedule.backend = some b) (hconfig : b.absurd = some config)
    (hqueue : schedule.queue ≠ some "") (hkey : key ≠ "") :
  LanesMatch p (beatSpawn p sdk columns schedule key) (pgCronSpawn p sdk columns config schedule)
    ↔ LanesAgree p sdk columns b config t schedule
  := by
  have hpath : t.modulePath = definition.modulePath := by
    rw [Task.modulePath, hfunc, Task.modulePath]
  rw [LanesMatch, LanesAgree, ← isSome_beatSpawn_iff himport hbuilt hb hconfig hkey,
    ← isSome_pgCronSpawn_iff himport hqueue]
  apply imp_congr_right
  intro _
  constructor
  · rintro ⟨beat, pgCron, hbeat, hpgCron, hsame⟩
    obtain ⟨hdeferred, hplain⟩ := beatSpawn_eq_some himport hbuilt hb hconfig hbeat
    obtain ⟨-, -, hname, -, hheld⟩ := (pgCronSpawn_eq_some_iff himport hqueue).mp hpgCron
    have hafter : t.runAfter = none := by
      by_contra hafter
      have hhandler := hsame.handler
      rw [hdeferred hafter, hname, getHandler_import himport, getHandler_deferred] at hhandler
      cases hhandler
    use hafter, by rw [hbeat]; rfl, by rw [hpgCron]; rfl
    intro f hf
    apply optionAgrees_iff.mpr
    use pgCron.options f, hheld f
    rw [← (hplain hafter).2.2.2 f hf]
    apply hsame.options f hf
  · rintro ⟨hafter, hbeat, hpgCron, hoptions⟩
    obtain ⟨beat, hbeat⟩ := Option.isSome_iff_exists.mp hbeat
    obtain ⟨pgCron, hpgCron⟩ := Option.isSome_iff_exists.mp hpgCron
    refine ⟨beat, pgCron, hbeat, hpgCron, ?_⟩
    obtain ⟨-, hplain⟩ := beatSpawn_eq_some himport hbuilt hb hconfig hbeat
    obtain ⟨hqueueB, hnameB, hparamsB, hoptionsB⟩ := hplain hafter
    obtain ⟨-, hqueueP, hnameP, hparamsP, hheld⟩ :=
      (pgCronSpawn_eq_some_iff himport hqueue).mp hpgCron
    constructor
    · rw [hqueueB, hqueueP]
    · rw [hnameB, hnameP, hpath, getHandler_import himport, getHandler_import hdefinition, hfunc]
    · rw [hparamsB] at hparamsP
      apply Option.some.inj hparamsP
    · intro f hf
      obtain ⟨kept, hkept, hsame⟩ := optionAgrees_iff.mp (hoptions f hf)
      rw [hheld f] at hkept
      rw [hoptionsB f hf, Option.some.inj hkept]
      exact hsame

/-- For a schedule of the settings that names a task object derived from a definition, the
two lanes spawn the same task exactly when they agree on the object. -/
theorem lanesMatch_iff (p : Project) (k : KeyFormat) (sdk : Sdk) (columns : Columns)
    {written definition t : Task} {b : Backend} {config : AbsurdConfig} {backend : String}
    {scheduleMap : List (String × ScheduleSpec)} {schedule : Schedule} (due : Time)
    (hdefinition : written.postInit p.backends = .ok definition)
    (himport : p.importString definition.modulePath = some definition)
    (hderives : Derives p.backends definition t)
    (hb : p.backends backend = some b) (hconfig : b.absurd = some config)
    (hschedule : schedule ∈ getSettingsSchedules backend scheduleMap)
    (htask : p.importString schedule.task = some t) :
  LanesMatch p (beatSpawn p sdk columns schedule (deriveIdempotencyKey k schedule due))
      (pgCronSpawn p sdk columns config schedule)
    ↔ LanesAgree p sdk columns b config t schedule
  := by
  have hbuilt : definition.Built p.backends := built_of_postInit hdefinition
  obtain ⟨entry, -, rfl⟩ := List.mem_map.mp hschedule
  apply lanesMatch_of_built himport (hderives.keeps hbuilt).1 (hderives.built hbuilt) htask hb
    hconfig _ (deriveIdempotencyKey_ne_empty k _ due)
  intro hempty
  obtain ⟨-, hne⟩ := Option.filter_eq_some_iff.mp hempty
  simp at hne

/-- Columns that hold integers, numbers and strings as they are. -/
def plainColumns : Columns where
  integer
    | .num ⟨n, 0⟩ => some n
    | _ => none
  double
    | .num d => some d
    | _ => none
  text
    | .str s => some s
    | _ => none
  castInteger
    | .num ⟨n, 0⟩ => some n
    | _ => none
  castInteger_integer := by
    intro j n h
    split at h
    · cases h
      rfl
    · cases h

/-- `tasks.add` with `max_attempts` bound to it. -/
def addOnce : Task :=
  { addTask .absurdTask "absurd" with absurdParams := some (maxAttemptsOnly 1) }

/-- A project with the definition `tasks.add` and the module-level object `tasks.add_once`. -/
def cronProject : Project :=
  { twoBackends (addTask .absurdTask "absurd") with
    imports := fun path =>
      if path = "tasks.add" then .task (addTask .absurdTask "absurd")
      else if path = "tasks.add_once" then .task addOnce
      else .importError
    imports_plain := by
      intro path t h
      split at h
      · rename_i hpath
        subst hpath
        decide
      · split at h
        · rename_i hpath
          subst hpath
          decide
        · cases h }

/-- A schedule of a task in the settings. -/
def nightlySpec (task : String) : ScheduleSpec := ⟨task, "0 2 * * *", none, [], []⟩

/-- The schedule of a task. -/
def nightly (task : String) : Schedule := ⟨"nightly", task, "0 2 * * *", none, [], [], "absurd"⟩

def plainKeys : KeyFormat where
  isoSeconds _ := "2026-01-01T02:00:00+00:00"
  sha256 _ := "9f86d081884c7d659a2feaa0c55ad015a3bf4f1b2b0b822cd15d6c15b0f00a08"

theorem accepts_maxAttemptsOnly (n : ℤ) (f : SpawnField) :
  plainSdk.Accepts (maxAttemptsOnly n) f
  := by
  intro v hv
  cases f with
  | maxAttempts =>
      cases hv
      exact ⟨_, rfl, by simp [plainSdk]⟩
  | retryStrategy | cancellation | headers | idempotencyKey => cases hv

theorem rowAccepts_nightly (task : String) {t : Task} (hfunc : t.func.absurdParams = none) :
  RowAccepts plainSdk plainColumns ⟨"default", 5, ["default"]⟩ t (nightly task)
  := by
  have hdecorated : decoratedOptions ⟨"default", 5, ["default"]⟩ t = maxAttemptsOnly 5 := by
    rw [decoratedOptions, Func.defaults, hfunc]
    apply overlay.empty_right
  constructor
  · rfl
  · rfl
  · rw [hdecorated]
    apply accepts_maxAttemptsOnly
  · rw [hdecorated]
    intro f
    cases f <;> rfl

/-- The definition itself, scheduled on its own queue. -/
theorem lanesMatch_iff_definition :
  LanesMatch cronProject
    (beatSpawn cronProject plainSdk plainColumns (nightly "tasks.add")
      (deriveIdempotencyKey plainKeys (nightly "tasks.add") 0))
    (pgCronSpawn cronProject plainSdk plainColumns ⟨"default", 5, ["default"]⟩
      (nightly "tasks.add"))
  := by
  have hdefinition : (addTask .absurdTask "absurd").postInit cronProject.backends
      = .ok (addTask .absurdTask "absurd") := rfl
  have hbackend : cronProject.backends "absurd" = some absurdBackend := rfl
  have hschedule : nightly "tasks.add"
      ∈ getSettingsSchedules "absurd" [("nightly", nightlySpec "tasks.add")] :=
    List.mem_cons_self
  apply (lanesMatch_iff cronProject plainKeys plainSdk plainColumns 0 hdefinition rfl .refl hbackend
    rfl hschedule rfl).mpr
  intro _
  have hoptions : sentOptions cronProject ⟨"default", 5, ["default"]⟩
      (addTask .absurdTask "absurd") = maxAttemptsOnly 5 := overlay.empty_right _
  refine ⟨rfl, ?_, rowAccepts_nightly "tasks.add" rfl, ?_⟩
  · constructor
    · rfl
    · exact .inr List.mem_cons_self
    · simp [nightly]
    · rfl
    · rfl
    · intro f _
      cases f <;> rfl
    · intro f _
      rw [hoptions]
      apply accepts_maxAttemptsOnly
    · rfl
  · intro f hf
    left
    cases f with
    | maxAttempts | retryStrategy | cancellation | headers => exact ⟨⟨_, rfl, rfl⟩, rfl⟩
    | idempotencyKey => exact absurd rfl hf

/-- A module-level object with `max_attempts` bound to it: the beat scheduler spawns it with
one attempt and the job of its row with the backend's default. -/
theorem row_loses_bound_attempts :
  ¬ ∀ (p : Project) (k : KeyFormat) (sdk : Sdk) (columns : Columns) (written definition t : Task)
      (b : Backend) (config : AbsurdConfig) (backend : String)
      (scheduleMap : List (String × ScheduleSpec)) (schedule : Schedule) (due : Time),
      written.postInit p.backends = .ok definition →
      p.importString definition.modulePath = some definition →
      Derives p.backends definition t →
      p.backends backend = some b → b.absurd = some config →
      schedule ∈ getSettingsSchedules backend scheduleMap →
      p.importString schedule.task = some t →
      LanesMatch p (beatSpawn p sdk columns schedule (deriveIdempotencyKey k schedule due))
        (pgCronSpawn p sdk columns config schedule)
  := by
  intro h
  have hparams : buildMergedSpawnOptions none (some (buildMergedSpawnOptions none
      (some (maxAttemptsOnly 1)))) = maxAttemptsOnly 1 := by
    funext f
    cases f <;> rfl
  have hbind : bind cronProject.backends (maxAttemptsOnly 1) (addTask .absurdTask "absurd")
      = .ok addOnce := by
    calc bind cronProject.backends (maxAttemptsOnly 1) (addTask .absurdTask "absurd")
      _ = .ok { addTask .absurdTask "absurd" with
            absurdParams := some (buildMergedSpawnOptions none (some (buildMergedSpawnOptions none
              (some (maxAttemptsOnly 1))))) } := rfl
      _ = .ok addOnce := by rw [hparams]; rfl
  have hderives : Derives cronProject.backends (addTask .absurdTask "absurd") addOnce :=
    .bound (maxAttemptsOnly 1) .refl hbind
  have hbuilt : (addTask .absurdTask "absurd").Built cronProject.backends :=
    built_of_postInit (t := addTask .absurdTask "absurd") rfl
  have hschedule : nightly "tasks.add_once"
      ∈ getSettingsSchedules "absurd" [("nightly", nightlySpec "tasks.add_once")] :=
    List.mem_cons_self
  have hmatch := h cronProject plainKeys plainSdk plainColumns (addTask .absurdTask "absurd") _ _
    absurdBackend _ _ _ _ 0 rfl rfl hderives rfl rfl hschedule rfl
  have himport : cronProject.importString (addTask .absurdTask "absurd").modulePath
      = some (addTask .absurdTask "absurd") := rfl
  have hfunc : addOnce.func = (addTask .absurdTask "absurd").func := rfl
  rw [lanesMatch_of_built himport hfunc (hderives.built hbuilt) rfl rfl rfl (by simp [nightly])
    (deriveIdempotencyKey_ne_empty _ _ _)] at hmatch
  obtain ⟨-, -, -, hoptions⟩ := hmatch (.inr (rowAccepts_nightly "tasks.add_once" rfl))
  obtain ⟨kept, hkept, hsame⟩ := optionAgrees_iff.mp (hoptions .maxAttempts (by decide))
  cases hkept
  have hrat : Decimal.toRat ⟨1, 0⟩ = Decimal.toRat ⟨5, 0⟩ := hsame
  norm_num [Decimal.toRat] at hrat

end DjangoAbsurd
