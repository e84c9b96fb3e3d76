import DjangoAbsurd.Interleaving
import DjangoAbsurd.Spawning

/-!
# What a wrapper shows of itself

The id of a deferred enqueue names its wrapper until the wrapper is completed. What the
wrapper does is no start of the caller's task, so the result should be one of a task that
has not started.

The times of the wrapper's runs are masked, and so is its sleep. Its claim is not: while its
run is running, and once a run that a worker held has failed, the result shows it.
-/

namespace DjangoAbsurd

open Engine

/-- The result of a task that has not started. -/
structure TaskResult.NotStarted (result : TaskResult) : Prop where
  status : result.status = .ready
  startedAt : result.startedAt = none
  lastAttemptedAt : result.lastAttemptedAt = none
  finishedAt : result.finishedAt = none
  workerIds : result.workerIds = []

/-- A wrapper that is neither running nor has a failed run that a worker held. -/
structure Unclaimed (s : QueueState) (w : TaskRow) : Prop where
  waiting : w.state ≠ .running
  failed : ∀ r ∈ s.runs.rows, r.taskId = w.taskId → r.state = .failed → r.claimedBy = none

/-- No worker is read exactly when no run of the task has one. -/
theorem readWorkerIds_eq_nil {runs : Keyed.Table RunRow.runId} {id : Uuid} :
  readWorkerIds runs id = [] ↔ ∀ r ∈ runs.rows, r.taskId = id → r.claimedBy = none
  := by
  rw [readWorkerIds, List.filterMap_eq_nil_iff]
  simp

/-- A task that is not terminal has a run with a worker exactly when it is running or a run
that a worker held has failed. -/
theorem unclaimed_iff {s : QueueState} {w : TaskRow} (h : s.life.Consistent)
    (hw : w ∈ s.tasks.rows) (hopen : w.state.terminal = false) :
  Unclaimed s w ↔ ∀ r ∈ s.runs.rows, r.taskId = w.taskId → r.claimedBy = none
  := by
  have hfollows := h.follows w hw
  have hmem : ∀ r ∈ s.runs.rows, r.taskId = w.taskId → r ∈ s.life.runsOf w.taskId :=
    fun r hr hid => Lifecycle.mem_runsOf.mpr ⟨hr, hid⟩
  constructor
  · rintro ⟨hwaiting, hfailed⟩ r hr hid
    have htimed := hfollows.timed r (hmem r hr hid)
    cases hstate : r.state with
    | pending => exact htimed.idle (.inl hstate)
    | sleeping => exact htimed.idle (.inr (.inl hstate))
    | cancelled => exact htimed.idle (.inr (.inr hstate))
    | failed => exact hfailed r hr hid hstate
    | running =>
        have hagrees := hfollows.agrees_of_active (s.life.nodup_runsOf w.taskId) (hmem r hr hid)
          (active_of_running hstate)
        exact absurd (hagrees.running.mpr hstate) hwaiting
    | completed =>
        exact absurd (hfollows.completed r (hmem r hr hid) hstate) (ne_of_live hopen).1
  · intro hnone
    constructor
    · intro hrunning
      obtain ⟨r, hr, hagrees⟩ := hfollows.last
      obtain ⟨hrow, hid⟩ := Lifecycle.mem_runsOf.mp hr
      exact (hfollows.timed r hr).running (hagrees.running.mp hrunning) (hnone r hrow hid)
    · exact fun r hr hid _ => hnone r hr hid

/-- A result built from the row of a wrapper that is not terminal is one of a task that has
not started exactly when the wrapper is unclaimed. -/
theorem notStarted_iff_unclaimed {p : Project} {pg : Postgres} {backend queue : String}
    {s : QueueState} {w : TaskRow} {result : TaskResult} (hreachable : Reachable pg s)
    (hw : w ∈ s.tasks.rows) (hwrapper : isDeferredWrapper w = true)
    (hopen : w.state.terminal = false) (hbuilt : describe p backend queue s w = .ok result) :
  result.NotStarted ↔ Unclaimed s w
  := by
  have hconsistent := consistent_of_reachable hreachable
  obtain ⟨taskObj, errors, call, -, rfl⟩ := fill_of_buildTaskResult hbuilt
  rw [unclaimed_iff hconsistent hw hopen, ← readWorkerIds_eq_nil]
  constructor
  · exact fun h => h.workerIds
  · intro hworkers
    have hunclaimed := (unclaimed_iff hconsistent hw hopen).mpr (readWorkerIds_eq_nil.mp hworkers)
    have hself : (machine pg).run s [] = some s := rfl
    have hundisturbed := undisturbed_self hreachable hw
    have hfinished := (finished_iff hreachable hself hw rfl).mpr
      ⟨hundisturbed.live, hundisturbed.ended⟩
    obtain ⟨hcompleted, hfailed, hcancelled⟩ := ne_of_live hopen
    constructor
    · have hwaiting := hunclaimed.waiting
      rw [fillTaskResult, hwrapper]
      cases hstate : w.state <;> simp_all [readStatus, mapStateToStatus]
    · simp [fillTaskResult, hwrapper]
    · simp [fillTaskResult, hwrapper]
    · by_contra hne
      have hended := hfinished.mp hne
      simp [hcompleted, hfailed, hcancelled] at hended
    · exact hworkers

/-! ### The wrapper of a deferred enqueue -/

/-- The call a wrapper carries. -/
theorem readCarried_of_readDeferredSpec {p : Project} {params : Json} {spec : DeferredSpec}
    (h : readDeferredSpec p params = some spec) :
  (params.get? "kwargs").bind readCarried = some (.list spec.args, pyDict spec.kwargs)
  := by
  obtain ⟨call, hcall, h⟩ := Option.bind_eq_some_iff.mp h
  obtain ⟨argsJson, hargsJson, h⟩ := Option.bind_eq_some_iff.mp h
  obtain ⟨args, hargs, h⟩ := Option.bind_eq_some_iff.mp h
  obtain ⟨kwargsJson, hkwargsJson, h⟩ := Option.bind_eq_some_iff.mp h
  obtain ⟨kwargs, hkwargs, h⟩ := Option.bind_eq_some_iff.mp h
  obtain ⟨queue, -, h⟩ := Option.bind_eq_some_iff.mp h
  obtain ⟨options, -, h⟩ := Option.bind_eq_some_iff.mp h
  obtain ⟨optionsRead, -, h⟩ := Option.bind_eq_some_iff.mp h
  obtain ⟨due, -, h⟩ := Option.bind_eq_some_iff.mp h
  cases h
  simp [hcall, readCarried, hargsJson, Json.toList?_of_list? hargs, hkwargsJson,
    Json.toDict?_of_dict? hkwargs, pyDict]

/-- The call of a deferred enqueue carries the path of the caller's task and its call. -/
theorem deferredCall {p : Project} {sdk : Sdk} {t : Task} {due : DateTime} {args : List PyValue}
    {kwargs : Kwargs} {call : SpawnCall} (hdue : t.runAfter = some due)
    (hcall : enqueueCall p sdk t args kwargs = some call) :
  call.name = t.modulePath ++ deferNameSuffix
    ∧ ((call.params.get? "kwargs").bind readCarried).isSome = true
  := by
  obtain ⟨b, config, request, -, -, -, hrequest, hsent⟩ := enqueueCall_eq_some hcall
  obtain ⟨-, hname, hparams, -⟩ := call_eq_some hsent
  obtain ⟨hname', items, members, written, -, -, -, hspec⟩ := wrapper_carries hdue hrequest
  use hname.trans hname'
  rw [hparams, readCarried_of_readDeferredSpec hspec]
  rfl

/-- The id of an enqueue names the row of its call. -/
theorem id_of_enqueue {p : Project} {sdk : Sdk} {pg : Postgres}
    {raised : EngineError → SpawnError} {s s' : QueueState} {now : Time} {t : Task}
    {args : List PyValue} {kwargs : Kwargs} {call : SpawnCall} {spawned : Spawned}
    {result : TaskResult} (hcall : enqueueCall p sdk t args kwargs = some call)
    (hspawn : call.execute pg s now = .ok (s', spawned))
    (henqueue : t.enqueue p (spawnOn sdk pg raised s now) now args kwargs = .ok result) :
  result.id = buildResultId p t.queueName spawned.taskId
  := by
  obtain ⟨b, config, -, hb, hconfig, -⟩ := enqueueCall_eq_some hcall
  obtain ⟨call', s'', spawned', hcall', hspawn', hid⟩ := enqueue_spawnOn hb hconfig henqueue
  obtain rfl := Option.some.inj (hcall.symm.trans hcall')
  obtain ⟨rfl, rfl⟩ := Prod.mk.inj (Except.ok.inj (hspawn.symm.trans hspawn'))
  exact hid

/-- A call leads from a reachable queue to a reachable one. -/
theorem reachable_of_execute {pg : Postgres} {s s' : QueueState} {now : Time} {call : SpawnCall}
    {spawned : Spawned} (hreachable : Reachable pg s)
    (hspawn : call.execute pg s now = .ok (s', spawned)) :
  Reachable pg s'
  := by
  have hstep : (machine pg).run s [.spawn now call.name call.params call.optionsJson]
      = some s' := by
    apply Machine.run_cons.mpr
    refine ⟨s', ?_, rfl⟩
    exact congrArg (fun x => (Except.map Prod.fst x).toOption) hspawn
  exact hreachable.run hstep

/-- The row of a call that created its task keeps the call's name and params along every run. -/
theorem sent_of_run {pg : Postgres} {s₀ s₁ s : QueueState} {now : Time} {call : SpawnCall}
    {spawned : Spawned} {ls : List Label} {w : TaskRow} (hreachable : Reachable pg s₁)
    (hspawn : call.execute pg s₀ now = .ok (s₁, spawned)) (hcreated : spawned.created = true)
    (hrun : (machine pg).run s₁ ls = some s) (hw : s.tasks.get? spawned.taskId = some w) :
  w.taskName = call.name ∧ w.params = call.params
  := by
  obtain ⟨w₁, hw₁, hid₁, hname, hparams, -⟩ := spawnTask_created hspawn hcreated
  obtain ⟨cs, hcs, -⟩ := refines_run hrun
  have horigin := origin_run (consistent_of_reachable hreachable) hw₁ hcs w
    (Keyed.Table.mem_of_get? hw) ((Keyed.Table.key_of_get? hw).trans hid₁.symm)
  obtain ⟨-, hsameName, hsameParams, -⟩ := TaskRow.eq_of_origin horigin
  exact ⟨hsameName.trans hname, hsameParams.trans hparams⟩

/-- A row with the name and params of a deferred enqueue is a wrapper, under the path of the
caller's task and with its call. -/
theorem wrapper_of_sent {p : Project} {sdk : Sdk} {t : Task} {due : DateTime}
    {args : List PyValue} {kwargs : Kwargs} {call : SpawnCall} {w : TaskRow}
    (hdue : t.runAfter = some due) (hcall : enqueueCall p sdk t args kwargs = some call)
    (hsent : w.taskName = call.name ∧ w.params = call.params) :
  isDeferredWrapper w = true ∧ callerPath w = t.modulePath ∧ (callerCall w).isSome = true
  := by
  obtain ⟨hpath, hread⟩ := deferredCall hdue hcall
  have hname := hsent.1.trans hpath
  have hwrapper : isDeferredWrapper w = true := by
    rw [isDeferredWrapper, hname]
    apply endsWith_append
  refine ⟨hwrapper, ?_, ?_⟩
  · rw [callerPath, hwrapper, if_pos rfl, hname, removeSuffix_append]
  · rw [callerCall, hwrapper, if_pos rfl, hsent.2]
    exact hread

/-- Take a deferred enqueue that created its wrapper, and a queue it led to in which the
wrapper is not terminal. The id of the enqueue gives the result of a task that has not
started exactly when the backend takes the queue, the definition is where the enqueue went
or may be routed there, the wrapper is not running, and none of its runs failed in the hands
of a worker. -/
theorem deferred_notStarted_iff (p : Project) (py : PythonLower) (pg : Postgres) (sdk : Sdk)
    (raised : EngineError → SpawnError) {written definition t : Task} {b : Backend}
    {due : DateTime} {args : List PyValue} {kwargs : Kwargs} {call : SpawnCall}
    {s₀ s₁ s : QueueState} {now : Time} {spawned : Spawned}
    {enqueued : TaskResult} {ls : List Label} {w : TaskRow} {db : Database} {registry : Registry}
    (fuel : ℕ)
    (hdefinition : written.postInit p.backends = .ok definition)
    (himport : p.importString definition.modulePath = some definition)
    (hderives : Derives p.backends definition t) (hdue : t.runAfter = some due)
    (hb : p.backends t.backend = some b) (hreachable : Reachable pg s₀)
    (henqueue : t.enqueue p (spawnOn sdk pg raised s₀ now) now args kwargs = .ok enqueued)
    (hcall : enqueueCall p sdk t args kwargs = some call)
    (hspawn : call.execute pg s₀ now = .ok (s₁, spawned))
    (hcreated : spawned.created = true) (hrun : (machine pg).run s₁ ls = some s)
    (hw : s.tasks.get? spawned.taskId = some w) (hopen : w.state.terminal = false)
    (hreads : Reads py registry db t.queueName s) :
  (∃ result, (getResult p py b t.backend db (fuel + 1) registry enqueued.id).1 = .ok result
      ∧ result.NotStarted)
    ↔ t.queueName ∈ b.queues
      ∧ ((definition.queueName = t.queueName ∧ definition.backend = t.backend)
        ∨ b.admits definition.func definition.priority definition.runAfter
          definition.takesContext = true)
      ∧ Unclaimed s w
  := by
  have hid := id_of_enqueue hcall hspawn henqueue
  have hreachable₁ := reachable_of_execute hreachable hspawn
  have hreachable' := hreachable₁.run hrun
  have hmem := Keyed.Table.mem_of_get? hw
  have hsent := sent_of_run hreachable₁ hspawn hcreated hrun hw
  obtain ⟨hwrapper, hpath, hcarried⟩ := wrapper_of_sent hdue hcall hsent
  have hmodule : t.modulePath = definition.modulePath := by
    obtain ⟨hfunc, -, -⟩ := hderives.keeps (built_of_postInit hdefinition)
    rw [Task.modulePath, hfunc, ← Task.modulePath]
  have hcaller := hpath.trans hmodule
  have hreason : ∀ run, ReasonReadable w run :=
    reasonReadable_of_ne_failed (ne_of_live hopen).2.1
  have hnot : isCompletedWrapper w = false := by
    simp [isCompletedWrapper, (ne_of_live hopen).1]
  have hroutable : Routable p b t.backend t.queueName (callerPath w)
      ↔ (definition.queueName = t.queueName ∧ definition.backend = t.backend)
        ∨ b.admits definition.func definition.priority definition.runAfter
          definition.takesContext = true := by
    rw [hcaller, Routable, himport]
    simp
  have hresult : ∀ hqueue : t.queueName ∈ b.queues,
      (getResult p py b t.backend db (fuel + 1) registry
        (buildResultId p t.queueName spawned.taskId)).1 = describe p t.backend t.queueName s w := by
    intro hqueue
    rw [getResult_succ hreads hqueue, hw]
    simp [hnot]
  rw [hid]
  constructor
  · rintro ⟨result, hread', hstarted⟩
    have hqueue : t.queueName ∈ b.queues := by
      by_contra hqueue
      rw [getResult_of_notMem hqueue] at hread'
      cases hread'
    rw [hresult hqueue] at hread'
    obtain ⟨hroute, -⟩ := (buildTaskResult_isOk_iff hb hqueue
      (decodeResultId_buildResultId _ _ _)).mp ⟨result, hread'⟩
    use hqueue, hroutable.mp hroute
    exact (notStarted_iff_unclaimed hreachable' hmem hwrapper hopen hread').mp hstarted
  · rintro ⟨hqueue, hroute, hunclaimed⟩
    obtain ⟨result, hbuilt⟩ := (buildTaskResult_isOk_iff hb hqueue
      (decodeResultId_buildResultId _ _ _)).mpr ⟨hroutable.mpr hroute, hreason _, hcarried⟩
    use result
    rw [hresult hqueue]
    use hbuilt
    exact (notStarted_iff_unclaimed hreachable' hmem hwrapper hopen hbuilt).mpr hunclaimed

/-! ### A wrapper that is claimed -/

/-- The task `tasks.add`, deferred. -/
def deferredAdd : Task := { addTask .absurdTask "absurd" with runAfter := some ⟨0, true⟩ }

/-- The params of its wrapper. -/
def deferredParams : Json :=
  .obj [("args", .arr []), ("kwargs", .obj [("args", .arr []), ("kwargs", .obj []),
    ("queue", .str "default"), ("options", .obj [("max_attempts", .num ⟨5, 0⟩)]),
    ("due", .str "2026-01-01T00:00:00+00:00")])]

/-- The row of its wrapper. -/
def deferredRow : TaskRow :=
  spawnedTask (.create .unpartitioned) 0 ("tasks.add" ++ deferNameSuffix) deferredParams
    ⟨none, none, some 5, none, none⟩

/-- The queue with the wrapper. -/
def deferredSpawned : QueueState := insertSpawned (.create .unpartitioned) 0 deferredRow

/-- The wrapper is claimed. -/
def deferredClaimed : QueueState :=
  markClaimed 0 "worker" (some (seconds 60)) deferredSpawned (newRun ⟨1⟩ ⟨0⟩ 1 .pending 0 0)

theorem call_deferredAdd :
  ∃ call, enqueueCall addProject plainSdk deferredAdd [] [] = some call
    ∧ call.execute plainPostgres (.create .unpartitioned) 0
      = .ok (deferredSpawned, ⟨⟨0⟩, some ⟨1⟩, 1, true⟩)
  := ⟨_, rfl, rfl⟩

theorem deferredSpawned_reachable :
  Reachable plainPostgres deferredSpawned
  := reachable_iff.mpr ⟨.unpartitioned, [.spawn 0 ("tasks.add" ++ deferNameSuffix) deferredParams
    (.obj [("max_attempts", .num ⟨5, 0⟩)])], rfl⟩

theorem enqueue_deferredAdd :
  ∃ enqueued, deferredAdd.enqueue addProject (spawnOn plainSdk plainPostgres
      (fun _ => .undefinedFunction) (.create .unpartitioned) 0) 0 [] [] = .ok enqueued
    ∧ enqueued.id = buildResultId addProject "default" ⟨0⟩
  := ⟨_, rfl, rfl⟩

theorem derives_deferredAdd :
  Derives addProject.backends (addTask .absurdTask "absurd") deferredAdd
  := .routed ⟨none, none, some ⟨0, true⟩, none⟩ .refl rfl

theorem create_reachable (storage : StorageMode) :
  Reachable plainPostgres (.create storage)
  := reachable_iff.mpr ⟨storage, [], rfl⟩

/-- A wrapper that waits for its first claim. -/
theorem deferred_notStarted_iff_waiting :
  ∃ result, (getResult addProject asciiLower absurdBackend "absurd" (databaseOf deferredSpawned) 1
      [] (buildResultId addProject "default" ⟨0⟩)).1 = .ok result
    ∧ result.NotStarted
  := by
  obtain ⟨call, hcall, hspawn⟩ := call_deferredAdd
  obtain ⟨enqueued, henqueue, hid⟩ := enqueue_deferredAdd
  have hdefinition : (addTask .absurdTask "absurd").postInit addProject.backends
      = .ok (addTask .absurdTask "absurd") := rfl
  have hw : deferredSpawned.tasks.get? ⟨0⟩ = some deferredRow := rfl
  have hrun : (machine plainPostgres).run deferredSpawned [] = some deferredSpawned := rfl
  rw [← hid]
  apply (deferred_notStarted_iff addProject asciiLower plainPostgres plainSdk
    (fun _ => .undefinedFunction) 0 hdefinition rfl derives_deferredAdd rfl rfl
    (create_reachable .unpartitioned) henqueue hcall hspawn rfl hrun hw rfl
    (reads_databaseOf _)).mpr
  refine ⟨by decide, .inl ⟨rfl, rfl⟩, ?_⟩
  constructor
  · decide
  · intro r hr _ hfailed
    obtain rfl := List.mem_singleton.mp hr
    cases hfailed

/-- A wrapper that is claimed: its id gives the result of a task that runs. -/
theorem claim_shows_wrapper :
  ¬ ∀ (p : Project) (py : PythonLower) (pg : Postgres) (sdk : Sdk)
      (raised : EngineError → SpawnError) (written definition t : Task) (b : Backend)
      (due : DateTime) (args : List PyValue) (kwargs : Kwargs) (call : SpawnCall)
      (s₀ s₁ s : QueueState) (now : Time) (spawned : Spawned) (enqueued : TaskResult)
      (ls : List Label) (w : TaskRow) (db : Database) (registry : Registry) (fuel : ℕ),
      written.postInit p.backends = .ok definition →
      p.importString definition.modulePath = some definition →
      Derives p.backends definition t → t.runAfter = some due →
      p.backends t.backend = some b → t.queueName ∈ b.queues →
      definition.queueName = t.queueName → definition.backend = t.backend →
      Reachable pg s₀ →
      t.enqueue p (spawnOn sdk pg raised s₀ now) now args kwargs = .ok enqueued →
      enqueueCall p sdk t args kwargs = some call →
      call.execute pg s₀ now = .ok (s₁, spawned) → spawned.created = true →
      (machine pg).run s₁ ls = some s → s.tasks.get? spawned.taskId = some w →
      w.state.terminal = false → Reads py registry db t.queueName s →
      ∃ result, (getResult p py b t.backend db (fuel + 1) registry enqueued.id).1 = .ok result
        ∧ result.NotStarted
  := by
  intro h
  obtain ⟨call, hcall, hspawn⟩ := call_deferredAdd
  obtain ⟨enqueued, henqueue, hid⟩ := enqueue_deferredAdd
  have hclaim : (machine plainPostgres).run deferredSpawned [.claim 0 "worker" 60 1]
      = some deferredClaimed :=
    Machine.run_cons.mpr ⟨deferredClaimed, step_claim_spawned _ _ rfl rfl, rfl⟩
  have hw : deferredClaimed.tasks.get? ⟨0⟩
      = some ((TaskRow.claim 0 (newRun ⟨1⟩ ⟨0⟩ 1 .pending 0 0)).apply deferredRow) := rfl
  obtain ⟨result, hread, hstarted⟩ := h addProject asciiLower plainPostgres plainSdk
    (fun _ => .undefinedFunction) (addTask .absurdTask "absurd") (addTask .absurdTask "absurd")
    deferredAdd absurdBackend ⟨0, true⟩ [] [] call (.create .unpartitioned) deferredSpawned
    deferredClaimed 0 _ enqueued _ _ (databaseOf deferredClaimed) [] 0 rfl rfl derives_deferredAdd
    rfl rfl (by decide) rfl rfl (create_reachable .unpartitioned) henqueue hcall hspawn rfl hclaim
    hw rfl (reads_databaseOf _)
  have hqueue : "default" ∈ absurdBackend.queues := by decide
  rw [hid, getResult_succ (reads_databaseOf _) hqueue, hw] at hread
  have hnot : isCompletedWrapper
      ((TaskRow.claim 0 (newRun ⟨1⟩ ⟨0⟩ 1 .pending 0 0)).apply deferredRow) = false := by
    simp [isCompletedWrapper]
    intro _
    decide
  simp only [hnot, Bool.false_eq_true, if_false] at hread
  have hreachable : Reachable plainPostgres deferredClaimed :=
    deferredSpawned_reachable.run hclaim
  have hunclaimed := (notStarted_iff_unclaimed hreachable (Keyed.Table.mem_of_get? hw)
    (endsWith_append "tasks.add" deferNameSuffix) rfl hread).mp hstarted
  exact hunclaimed.waiting rfl

end DjangoAbsurd
