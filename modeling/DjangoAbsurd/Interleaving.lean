import DjangoAbsurd.Engine.History
import DjangoAbsurd.Results

/-!
# Reading a task in three reads

`fetch_task_and_run` reads the row of a task, then its last run, then its workers, each in a
transaction of its own, so the engine may step in between. What is built from the reads
mixes the moments: a run that ends after the first read gives a result that is finished and
still running.

The reads go together exactly when the task's last run, as the second read finds it, is
where the row of the task left it (`Undisturbed`).
-/

namespace DjangoAbsurd

open Engine

/-- The reads of `fetch_task_and_run`, each of the queue as it is at that moment. -/
def readInterleaved (ids : UuidText) (s₁ s₂ s₃ : QueueState) (taskId resultId : String) :
    Except ResultError (TaskRow × Option RunRow × List String) :=
  match ids.parse taskId with
  | none => .error (.validationError taskId)
  | some id =>
      match s₁.tasks.get? id with
      | none => .error (.taskResultDoesNotExist resultId)
      | some task => .ok (task, task.lastAttemptRun.bind s₂.runs.get?, readWorkerIds s₃.runs id)

/-- Reads with nothing in between are the reads of one queue. -/
theorem readInterleaved_self (ids : UuidText) (s : QueueState) (taskId resultId : String) :
  readInterleaved ids s s s taskId resultId
    = readTaskAndRun ids (some s.tasks) (some s.runs) taskId resultId
  := by
  rw [readInterleaved, readTaskAndRun]
  cases ids.parse taskId with
  | none => rfl
  | some id =>
      cases h : s.tasks.get? id <;> simp [h]

/-- What is read is the row of a task, and the run it names. -/
theorem readInterleaved_eq_ok {ids : UuidText} {s₁ s₂ s₃ : QueueState} {taskId resultId : String}
    {task : TaskRow} {run : Option RunRow} {workerIds : List String}
    (h : readInterleaved ids s₁ s₂ s₃ taskId resultId = .ok (task, run, workerIds)) :
  task ∈ s₁.tasks.rows ∧ run = task.lastAttemptRun.bind s₂.runs.get?
  := by
  rw [readInterleaved] at h
  split at h
  · cases h
  · split at h
    · cases h
    · rename_i ht
      obtain ⟨rfl, rfl, rfl⟩ := by simpa using h
      exact ⟨Keyed.Table.mem_of_get? ht, rfl⟩

/-- The fields of a result go together. -/
structure TaskResult.Coherent (result : TaskResult) : Prop where
  finished : result.finishedAt ≠ none ↔ result.status = .successful ∨ result.status = .failed
  returned : result.returnValue ≠ none ↔ result.status = .successful
  errors : result.errors ≠ [] → result.status = .failed
  attempted : result.lastAttemptedAt ≠ none → result.startedAt ≠ none

/-- The queue of the second read has the last run of a task where the row of the task left
it: the run of a task that was not terminal has neither completed nor failed, the run of one
that completed or failed was not cleaned up, and the run of one that had not started has
not started. -/
structure Undisturbed (s : QueueState) (t : TaskRow) : Prop where
  live : t.state.terminal = false →
    ∀ r ∈ s.runs.rows, t.lastAttemptRun = some r.runId → r.state ≠ .completed ∧ r.state ≠ .failed
  ended : t.state = .completed ∨ t.state = .failed →
    ∃ r ∈ s.runs.rows, t.lastAttemptRun = some r.runId
  waiting : isDeferredWrapper t = false → t.firstStartedAt = none →
    ∀ r ∈ s.runs.rows, t.lastAttemptRun = some r.runId → r.startedAt = none

/-! ### The fields of a result -/

theorem status_eq_successful_iff (deferred : Bool) (state : TaskState) :
  readStatus deferred state = .successful ↔ state = .completed
  := by
  cases deferred <;> cases state <;> simp [readStatus, mapStateToStatus]

theorem status_eq_failed_iff (deferred : Bool) (state : TaskState) :
  readStatus deferred state = .failed ↔ state = .failed ∨ state = .cancelled
  := by
  cases deferred <;> cases state <;> simp [readStatus, mapStateToStatus]

/-- Only a failed task has errors. -/
theorem state_of_readErrors {state : TaskState} {reason : Option Json}
    {errors : List ResultFailure} (h : readErrors state reason = .ok errors) (hne : errors ≠ []) :
  state = .failed
  := by
  rw [readErrors] at h
  split at h
  · rename_i hfailed
    exact hfailed.1
  · exact absurd (Except.ok.inj h).symm hne

/-- The run a task names, in a table. -/
theorem bind_get?_eq_some {t : TaskRow} {runs : Keyed.Table RunRow.runId} {r : RunRow} :
  t.lastAttemptRun.bind runs.get? = some r ↔ r ∈ runs.rows ∧ t.lastAttemptRun = some r.runId
  := by
  rw [Option.bind_eq_some_iff]
  constructor
  · rintro ⟨id, hid, hr⟩
    obtain rfl := Keyed.Table.key_of_get? hr
    exact ⟨Keyed.Table.mem_of_get? hr, hid⟩
  · rintro ⟨hr, hid⟩
    exact ⟨r.runId, hid, Keyed.Table.get?_of_mem hr⟩

/-! ### When the reads go together -/

section Reads

variable {pg : Postgres} {s₁ s₂ : QueueState} {ls : List Label} {t : TaskRow}

/-- A run has an end exactly when it has completed or failed. -/
theorem ended_iff {s : QueueState} (h : s.life.Consistent) {r : RunRow} (hr : r ∈ s.runs.rows) :
  r.completedAt.or r.failedAt ≠ none ↔ r.state = .completed ∨ r.state = .failed
  := by
  obtain ⟨t, ht, hid⟩ := h.owned r hr
  have htimed := (h.follows t ht).timed r (Lifecycle.mem_runsOf.mpr ⟨hr, hid.symm⟩)
  rw [← htimed.completed, ← htimed.failed, ne_eq, Option.or_eq_none_iff, not_and_or]

/-- The last run of a completed or failed task has ended as long as it is there. -/
theorem ended_of_settled (hreachable : Reachable pg s₁)
    (hrun : (machine pg).run s₁ ls = some s₂) (ht : t ∈ s₁.tasks.rows)
    (hsettled : t.state = .completed ∨ t.state = .failed) {r : RunRow} (hr : r ∈ s₂.runs.rows)
    (hlast : t.lastAttemptRun = some r.runId) :
  r.state = .completed ∨ r.state = .failed
  := by
  have hconsistent := consistent_of_reachable hreachable
  obtain ⟨cs, hcs, -⟩ := refines_run hrun
  obtain ⟨r₁, hr₁, hagrees⟩ := (hconsistent.follows t ht).last
  have hsame : r.runId = r₁.runId := Option.some.inj (hlast.symm.trans hagrees.last)
  have hterminal : t.state.terminal = true := by
    rcases hsettled with hstate | hstate
    all_goals
      rw [hstate]
      rfl
  have hended : ¬ r₁.Active := by
    intro ha
    rw [hagrees.live.mpr ha] at hterminal
    cases hterminal
  obtain ⟨hstate, -⟩ := ended_run hconsistent (Lifecycle.mem_runsOf.mp hr₁).1 hended hcs r hr hsame
  rw [hstate]
  rcases hsettled with hcompleted | hfailed
  · exact .inl (hagrees.completed.mp hcompleted)
  · exact .inr (hagrees.failed hfailed)

/-- The end a result shows is set exactly for a terminal task, and this holds exactly when
the last run is where the row of the task left it. -/
theorem finished_iff (hreachable : Reachable pg s₁) (hrun : (machine pg).run s₁ ls = some s₂)
    (ht : t ∈ s₁.tasks.rows) {run : Option RunRow}
    (hread : run = t.lastAttemptRun.bind s₂.runs.get?) :
  (((run.bind RunRow.completedAt).or (run.bind RunRow.failedAt)).or t.cancelledAt ≠ none
      ↔ t.state = .completed ∨ t.state = .failed ∨ t.state = .cancelled)
    ↔ (t.state.terminal = false → ∀ r ∈ s₂.runs.rows, t.lastAttemptRun = some r.runId →
        r.state ≠ .completed ∧ r.state ≠ .failed)
      ∧ (t.state = .completed ∨ t.state = .failed →
        ∃ r ∈ s₂.runs.rows, t.lastAttemptRun = some r.runId)
  := by
  have hconsistent := consistent_of_reachable (hreachable.run hrun)
  have hcancelled : t.cancelledAt ≠ none ↔ t.state = .cancelled := by
    obtain ⟨r, -, hagrees⟩ := ((consistent_of_reachable hreachable).follows t ht).last
    exact hagrees.cancelled
  have hended : (run.bind RunRow.completedAt).or (run.bind RunRow.failedAt) ≠ none
      ↔ ∃ r ∈ s₂.runs.rows, t.lastAttemptRun = some r.runId
        ∧ (r.state = .completed ∨ r.state = .failed) := by
    constructor
    · intro hne
      cases hrow : run with
      | none =>
          rw [hrow] at hne
          exact absurd rfl hne
      | some r =>
          rw [hrow] at hne
          obtain ⟨hr, hlast⟩ := bind_get?_eq_some.mp (hread.symm.trans hrow)
          exact ⟨r, hr, hlast, (ended_iff hconsistent hr).mp hne⟩
    · rintro ⟨r, hr, hlast, hstate⟩
      rw [hread.trans (bind_get?_eq_some.mpr ⟨hr, hlast⟩)]
      exact (ended_iff hconsistent hr).mpr hstate
  have hsettled : t.state = .completed ∨ t.state = .failed →
      ∀ r ∈ s₂.runs.rows, t.lastAttemptRun = some r.runId →
        r.state = .completed ∨ r.state = .failed := fun hstate r hr hlast =>
    ended_of_settled hreachable hrun ht hstate hr hlast
  rw [ne_eq, Option.or_eq_none_iff, not_and_or, ← ne_eq, ← ne_eq, hended, hcancelled]
  constructor
  · intro hfinished
    constructor
    · intro hlive r hr hlast
      obtain ⟨hc, hf, hx⟩ := ne_of_live hlive
      constructor
      · intro hcompleted
        have hend := hfinished.mp (.inl ⟨r, hr, hlast, .inl hcompleted⟩)
        simp [hc, hf, hx] at hend
      · intro hfailed
        have hend := hfinished.mp (.inl ⟨r, hr, hlast, .inr hfailed⟩)
        simp [hc, hf, hx] at hend
    · intro hstate
      rcases hfinished.mpr (or_assoc.mp (.inl hstate)) with ⟨r, hr, hlast, -⟩ | hx
      · exact ⟨r, hr, hlast⟩
      · rw [hx] at hstate
        rcases hstate with hstate | hstate <;> cases hstate
  · rintro ⟨hopen, hthere⟩
    constructor
    · rintro (⟨r, hr, hlast, hstate⟩ | hx)
      · by_contra hlive
        have hterminal : t.state.terminal = false := by
          cases hstate' : t.state <;> simp_all [TaskState.terminal]
        obtain ⟨hc, hf⟩ := hopen hterminal r hr hlast
        exact hstate.elim hc hf
      · exact .inr (.inr hx)
    · intro hstate
      rcases or_assoc.mpr hstate with hstate | hx
      · obtain ⟨r, hr, hlast⟩ := hthere hstate
        exact .inl ⟨r, hr, hlast, hsettled hstate r hr hlast⟩
      · exact .inr hx

/-- A result shows no last attempt of a task that has not started exactly when the last run
has not started either. -/
theorem attempted_iff {run : Option RunRow} (hread : run = t.lastAttemptRun.bind s₂.runs.get?) :
  ((if isDeferredWrapper t then none else run.bind RunRow.startedAt) ≠ none →
      (if isDeferredWrapper t then none else t.firstStartedAt) ≠ none)
    ↔ (isDeferredWrapper t = false → t.firstStartedAt = none →
        ∀ r ∈ s₂.runs.rows, t.lastAttemptRun = some r.runId → r.startedAt = none)
  := by
  cases isDeferredWrapper t with
  | true => simp
  | false =>
      simp only [Bool.false_eq_true, if_false, true_implies]
      constructor
      · intro h hwaiting r hr hlast
        by_contra hstarted
        apply h _ hwaiting
        rwa [hread, bind_get?_eq_some.mpr ⟨hr, hlast⟩]
      · intro h hattempted hwaiting
        apply hattempted
        cases hrow : run with
        | none => rfl
        | some r =>
            obtain ⟨hr, hlast⟩ := bind_get?_eq_some.mp (hread.symm.trans hrow)
            exact h hwaiting r hr hlast

/-- Take a reachable queue, any calls after it, and a result built from the row of a task in
the first queue and its last run in the second. Its fields go together exactly when the
second queue has the last run where the row of the task left it. -/
theorem coherent_iff_undisturbed (p : Project) {pg : Postgres}
    {backend taskId resultId : String} {s₁ s₂ s₃ : QueueState} {ls : List Label} {task : TaskRow}
    {run : Option RunRow} {workerIds : List String} {result : TaskResult}
    (hreachable : Reachable pg s₁) (hrun : (machine pg).run s₁ ls = some s₂)
    (hread : readInterleaved p.ids s₁ s₂ s₃ taskId resultId = .ok (task, run, workerIds))
    (hbuilt : buildTaskResult p backend resultId task run workerIds = .ok result) :
  result.Coherent ↔ Undisturbed s₂ task
  := by
  obtain ⟨ht, hrow⟩ := readInterleaved_eq_ok hread
  obtain ⟨taskObj, errors, call, herrors, rfl⟩ := fill_of_buildTaskResult hbuilt
  have hfinished := finished_iff hreachable hrun ht hrow
  have hattempted := attempted_iff (t := task) hrow
  have hstatus : readStatus (isDeferredWrapper task) task.state = .successful
      ∨ readStatus (isDeferredWrapper task) task.state = .failed
      ↔ task.state = .completed ∨ task.state = .failed ∨ task.state = .cancelled := by
    rw [status_eq_successful_iff, status_eq_failed_iff]
  constructor
  · intro h
    obtain ⟨hlive, hended⟩ := hfinished.mp (h.finished.trans hstatus)
    exact ⟨hlive, hended, hattempted.mp h.attempted⟩
  · intro h
    constructor
    · exact (hfinished.mpr ⟨h.live, h.ended⟩).trans hstatus.symm
    · rw [fillTaskResult, status_eq_successful_iff]
      split <;> simp_all
    · intro hne
      rw [fillTaskResult, status_eq_failed_iff]
      exact .inl (state_of_readErrors herrors hne)
    · exact hattempted.mpr h.waiting

/-- A task read with nothing in between is read as it is. -/
theorem undisturbed_self (hreachable : Reachable pg s₁) (ht : t ∈ s₁.tasks.rows) :
  Undisturbed s₁ t
  := by
  have hfollows := (consistent_of_reachable hreachable).follows t ht
  obtain ⟨r₁, hr₁, hagrees⟩ := hfollows.last
  have hlast : ∀ r ∈ s₁.runs.rows, t.lastAttemptRun = some r.runId → r = r₁ := by
    intro r hr hid
    apply Keyed.Table.eq_of_key_eq hr (Lifecycle.mem_runsOf.mp hr₁).1
    exact Option.some.inj (hid.symm.trans hagrees.last)
  constructor
  · intro hlive r hr hid
    rw [hlast r hr hid]
    obtain ⟨hcompleted, hfailed, -⟩ := ne_of_live (hagrees.live.mp hlive)
    exact ⟨hcompleted, hfailed⟩
  · intro _
    exact ⟨r₁, (Lifecycle.mem_runsOf.mp hr₁).1, hagrees.last⟩
  · intro _ hwaiting r hr hid
    rw [hlast r hr hid]
    by_contra hstarted
    exact hfollows.started.mpr ⟨r₁, hr₁, hstarted⟩ hwaiting

end Reads

/-! ### A task that is completed between two reads -/

/-- The row of a task that calls `tasks.add`. -/
def addRow : TaskRow :=
  spawnedTask (.create .unpartitioned) 0 "tasks.add" emptyCall ⟨none, none, none, none, none⟩

/-- The queue with the task. -/
def addSpawned : QueueState := insertSpawned (.create .unpartitioned) 0 addRow

/-- The run of the task, claimed. -/
def addRun : RunRow :=
  (RunRow.claim 0 "worker" (some (seconds 60))).apply (newRun ⟨1⟩ ⟨0⟩ 1 .pending 0 0)

/-- The task is claimed. -/
def addClaimed : QueueState :=
  markClaimed 0 "worker" (some (seconds 60)) addSpawned (newRun ⟨1⟩ ⟨0⟩ 1 .pending 0 0)

/-- The task is completed. -/
def addCompleted : QueueState := markCompleted addClaimed 1 addRun none

theorem run_addClaimed :
  (machine plainPostgres).run (.create .unpartitioned)
    [.spawn 0 "tasks.add" emptyCall (.obj []), .claim 0 "worker" 60 1] = some addClaimed
  := by
  apply Machine.run_cons.mpr
  refine ⟨addSpawned, rfl, Machine.run_cons.mpr ⟨addClaimed, ?_, rfl⟩⟩
  exact step_claim_spawned _ _ rfl rfl

theorem addClaimed_reachable :
  Reachable plainPostgres addClaimed
  := reachable_iff.mpr ⟨_, _, run_addClaimed⟩

/-- The row of the task while it runs. -/
def addRunning : TaskRow := (TaskRow.claim 0 (newRun ⟨1⟩ ⟨0⟩ 1 .pending 0 0)).apply addRow

theorem addRunning_plain :
  isDeferredWrapper addRunning = false
  := targetRow_plain

/-- The result of the task can be built, whatever its run and its workers. -/
theorem build_addRunning (run : Option RunRow) (workerIds : List String) :
  ∃ result, buildTaskResult addProject "absurd" (buildResultId addProject "default" ⟨0⟩) addRunning
    run workerIds = .ok result
  := by
  have hpath : callerPath addRunning = "tasks.add" := by simp [callerPath, addRunning_plain]; rfl
  have hcall : callerCall addRunning = readCall emptyCall := by
    simp [callerCall, addRunning_plain]
    rfl
  apply (buildTaskResult_isOk_iff (b := absurdBackend) rfl (by decide)
    (decodeResultId_buildResultId _ _ _)).mpr
  rw [hpath, hcall]
  exact ⟨⟨addTask .absurdTask "absurd", rfl, .inl ⟨rfl, rfl⟩⟩,
    reasonReadable_of_ne_failed (by decide) run, rfl⟩

/-- The worker of the only run of a task. -/
theorem readWorkerIds_singleton {runs : Keyed.Table RunRow.runId} {id : Uuid} {r : RunRow}
    (h : runs.rows.filter (fun r => r.taskId = id) = [r]) :
  readWorkerIds runs id = r.claimedBy.toList
  := by
  rw [readWorkerIds, h, List.mergeSort_singleton]
  cases hworker : r.claimedBy <;> simp [hworker]

/-- The claimed task is read with nothing in between. -/
theorem coherent_iff_undisturbed_self :
  ∃ result, buildTaskResult addProject "absurd" (buildResultId addProject "default" ⟨0⟩) addRunning
      (some addRun) ["worker"] = .ok result
    ∧ result.Coherent
  := by
  obtain ⟨result, hbuilt⟩ := build_addRunning (some addRun) ["worker"]
  have hworkers : readWorkerIds addClaimed.runs ⟨0⟩ = ["worker"] :=
    readWorkerIds_singleton (r := addRun) rfl
  have hread : readInterleaved addProject.ids addClaimed addClaimed addClaimed ""
      (buildResultId addProject "default" ⟨0⟩)
      = .ok (addRunning, some addRun, ["worker"]) := by
    rw [← hworkers]
    rfl
  have hrun : (machine plainPostgres).run addClaimed [] = some addClaimed := rfl
  use result, hbuilt
  apply (coherent_iff_undisturbed addProject addClaimed_reachable hrun hread hbuilt).mpr
  exact undisturbed_self addClaimed_reachable (List.mem_singleton_self _)

/-- The run completes after the row of its task is read: the result is finished and still
running. -/
theorem completion_tears_result :
  ¬ ∀ (p : Project) (pg : Postgres) (backend taskId resultId : String) (s₁ s₂ s₃ : QueueState)
      (ls ls' : List Label) (task : TaskRow) (run : Option RunRow) (workerIds : List String)
      (result : TaskResult),
      Reachable pg s₁ → (machine pg).run s₁ ls = some s₂ → (machine pg).run s₂ ls' = some s₃ →
      readInterleaved p.ids s₁ s₂ s₃ taskId resultId = .ok (task, run, workerIds) →
      buildTaskResult p backend resultId task run workerIds = .ok result → result.Coherent
  := by
  intro h
  obtain ⟨result, hbuilt⟩ := build_addRunning (some ((RunRow.complete 1 none).apply addRun))
    ["worker"]
  have hworkers : readWorkerIds addCompleted.runs ⟨0⟩ = ["worker"] :=
    readWorkerIds_singleton (r := (RunRow.complete 1 none).apply addRun) rfl
  have hread : readInterleaved addProject.ids addClaimed addCompleted addCompleted ""
      (buildResultId addProject "default" ⟨0⟩)
      = .ok (addRunning, some ((RunRow.complete 1 none).apply addRun), ["worker"]) := by
    rw [← hworkers]
    rfl
  have hcoherent := h addProject plainPostgres "absurd" "" _ addClaimed addCompleted addCompleted
    [.complete 1 ⟨1⟩ none] [] _ _ _ result addClaimed_reachable rfl rfl hread hbuilt
  obtain ⟨taskObj, errors, call, -, rfl⟩ := fill_of_buildTaskResult hbuilt
  have hstatus := hcoherent.finished.mp (Option.some_ne_none (1 : Time))
  rw [fillTaskResult, addRunning_plain] at hstatus
  rcases hstatus with hstatus | hstatus <;> cases hstatus

end DjangoAbsurd
