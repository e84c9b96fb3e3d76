import DjangoAbsurd.Engine.Attempts
import DjangoAbsurd.Interleaving

/-!
# The attempts a result shows

A result counts the attempts of a task by its workers, and takes the last attempt from its
last run. Both are read from columns the engine rewrites: the count goes back when a started
run is suspended or cancelled, and the last attempt is gone from the moment a task is
attempted again until the new run is claimed.
-/

namespace DjangoAbsurd

open Engine

/-- The count of the workers read is the count of the runs with a worker. -/
theorem length_readWorkerIds (runs : Keyed.Table RunRow.runId) (id : Uuid) :
  (readWorkerIds runs id).length
    = (runs.rows.filter (fun r => r.taskId = id)).countP (fun r => r.claimedBy.isSome)
  := by
  rw [readWorkerIds, List.length_filterMap_eq_countP]
  apply (List.mergeSort_perm _ _).countP_eq

/-- When every started run of a task has a worker, as many workers are read as runs have
started. -/
theorem length_workerIds_of_manned {s : QueueState} {id : Uuid} (h : s.life.Consistent)
    (hmanned : Manned s id) :
  (readWorkerIds s.runs id).length = startedCount s id
  := by
  rw [length_readWorkerIds]
  apply List.countP_congr
  intro r hr
  obtain ⟨hrow, hid⟩ := Lifecycle.mem_runsOf.mp (show r ∈ s.life.runsOf id from hr)
  rw [Option.isSome_iff_ne_none, Option.isSome_iff_ne_none]
  exact ⟨(h.timed hrow).claimed, hmanned r hrow hid⟩

section Reads

variable {p : Project} {py : PythonLower} {b : Backend} {backend queue : String} {db : Database}
  {registry : Registry} {fuel : ℕ} {s : QueueState} {id : Uuid} {t : TaskRow} {result : TaskResult}

/-- The result of a task that is no wrapper has the fields of its row and its last run. -/
theorem fields_of_getResult (hreads : Reads py registry db queue s) (hqueue : queue ∈ b.queues)
    (ht : s.tasks.get? id = some t) (hplain : isDeferredWrapper t = false)
    (hread : (getResult p py b backend db (fuel + 1) registry (buildResultId p queue id)).1
      = .ok result) :
  result.workerIds = readWorkerIds s.runs id ∧ result.startedAt = t.firstStartedAt
    ∧ result.lastAttemptedAt = (t.lastAttemptRun.bind s.runs.get?).bind RunRow.startedAt
  := by
  have hopen : isCompletedWrapper t = false := by simp [isCompletedWrapper, hplain]
  rw [getResult_succ hreads hqueue, ht] at hread
  simp only [hopen, Bool.false_eq_true, if_false] at hread
  obtain ⟨taskObj, errors, call, -, rfl⟩ := fill_of_buildTaskResult hread
  rw [← Keyed.Table.key_of_get? ht]
  refine ⟨rfl, ?_, ?_⟩ <;> simp [fillTaskResult, hplain]

/-- The last run of a task that has one run at most, and its start. -/
theorem lastStart_eq_some (h : RunsOnce id s) (ht : s.tasks.get? id = some t) {started : Time} :
  (t.lastAttemptRun.bind s.runs.get?).bind RunRow.startedAt = some started
    ↔ ∃ r ∈ s.life.runsOf id, r.startedAt = some started
  := by
  have hid := Keyed.Table.key_of_get? ht
  obtain ⟨r, hr, hagrees⟩ := (h.consistent.follows t (Keyed.Table.mem_of_get? ht)).last
  rw [hid] at hr
  obtain ⟨r₁, hr₁⟩ : ∃ r, s.life.runsOf id = [r] := by
    apply List.length_eq_one_iff.mp
    have hpos := List.length_pos_of_mem hr
    have hle := h.single
    omega
  rw [hr₁] at hr ⊢
  obtain rfl := List.mem_singleton.mp hr
  have hrow : r ∈ s.runs.rows := (Lifecycle.mem_runsOf.mp (hr₁ ▸ List.mem_singleton_self r)).1
  rw [bind_get?_eq_some.mpr ⟨hrow, hagrees.last⟩]
  simp

end Reads

/-- What two results of a task, read one after the other, show of its attempts, where `n₁`
and `n₂` runs of it have started by then. -/
structure CountsAttempts (n₁ n₂ : ℕ) (result₁ result₂ : TaskResult) : Prop where
  first : result₁.workerIds.length = n₁
  second : result₂.workerIds.length = n₂
  forward : result₁.workerIds.length ≤ result₂.workerIds.length

/-- A result of a task that has started shows its last attempt, not before its start, and a
later result shows one that is not before it. -/
def ShowsLastAttempt (result₁ result₂ : TaskResult) : Prop :=
  ∀ started, result₁.startedAt = some started →
    ∃ last₁, result₁.lastAttemptedAt = some last₁ ∧ started ≤ last₁
      ∧ ∃ last₂, result₂.lastAttemptedAt = some last₂ ∧ last₁ ≤ last₂

/-- Take two queues, one after the other, that calls lead to, a task that is no wrapper and
is not cleaned up, and a result of it from each queue. If no call leaves a started run of
the task asleep or cancelled, the results have as many workers as runs of the task have
started, and the second no fewer than the first. If the task is attempted once and no claim
reads the clock behind a start of its run, the results show the last attempt, not before the
start of the task, and in the second not before the first. -/
theorem attempts_forward (p : Project) (py : PythonLower) (pg : Postgres) {b : Backend}
    {backend queue : String} {db₁ db₂ : Database} {registry₁ registry₂ : Registry}
    {storage : StorageMode} {s₁ s₂ : QueueState} {ls₁ ls₂ : List Label} {id : Uuid} {t : TaskRow}
    {result₁ result₂ : TaskResult} (fuel₁ fuel₂ : ℕ) (hqueue : queue ∈ b.queues)
    (hrun₁ : (machine pg).run (.create storage) ls₁ = some s₁)
    (hrun₂ : (machine pg).run s₁ ls₂ = some s₂)
    (hspared : (machine pg).Along (fun _ l => Spares id l) (.create storage) (ls₁ ++ ls₂))
    (ht : s₁.tasks.get? id = some t) (hplain : isDeferredWrapper t = false)
    (hreads₁ : Reads py registry₁ db₁ queue s₁) (hreads₂ : Reads py registry₂ db₂ queue s₂)
    (hread₁ : (getResult p py b backend db₁ (fuel₁ + 1) registry₁ (buildResultId p queue id)).1
      = .ok result₁)
    (hread₂ : (getResult p py b backend db₂ (fuel₂ + 1) registry₂ (buildResultId p queue id)).1
      = .ok result₂) :
  ((machine pg).Along (KeepsWorkers pg id) (.create storage) (ls₁ ++ ls₂) →
      CountsAttempts (startedCount s₁ id) (startedCount s₂ id) result₁ result₂)
    ∧ ((machine pg).Along (AttemptsOnce pg id) (.create storage) (ls₁ ++ ls₂) →
      ShowsLastAttempt result₁ result₂)
  := by
  have hconsistent₁ := consistent_of_reachable (reachable_iff.mpr ⟨storage, ls₁, hrun₁⟩)
  have hrun : (machine pg).run (.create storage) (ls₁ ++ ls₂) = some s₂ := by
    rw [Machine.run_append hrun₁, hrun₂]
  have hconsistent₂ := consistent_of_reachable (reachable_iff.mpr ⟨storage, _, hrun⟩)
  obtain ⟨hspared₁, hspared₂⟩ := hspared.append hrun₁
  obtain ⟨t₂, ht₂, hplain₂⟩ : ∃ t₂, s₂.tasks.get? id = some t₂ ∧ isDeferredWrapper t₂ = false := by
    obtain ⟨t₂, ht₂, horigin⟩ := row_run hconsistent₁ ht hspared₂ hrun₂
    obtain ⟨-, hname, -⟩ := TaskRow.eq_of_origin horigin
    use t₂, ht₂
    rw [← hplain, isDeferredWrapper, isDeferredWrapper, hname]
  obtain ⟨hworkers₁, hstarted₁, hlast₁⟩ := fields_of_getResult hreads₁ hqueue ht hplain hread₁
  obtain ⟨hworkers₂, -, hlast₂⟩ := fields_of_getResult hreads₂ hqueue ht₂ hplain₂ hread₂
  constructor
  · intro hkeeps
    have hcount₁ := length_workerIds_of_manned hconsistent₁ (manned_run (hkeeps.append hrun₁).1 hrun₁)
    have hcount₂ := length_workerIds_of_manned hconsistent₂ (manned_run hkeeps hrun)
    rw [← hworkers₁] at hcount₁
    rw [← hworkers₂] at hcount₂
    use hcount₁, hcount₂
    rw [hcount₁, hcount₂]
    exact startedCount_run hconsistent₁ hspared₂ hrun₂
  · intro honce
    obtain ⟨honce₁, honce₂⟩ := honce.append hrun₁
    have honly₁ := (runsOnce_create storage id).run hspared₁ honce₁ hrun₁
    have honly₂ := honly₁.run hspared₂ honce₂ hrun₂
    intro started hstarted
    rw [hstarted₁] at hstarted
    have hrow := Keyed.Table.mem_of_get? ht
    have hid := Keyed.Table.key_of_get? ht
    obtain ⟨r, hr, -⟩ := (hconsistent₁.follows t hrow).last
    rw [hid] at hr
    obtain ⟨last₁, hlast, hle⟩ := honly₁.ordered t hrow hid started hstarted r hr
    use last₁
    rw [hlast₁, hlast₂]
    refine ⟨(lastStart_eq_some honly₁ ht).mpr ⟨r, hr, hlast⟩, hle, ?_⟩
    obtain ⟨r₂, hr₂, last₂, hlast', hle'⟩ :=
      startedSince_run honly₁ hspared₂ honce₂ hrun₂ ⟨r, hr, last₁, hlast, le_rfl⟩
    use last₂
    exact ⟨(lastStart_eq_some honly₂ ht₂).mpr ⟨r₂, hr₂, hlast'⟩, hle'⟩

/-! ### A task that completes, and one that sleeps -/

/-- The queue with the claimed task, which then sleeps. -/
def addSlept : QueueState := markScheduled addClaimed addRun (seconds 60 : Time)

theorem addTask_plain {t : TaskRow} (hname : t.taskName = "tasks.add") :
  isDeferredWrapper t = false
  := by
  rw [← addRunning_plain, isDeferredWrapper, isDeferredWrapper, hname]
  rfl

/-- The task has a result while it has not failed. -/
theorem getResult_add {s : QueueState} {t : TaskRow} (ht : s.tasks.get? ⟨0⟩ = some t)
    (hname : t.taskName = "tasks.add") (hparams : t.params = emptyCall)
    (hstate : t.state ≠ .failed) :
  ∃ result, (getResult addProject asciiLower absurdBackend "absurd" (databaseOf s) 1 []
    (buildResultId addProject "default" ⟨0⟩)).1 = .ok result
  := by
  have hplain := addTask_plain hname
  have hopen : isCompletedWrapper t = false := by simp [isCompletedWrapper, hplain]
  rw [getResult_succ (reads_databaseOf s) (by decide), ht]
  simp only [hopen, Bool.false_eq_true, if_false]
  apply (describe_isOk_iff (b := absurdBackend) rfl (by decide) hplain).mpr
  constructor
  · rw [hname]
    exact ⟨addTask .absurdTask "absurd", rfl, .inl ⟨rfl, rfl⟩⟩
  · apply reasonReadable_of_ne_failed hstate
  · rw [hparams]
    rfl

/-- What holds of the calls that spawn, claim and complete the task holds along them. -/
theorem along_addCompleted {P : QueueState → Label → Prop}
    (hspawn : P (.create .unpartitioned) (.spawn 0 "tasks.add" emptyCall (.obj [])))
    (hclaim : P addSpawned (.claim 0 "worker" 60 1))
    (hcomplete : P addClaimed (.complete 1 ⟨1⟩ none)) :
  (machine plainPostgres).Along P (.create .unpartitioned)
    ([.spawn 0 "tasks.add" emptyCall (.obj []), .claim 0 "worker" 60 1] ++ [.complete 1 ⟨1⟩ none])
  := by
  have hspawned : (machine plainPostgres).step (.create .unpartitioned)
      (.spawn 0 "tasks.add" emptyCall (.obj [])) = some addSpawned := rfl
  have hclaimed : (machine plainPostgres).step addSpawned (.claim 0 "worker" 60 1)
      = some addClaimed := step_claim_spawned _ _ rfl rfl
  have hcompleted : (machine plainPostgres).step addClaimed (.complete 1 ⟨1⟩ none)
      = some addCompleted := rfl
  apply (Machine.along_cons hspawned).mpr
  use hspawn
  apply (Machine.along_cons hclaimed).mpr
  use hclaim
  apply (Machine.along_cons hcompleted).mpr
  exact ⟨hcomplete, trivial⟩

/-- The task is completed between two reads. -/
theorem attempts_forward_completed :
  ∃ result₁ result₂,
    (getResult addProject asciiLower absurdBackend "absurd" (databaseOf addClaimed) 1 []
      (buildResultId addProject "default" ⟨0⟩)).1 = .ok result₁
    ∧ (getResult addProject asciiLower absurdBackend "absurd" (databaseOf addCompleted) 1 []
      (buildResultId addProject "default" ⟨0⟩)).1 = .ok result₂
    ∧ CountsAttempts 1 1 result₁ result₂ ∧ ShowsLastAttempt result₁ result₂
  := by
  obtain ⟨result₁, hread₁⟩ := getResult_add (s := addClaimed) (t := addRunning) rfl rfl rfl
    (by decide)
  obtain ⟨result₂, hread₂⟩ := getResult_add (s := addCompleted)
    (t := (TaskRow.complete ⟨1⟩ none).apply addRunning) rfl rfl rfl (by decide)
  have hrun : (machine plainPostgres).run addClaimed [.complete 1 ⟨1⟩ none] = some addCompleted :=
    rfl
  obtain ⟨hcounts, hshows⟩ := attempts_forward addProject asciiLower plainPostgres 0 0 (by decide)
    run_addClaimed hrun (along_addCompleted trivial trivial trivial) rfl addRunning_plain
    (reads_databaseOf _) (reads_databaseOf _) hread₁ hread₂
  have hclaimed : step plainPostgres addSpawned (.claim 0 "worker" 60 1) = some addClaimed :=
    step_claim_spawned _ _ rfl rfl
  have hspawned : step plainPostgres (.create .unpartitioned)
      (.spawn 0 "tasks.add" emptyCall (.obj [])) = some addSpawned := rfl
  have hcompleted : step plainPostgres addClaimed (.complete 1 ⟨1⟩ none) = some addCompleted := rfl
  refine ⟨result₁, result₂, hread₁, hread₂, ?_, ?_⟩
  · apply hcounts
    apply along_addCompleted
    · intro s hs r hr
      obtain rfl := Option.some.inj (hspawned.symm.trans hs)
      obtain rfl := List.mem_singleton.mp hr
      exact fun _ hstarted => absurd rfl hstarted
    · intro s hs r hr _ _
      obtain rfl := Option.some.inj (hclaimed.symm.trans hs)
      obtain rfl := List.mem_singleton.mp hr
      constructor <;> decide
    · intro s hs r hr _ _
      obtain rfl := Option.some.inj (hcompleted.symm.trans hs)
      obtain rfl := List.mem_singleton.mp hr
      constructor <;> decide
  · apply hshows
    apply along_addCompleted
    · constructor
      · intro s hs
        obtain rfl := Option.some.inj (hspawned.symm.trans hs)
        decide
      · intro _ _ _ _ hl
        cases hl
    · constructor
      · intro s hs
        obtain rfl := Option.some.inj (hclaimed.symm.trans hs)
        decide
      · intro _ _ _ _ _ r hr _ started hstarted
        obtain rfl := List.mem_singleton.mp hr
        cases hstarted
    · constructor
      · intro s hs
        obtain rfl := Option.some.inj (hcompleted.symm.trans hs)
        decide
      · intro _ _ _ _ hl
        cases hl

/-- A task that sleeps after its first start has lost its worker: its result counts no
attempt. -/
theorem suspension_drops_attempt :
  ¬ ∀ (p : Project) (py : PythonLower) (pg : Postgres) (b : Backend) (backend queue : String)
      (db : Database) (registry : Registry) (storage : StorageMode) (s : QueueState)
      (ls : List Label) (id : Uuid) (t : TaskRow) (result : TaskResult) (fuel : ℕ),
      queue ∈ b.queues → (machine pg).run (.create storage) ls = some s →
      (machine pg).Along (fun _ l => Spares id l) (.create storage) ls →
      s.tasks.get? id = some t → isDeferredWrapper t = false → Reads py registry db queue s →
      (getResult p py b backend db (fuel + 1) registry (buildResultId p queue id)).1 = .ok result →
      result.workerIds.length = startedCount s id
  := by
  intro h
  have hrun : (machine plainPostgres).run (.create .unpartitioned)
      ([.spawn 0 "tasks.add" emptyCall (.obj []), .claim 0 "worker" 60 1]
        ++ [.schedule ⟨1⟩ (seconds 60 : Time)]) = some addSlept := by
    rw [Machine.run_append run_addClaimed]
    rfl
  have hspared : (machine plainPostgres).Along (fun _ l => Spares ⟨0⟩ l) (.create .unpartitioned)
      ([.spawn 0 "tasks.add" emptyCall (.obj []), .claim 0 "worker" 60 1]
        ++ [.schedule ⟨1⟩ (seconds 60 : Time)]) := by
    apply Machine.along_of_forall
    intro _ l hl
    simp only [List.cons_append, List.nil_append, List.mem_cons, List.not_mem_nil, or_false] at hl
    rcases hl with rfl | rfl | rfl
    all_goals trivial
  have hrow : addSlept.tasks.get? ⟨0⟩ = some ((TaskRow.withState .sleeping).apply addRunning) := rfl
  obtain ⟨result, hread⟩ := getResult_add hrow rfl rfl (by decide)
  have hplain := addTask_plain (t := (TaskRow.withState .sleeping).apply addRunning) rfl
  have hcount := h addProject asciiLower plainPostgres absurdBackend "absurd" "default"
    (databaseOf addSlept) [] .unpartitioned addSlept _ ⟨0⟩ _ result 0 (by decide) hrun hspared hrow
    hplain (reads_databaseOf _) hread
  obtain ⟨hworkers, -⟩ := fields_of_getResult (reads_databaseOf addSlept) (by decide) hrow hplain
    hread
  rw [hworkers, readWorkerIds_singleton (r := (RunRow.sleep (seconds 60 : Time)).apply addRun) rfl]
    at hcount
  cases hcount

end DjangoAbsurd
