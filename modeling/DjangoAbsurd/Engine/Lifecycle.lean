import DjangoAbsurd.Engine.Evolution

/-!
# The life of tasks and runs

What the SQL functions do to the tasks and the runs of a queue comes down to a few changes:
a task is spawned, a run is claimed, parked, completed or failed, and so on. A `Lifecycle`
is what these changes are about, the tables of the tasks and the runs with the keys, and
`lifecycle` is the machine of the changes. Every call of a SQL function is a run of it.

A change says what has to hold before it and what it makes of the tables; what holds of
every queue is proved here once for every change.
-/

namespace DjangoAbsurd.Engine

/-- The tables the life of a task is written in. -/
structure Lifecycle where
  storage : StorageMode
  tasks : Keyed.Table TaskRow.taskId
  runs : Keyed.Table RunRow.runId
  keys : Keyed.Table IdempotencyRow.idempotencyKey
  drawn : ℕ

/-- The lifecycle of a queue. -/
def QueueState.life (s : QueueState) : Lifecycle where
  storage := s.storage
  tasks := s.tasks
  runs := s.runs
  keys := s.keys
  drawn := s.drawn

namespace Lifecycle

/-- The lifecycle of a queue with no tasks. -/
def create (storage : StorageMode) : Lifecycle := (QueueState.create storage).life

/-- The task of a key. -/
def owner (k : Lifecycle) (key : String) : Option Uuid :=
  match k.storage with
  | .unpartitioned =>
      (k.tasks.rows.find? (fun t => t.idempotencyKey = some key)).map TaskRow.taskId
  | .partitioned => (k.keys.get? key).map IdempotencyRow.taskId

/-- An edit of one task. -/
def updateTask (k : Lifecycle) (id : Uuid) (e : Keyed.Edit TaskRow.taskId) : Lifecycle :=
  { k with tasks := k.tasks.update (fun t => t.taskId = id) e }

/-- An edit of the runs satisfying a predicate. -/
def updateRuns (k : Lifecycle) (p : RunRow → Bool) (e : RunEdit) : Lifecycle :=
  { k with runs := k.runs.update p e.toEdit }

/-- An edit of one run. -/
def updateRun (k : Lifecycle) (id : Uuid) (e : RunEdit) : Lifecycle :=
  k.updateRuns (fun r => r.runId = id) e

/-- A new run. -/
def insertRun (k : Lifecycle) (r : RunRow) : Lifecycle := { k with runs := k.runs.put r }

/-- A new task, under its key, and its first run. -/
def insertTask (k : Lifecycle) (now : Time) (t : TaskRow) : Lifecycle :=
  { k with
    drawn := k.drawn + 2
    keys :=
      match k.storage, t.idempotencyKey with
      | .partitioned, some key => k.keys.put { idempotencyKey := key, taskId := t.taskId }
      | _, _ => k.keys
    tasks := k.tasks.put t
    runs := k.runs.put (newRun ⟨t.taskId.index + 1⟩ t.taskId 1 .pending now now) }

/-- The tasks of a batch are gone with their runs and keys. -/
def delete (k : Lifecycle) (batch : List Uuid) : Lifecycle :=
  { k with
    tasks := k.tasks.delete (fun t => t.taskId ∈ batch)
    runs := k.runs.delete (fun r => r.taskId ∈ batch)
    keys := k.keys.delete (fun key => k.storage = .partitioned ∧ key.taskId ∈ batch) }

end Lifecycle

/-! ### Edits of a run -/

/-- When a run started, completed and failed. -/
def RunRow.times (r : RunRow) : Option Time × Option Time × Option Time :=
  (r.startedAt, r.completedAt, r.failedAt)

/-- The edit puts a run to sleep and takes it from its worker. -/
structure RunEdit.Parks (e : RunEdit) : Prop where
  state : ∀ r, (e.apply r).state = .sleeping
  claimedBy : ∀ r, (e.apply r).claimedBy = none
  times : ∀ r, (e.apply r).times = r.times

/-- The edit leaves the state, the worker and the times of a run as they are. -/
structure RunEdit.Keeps (e : RunEdit) : Prop where
  state : ∀ r, (e.apply r).state = r.state
  claimedBy : ∀ r, (e.apply r).claimedBy = r.claimedBy
  times : ∀ r, (e.apply r).times = r.times

theorem parks_sleep (wakeAt : WithTop Time) :
  (RunRow.sleep wakeAt).Parks
  := ⟨fun _ => rfl, fun _ => rfl, fun _ => rfl⟩

theorem parks_wait (eventName : String) (timeoutAt : Option Time) :
  (RunRow.wait eventName timeoutAt).Parks
  := ⟨fun _ => rfl, fun _ => rfl, fun _ => rfl⟩

theorem keeps_clearPayload : RunRow.clearPayload.Keeps :=
  ⟨fun _ => rfl, fun _ => rfl, fun _ => rfl⟩

theorem keeps_clearWakeEvent : RunRow.clearWakeEvent.Keeps :=
  ⟨fun _ => rfl, fun _ => rfl, fun _ => rfl⟩

theorem keeps_extendClaim (claimUntil : Time) :
  (RunRow.extendClaim claimUntil).Keeps
  := by
  constructor
  all_goals
    intro r
    simp only [RunRow.extendClaim]
    split <;> rfl

/-- The edit leaves the attempt of a run as it is. -/
def RunEdit.KeepsAttempt (e : RunEdit) : Prop := ∀ r, (e.apply r).attempt = r.attempt

theorem keepsAttempt_extendClaim (claimUntil : Time) :
  (RunRow.extendClaim claimUntil).KeepsAttempt
  := by
  intro r
  simp only [RunRow.extendClaim]
  split <;> rfl

/-- The edit leaves the moment the claim of a run expires as it is. -/
def RunEdit.KeepsClaim (e : RunEdit) : Prop := ∀ r, (e.apply r).claimExpiresAt = r.claimExpiresAt

/-! ### Changes -/

/-- The changes of a lifecycle. -/
inductive Change where
  | draw (drawn : ℕ)
  | spawn (now : Time) (t : TaskRow)
  | claim (now : Time) (worker : String) (claimUntil : Option Time) (r : RunRow)
  | park (r : RunRow) (e : RunEdit)
  | wakeRun (now : Time) (payload : Json) (r : RunRow)
  | wakeTask (id : Uuid)
  | adjust (r : RunRow) (e : RunEdit)
  | complete (now : Time) (r : RunRow) (payload : Option Json)
  | failForGood (now : Time) (r : RunRow) (reason : Json)
  | failCancelled (now : Time) (r : RunRow) (reason : Json)
  | failRetried (now : Time) (r : RunRow) (reason : Json) (available : Time)
  | cancel (now : Time) (id : Uuid)
  | retry (now : Time) (t : TaskRow) (maxAttempts : ℤ)
  | delete (batch : List Uuid)

/-- A task as it is spawned: its id and the id of its run are the next ones, it is pending
and has not started. -/
structure TaskRow.Fresh (t : TaskRow) (drawn : ℕ) : Prop where
  taskId : t.taskId = ⟨drawn⟩
  lastAttemptRun : t.lastAttemptRun = some ⟨drawn + 1⟩
  state : t.state = .pending
  firstStartedAt : t.firstStartedAt = none
  cancelledAt : t.cancelledAt = none

/-- The state of a task that is attempted again. -/
def retriedState (now available : Time) : TaskState :=
  if now < available then .sleeping else .pending

namespace Change

/-- What has to hold before a change. -/
def Allowed (k : Lifecycle) : Change → Prop
  | .draw drawn => k.drawn ≤ drawn
  | .spawn _ t => t.Fresh k.drawn ∧ ∀ key, t.idempotencyKey = some key → k.owner key = none
  | .claim _ _ _ r => r ∈ k.runs.rows ∧ (r.state = .pending ∨ r.state = .sleeping)
  | .park r e => r ∈ k.runs.rows ∧ r.state = .running ∧ e.Parks
  | .wakeRun _ _ r => r ∈ k.runs.rows ∧ (r.state = .pending ∨ r.state = .sleeping)
  | .wakeTask id => ∃ r ∈ k.runs.rows, r.taskId = id ∧ r.state = .pending
  | .adjust r e => r ∈ k.runs.rows ∧ e.Keeps
  | .complete _ r _ => r ∈ k.runs.rows ∧ r.state = .running
  | .failForGood _ r _ | .failCancelled _ r _ | .failRetried _ r _ _ =>
      r ∈ k.runs.rows ∧ (r.state = .running ∨ r.state = .sleeping)
  | .cancel _ id => ∃ t ∈ k.tasks.rows, t.taskId = id ∧ t.state.terminal = false
  | .retry _ t _ => t ∈ k.tasks.rows ∧ t.state = .failed
  | .delete _ => True

/-- What a change makes of a lifecycle. -/
def apply (k : Lifecycle) : Change → Lifecycle
  | .draw drawn => { k with drawn }
  | .spawn now t => k.insertTask now t
  | .claim now worker claimUntil r =>
      (k.updateRun r.runId (RunRow.claim now worker claimUntil)).updateTask r.taskId
        (TaskRow.claim now r)
  | .park r e => (k.updateRun r.runId e).updateTask r.taskId (TaskRow.withState .sleeping)
  | .wakeRun now payload r => k.updateRun r.runId (RunRow.wake now payload)
  | .wakeTask id => k.updateTask id (TaskRow.withState .pending)
  | .adjust r e => k.updateRun r.runId e
  | .complete now r payload =>
      (k.updateRun r.runId (RunRow.complete now payload)).updateTask r.taskId
        (TaskRow.complete r.runId payload)
  | .failForGood now r reason =>
      (k.updateRun r.runId (RunRow.fail now reason)).updateTask r.taskId
        (TaskRow.settle .failed r.attempt r.runId none)
  | .failCancelled now r reason =>
      (k.updateRun r.runId (RunRow.fail now reason)).updateTask r.taskId
        (TaskRow.settle .cancelled r.attempt r.runId (some now))
  | .failRetried now r reason available =>
      let k' := (k.updateRun r.runId (RunRow.fail now reason)).updateTask r.taskId
        (TaskRow.settle (retriedState now available) (r.attempt + 1) ⟨k.drawn⟩ none)
      { k' with drawn := k.drawn + 1 }.insertRun
        (newRun ⟨k.drawn⟩ r.taskId (r.attempt + 1) (retriedState now available) available now)
  | .cancel now id =>
      (k.updateTask id (TaskRow.cancel now)).updateRuns (fun r => r.taskId = id ∧ r.Active)
        RunRow.cancel
  | .retry now t maxAttempts =>
      let k' := k.updateTask t.taskId (TaskRow.retry (t.attempts + 1) maxAttempts ⟨k.drawn⟩)
      { k' with drawn := k.drawn + 1 }.insertRun
        (newRun ⟨k.drawn⟩ t.taskId (t.attempts + 1) .pending now now)
  | .delete batch => k.delete batch

/-- The change leaves the attempts of the runs as they are. -/
def Numbered : Change → Prop
  | .park _ e | .adjust _ e => e.KeepsAttempt
  | _ => True

/-- A run that the change fails and attempts again has an attempt left. -/
def AttemptsLeft (k : Lifecycle) : Change → Prop
  | .failRetried _ r _ _ => ((k.tasks.get? r.taskId).bind TaskRow.maxAttempts).any
      (fun n => decide (n < r.attempt + 1)) = false
  | _ => True

end Change

open Classical in
/-- The machine of the changes. -/
noncomputable def lifecycle : Machine Lifecycle Change where
  step k c := if c.Allowed k then some (c.apply k) else none

theorem step_lifecycle {k k' : Lifecycle} {c : Change} :
  lifecycle.step k c = some k' ↔ c.Allowed k ∧ c.apply k = k'
  := by
  simp [lifecycle]

/-- One change is a run. -/
theorem run_singleton {k : Lifecycle} {c : Change} (h : c.Allowed k) :
  lifecycle.run k [c] = some (c.apply k)
  := by
  rw [Machine.run, step_lifecycle.mpr ⟨h, rfl⟩]
  rfl

theorem run_append_of {k k₁ k₂ : Lifecycle} {cs cs' : List Change}
    (h : lifecycle.run k cs = some k₁) (h' : lifecycle.run k₁ cs' = some k₂) :
  lifecycle.run k (cs ++ cs') = some k₂
  := (Machine.run_append h).trans h'

end DjangoAbsurd.Engine
