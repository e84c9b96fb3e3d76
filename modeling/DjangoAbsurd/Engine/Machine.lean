import DjangoAbsurd.Engine.Operations
import DjangoAbsurd.Library.Machine

/-!
# A queue as a machine

The labels are the calls of the SQL functions with their arguments, each with its own
reading of the clock. A call that raises changes nothing and is refused. `engine` is the machine
of all calls; `machine` is its part in which an await names the task of its run.
-/

namespace DjangoAbsurd.Engine

/-- The calls that may change a queue. -/
inductive Label where
  | spawn (now : Time) (name : String) (params options : Json)
  | claim (now : Time) (worker : String) (claimTimeout qty : ℤ)
  | complete (now : Time) (runId : Uuid) (payload : Option Json)
  | schedule (runId : Uuid) (wakeAt : WithTop Time)
  | fail (now : Time) (runId : Uuid) (reason : Json) (retryAt : Option Time)
  | retry (now : Time) (taskId : Uuid) (spawnNew : Bool) (maxAttempts : Option ℤ)
  | cancel (now : Time) (taskId : Uuid)
  | checkpoint (now : Time) (taskId : Uuid) (stepName : String) (state : Option Json)
      (ownerRun : Uuid) (extendClaimBy : Option ℤ)
  | extend (now : Time) (runId : Uuid) (extendBy : ℤ)
  | await (now : Time) (taskId runId : Uuid) (stepName eventName : String) (timeout : Option ℤ)
  | emit (now : Time) (eventName : String) (payload : Option Json)
  | cleanupTasks (now : Time) (ttlSeconds : ℤ) (limit : ℕ) (batch : List Uuid)
  | cleanupEvents (now : Time) (ttlSeconds : ℤ) (limit : ℕ) (batch : List String)

/-- One call. -/
def call (pg : Postgres) (s : QueueState) : Label → Option QueueState
  | .spawn now name params options =>
      ((spawnTask pg s now name params options).map Prod.fst).toOption
  | .claim now worker claimTimeout qty =>
      ((claimTask pg s now worker claimTimeout qty).map Prod.fst).toOption
  | .complete now runId payload => (completeRun s now runId payload).toOption
  | .schedule runId wakeAt => (scheduleRun s runId wakeAt).toOption
  | .fail now runId reason retryAt => (failRun pg s now runId reason retryAt).toOption
  | .retry now taskId spawnNew maxAttempts =>
      ((retryTask pg s now taskId spawnNew maxAttempts).map Prod.fst).toOption
  | .cancel now taskId => (cancelTask s now taskId).toOption
  | .checkpoint now taskId stepName state ownerRun extendClaimBy =>
      (setTaskCheckpointState s now taskId stepName state ownerRun extendClaimBy).toOption
  | .extend now runId extendBy => (extendClaim s now runId extendBy).toOption
  | .await now taskId runId stepName eventName timeout =>
      ((awaitEvent s now taskId runId stepName eventName timeout).map Prod.fst).toOption
  | .emit now eventName payload => (emitEvent s now eventName payload).toOption
  | .cleanupTasks now ttlSeconds limit batch => cleanupTasks s now ttlSeconds limit batch
  | .cleanupEvents now ttlSeconds limit batch => cleanupEvents s now ttlSeconds limit batch

/-- The machine of all calls. -/
def engine (pg : Postgres) : Machine QueueState Label := ⟨call pg⟩

/-- An await names the task of its run, as the handlers' do: they await events with the task and
the run they were claimed with. `absurd.await_event` does not check it. -/
def AwaitsOwn (s : QueueState) : Label → Prop
  | .await _ taskId runId _ _ _ => (s.runs.get? runId).all (fun r => r.taskId = taskId) = true
  | _ => True

instance (s : QueueState) : (l : Label) → Decidable (AwaitsOwn s l)
  | .await _ taskId runId _ _ _ =>
      inferInstanceAs (Decidable ((s.runs.get? runId).all (fun r => r.taskId = taskId) = true))
  | .spawn .. | .claim .. | .complete .. | .schedule .. | .fail .. | .retry .. | .cancel ..
  | .checkpoint .. | .extend .. | .emit .. | .cleanupTasks .. | .cleanupEvents .. => .isTrue trivial

/-- One call, of a client whose awaits name the task of their run. -/
def step (pg : Postgres) (s : QueueState) (l : Label) : Option QueueState :=
  if AwaitsOwn s l then call pg s l else none

theorem step_eq_some {pg : Postgres} {s s' : QueueState} {l : Label} :
  step pg s l = some s' ↔ AwaitsOwn s l ∧ call pg s l = some s'
  := Option.ite_none_right_eq_some

/-- A claim that is answered is a step. -/
theorem step_claim {pg : Postgres} {s s' : QueueState} {now : Time} {worker : String}
    {claimTimeout qty : ℤ} {claimed : List Uuid}
    (h : claimTask pg s now worker claimTimeout qty = .ok (s', claimed)) :
  step pg s (.claim now worker claimTimeout qty) = some s'
  := by
  rw [step_eq_some, call, h]
  exact ⟨trivial, rfl⟩

/-- The machine of a queue, for clients whose awaits name the task of their run. -/
def machine (pg : Postgres) : Machine QueueState Label := ⟨step pg⟩

/-- A run of the machine is one of all calls along which the awaits name the task of their run. -/
theorem run_machine_iff {pg : Postgres} {s s' : QueueState} {ls : List Label} :
  (machine pg).run s ls = some s'
    ↔ (engine pg).run s ls = some s' ∧ (engine pg).Along AwaitsOwn s ls
  := by
  apply Machine.run_restricted_iff
  intro s l s'
  exact step_eq_some.trans and_comm

/-- A state some sequence of calls leads to, along which the awaits name the task of their run. -/
def Reachable (pg : Postgres) (s : QueueState) : Prop :=
  ∃ storage ls, (engine pg).run (.create storage) ls = some s
    ∧ (engine pg).Along AwaitsOwn (.create storage) ls

theorem reachable_iff {pg : Postgres} {s : QueueState} :
  Reachable pg s ↔ ∃ storage ls, (machine pg).run (.create storage) ls = some s
  := by
  simp only [Reachable, run_machine_iff]

/-- What a reachable queue leads to is reachable. -/
theorem Reachable.run {pg : Postgres} {s s' : QueueState} {ls : List Label} (h : Reachable pg s)
    (hs : (machine pg).run s ls = some s') :
  Reachable pg s'
  := by
  obtain ⟨storage, ls', hrun⟩ := reachable_iff.mp h
  apply reachable_iff.mpr
  use storage, ls' ++ ls
  rw [Machine.run_append hrun, hs]

/-- Casts that take no text for a number. -/
def plainPostgres : Postgres where
  toDouble _ := none
  toInteger _ := none
  timestampText _ := ""
  uuidNumber := Uuid.index
  uuidNumber_injective := by
    rintro ⟨i⟩ ⟨j⟩ rfl
    rfl

end DjangoAbsurd.Engine
