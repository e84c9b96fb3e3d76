import DjangoAbsurd.Engine.Sweep
import DjangoAbsurd.Worker.Loop

/-!
# Draining a queue

`adrain_queue` claims and executes until a claim takes no run. The claim that takes none has
failed expired runs on the way, at most as many as it may take, so expired runs may be left
that another claim would fail, and attempt again at once.
-/

namespace DjangoAbsurd.Worker

open Engine

/-- The options a drain reads. -/
structure DrainOptions extends WorkerOptions where
  claimTimeout : ℤ
  workerId : Option String

/-- `options.worker_id or "worker"`. -/
def DrainOptions.worker (options : DrainOptions) : String :=
  match options.workerId with
  | some id => if id = "" then "worker" else id
  | none => "worker"

/-- The `claim_tasks` of a drain. -/
def drainClaim (pg : Postgres) (options : DrainOptions) (now : Time) (s : QueueState) :
    Except EngineError (QueueState × List Uuid) :=
  claimTask pg s now options.worker options.claimTimeout options.effectiveBatchSize

/-- The rounds of a drain, each with the calls that executing the claimed runs made: the
queue they lead to, and the ids of the runs, in the order of their claims. -/
def drainRounds (pg : Postgres) (options : DrainOptions) (now : Time) :
    QueueState → List (List Engine.Label) → Option (QueueState × List Uuid)
  | s, [] => some (s, [])
  | s, round :: rounds =>
      match drainClaim pg options now s with
      | .ok (s, id :: ids) => do
          let s ← (Engine.machine pg).run s round
          let (s, drained) ← drainRounds pg options now s rounds
          return (s, id :: ids ++ drained)
      | _ => none

/-- `adrain_queue`: the queue it leaves, and the ids of the runs it executed. -/
def adrainQueue (pg : Postgres) (options : DrainOptions) (now : Time) (s : QueueState)
    (rounds : List (List Engine.Label)) : Option (QueueState × List Uuid) := do
  let (s, drained) ← drainRounds pg options now s rounds
  match drainClaim pg options now s with
  | .ok (s, []) => return (s, drained)
  | _ => none

/-! ### What a drain leaves -/

section

variable {pg : Postgres} {options : DrainOptions} {now : Time} {s s' : QueueState}
  {drained drained' : List Uuid}

/-- The last claim of a drain. -/
theorem drainClaim_of_adrainQueue {s₀ : QueueState} {rounds : List (List Engine.Label)}
    (hrounds : drainRounds pg options now s₀ rounds = some (s, drained))
    (hdrain : adrainQueue pg options now s₀ rounds = some (s', drained')) :
  drainClaim pg options now s = .ok (s', [])
  := by
  rw [adrainQueue, hrounds] at hdrain
  change (match drainClaim pg options now s with
    | .ok (s, []) => some (s, drained)
    | _ => none) = _ at hdrain
  split at hdrain
  · rename_i hclaim
    cases hdrain
    exact hclaim
  · cases hdrain

/-- The rounds of a drain lead to a queue that calls lead to. -/
theorem reachable_drainRounds {rounds : List (List Engine.Label)} (hs : Reachable pg s)
    (hrounds : drainRounds pg options now s rounds = some (s', drained)) :
  Reachable pg s'
  := by
  induction rounds generalizing s drained with
  | nil =>
      cases hrounds
      exact hs
  | cons round rounds ih =>
      rw [drainRounds] at hrounds
      split at hrounds
      · rename_i s₁ id ids hclaim
        obtain ⟨s₂, hround, hrounds⟩ := Option.bind_eq_some_iff.mp hrounds
        obtain ⟨⟨s₃, drained₁⟩, hrest, hrounds⟩ := Option.bind_eq_some_iff.mp hrounds
        cases hrounds
        have hstep := step_claim hclaim
        have hrun : (Engine.machine pg).run s (.claim now options.worker options.claimTimeout
            options.effectiveBatchSize :: round) = some s₂ := Machine.run_cons.mpr ⟨s₁, hstep, hround⟩
        exact ih (hs.run hrun) hrest
      · cases hrounds

/-- Take a queue that calls lead to, and a drain of it: its rounds, and the queue it leaves.
At the time of the drain no claim of any size takes a run exactly when, in the queue before
the last claim of the drain, none of the overdue runs beyond the oldest, as many as the
batch size, would be attempted again at once when its expired claim is failed. -/
theorem drain_exhausts_iff {s₀ : QueueState} {rounds : List (List Engine.Label)}
    (hreach : Reachable pg s₀)
    (hrounds : drainRounds pg options now s₀ rounds = some (s, drained))
    (hdrain : adrainQueue pg options now s₀ rounds = some (s', drained')) :
  Exhausted pg s' now
    ↔ ∀ r ∈ (overdueRuns pg s now).drop (max options.effectiveBatchSize 1).toNat,
        ¬ RetriedAtOnce pg s now r
  := exhausted_iff_of_claim
    (consistent_of_reachable (reachable_drainRounds hreach hrounds))
    (drainClaim_of_adrainQueue hrounds hdrain)

end

/-! ### A crash that a drain does not recover -/

/-- The params of a call without arguments. -/
def bareCall : Json := .obj [("args", .arr []), ("kwargs", .obj [])]

/-- A task that may be attempted once is claimed. -/
def onceClaimed : QueueState :=
  markClaimed 0 "worker" (some (seconds 10))
    (insertSpawned (.create .unpartitioned) 0
      (spawnedTask (.create .unpartitioned) 0 "tasks.add" bareCall ⟨none, none, some 1, none, none⟩))
    (newRun ⟨1⟩ ⟨0⟩ 1 .pending 0 0)

/-- Another task is claimed, and the worker crashes. -/
def crashed : QueueState :=
  markClaimed 0 "worker" (some (seconds 10))
    (insertSpawned onceClaimed 0
      (spawnedTask onceClaimed 0 "tasks.add" bareCall ⟨none, none, none, none, none⟩))
    (newRun ⟨3⟩ ⟨2⟩ 1 .pending 0 0)

/-- The run a worker was executing when it crashed. -/
def crashedRun (runId taskId : Uuid) : RunRow :=
  (RunRow.claim 0 "worker" (some (seconds 10))).apply (newRun runId taskId 1 .pending 0 0)

/-- Once the claims have expired, a drain of batches of one run. -/
def oneByOne : DrainOptions := ⟨⟨1, none⟩, 120, none⟩

/-- A claim of one run, where there is one. -/
theorem step_claim_one {s : QueueState} {r : RunRow} {timeout : ℤ} {worker : String}
    (hdue : (s.tasks.rows.filter (fun t => !t.state.terminal)).filterM
      (cancellationDue plainPostgres 0) = .ok [])
    (hexpired : s.runs.rows.filter (fun r => r.Expired 0) = [])
    (hclaimed : s.runs.rows.filter (fun r => (r.state = .pending ∨ r.state = .sleeping)
      ∧ (s.tasks.get? r.taskId).any (fun t => !t.state.terminal)
      ∧ r.availableAt ≤ ((0 : Time) : WithTop Time)) = [r]) :
  Engine.step plainPostgres s (.claim 0 worker timeout 1)
    = some (markClaimed 0 (if worker = "" then "worker" else worker)
        (if 0 < timeout then some (0 + seconds timeout) else none) s r)
  := by
  exact step_claim (claimTask_one hdue hexpired hclaimed)

theorem crashed_reachable :
  Reachable plainPostgres crashed
  := by
  let first := insertSpawned (.create .unpartitioned) 0
    (spawnedTask (.create .unpartitioned) 0 "tasks.add" bareCall ⟨none, none, some 1, none, none⟩)
  let second := insertSpawned onceClaimed 0
    (spawnedTask onceClaimed 0 "tasks.add" bareCall ⟨none, none, none, none, none⟩)
  have hfirst : Engine.step plainPostgres first (.claim 0 "worker" 10 1) = some onceClaimed :=
    step_claim_one rfl rfl rfl
  have hsecond : Engine.step plainPostgres second (.claim 0 "worker" 10 1) = some crashed :=
    step_claim_one rfl rfl rfl
  apply reachable_iff.mpr
  refine ⟨.unpartitioned, [.spawn 0 "tasks.add" bareCall (.obj [("max_attempts", .num ⟨1, 0⟩)]),
    .claim 0 "worker" 10 1, .spawn 0 "tasks.add" bareCall (.obj []), .claim 0 "worker" 10 1], ?_⟩
  apply Machine.run_cons.mpr
  refine ⟨first, rfl, Machine.run_cons.mpr ⟨onceClaimed, hfirst, ?_⟩⟩
  apply Machine.run_cons.mpr
  exact ⟨second, rfl, Machine.run_cons.mpr ⟨crashed, hsecond, rfl⟩⟩

theorem overdueRuns_crashed :
  overdueRuns plainPostgres crashed (seconds 20) = [crashedRun ⟨1⟩ ⟨0⟩, crashedRun ⟨3⟩ ⟨2⟩]
  := by
  have hfilter : crashed.runs.rows.filter (fun r => decide (r.Expired (seconds 20))
      && !(crashed.tasks.get? r.taskId).any (TaskRow.Cancels plainPostgres (seconds 20)))
      = [crashedRun ⟨1⟩ ⟨0⟩, crashedRun ⟨3⟩ ⟨2⟩] := rfl
  rw [overdueRuns, hfilter]
  apply List.mergeSort_of_pairwise
  rw [List.pairwise_pair]
  rfl

/-- The queue once the claim of the task that may be attempted once has expired. -/
def oneSwept : QueueState :=
  failForGood crashed (seconds 20) (crashedRun ⟨1⟩ ⟨0⟩)
    (claimTimeout plainPostgres (crashedRun ⟨1⟩ ⟨0⟩))

theorem drainClaim_crashed :
  drainClaim plainPostgres oneByOne (seconds 20) crashed = .ok (oneSwept, [])
  := by
  have hdue : cancelCandidates plainPostgres crashed (seconds 20) = .ok [] := by
    have hnone : (crashed.tasks.rows.filter (fun t => !t.state.terminal)).filterM
        (cancellationDue plainPostgres (seconds 20)) = .ok [] := rfl
    rw [cancelCandidates, hnone]
    exact congrArg Except.ok List.mergeSort_nil
  have hexpired : expiredRuns plainPostgres crashed (seconds 20) 1 = [crashedRun ⟨1⟩ ⟨0⟩] := by
    have hs := consistent_of_reachable crashed_reachable
    rw [expiredRuns_cancelled hs hdue (cancelled_nil hs), overdueRuns_crashed]
    rfl
  have hcandidates : claimCandidates plainPostgres oneSwept (seconds 20) 1 = [] := by
    have hnone : oneSwept.runs.rows.filter (fun r => (r.state = .pending ∨ r.state = .sleeping)
        ∧ (oneSwept.tasks.get? r.taskId).any (fun t => !t.state.terminal)
        ∧ r.availableAt ≤ ((seconds 20 : Time) : WithTop Time)) = [] := rfl
    rw [claimCandidates, hnone, List.mergeSort_nil]
    rfl
  have hfail : failRun plainPostgres crashed (seconds 20) ⟨1⟩
      (claimTimeout plainPostgres (crashedRun ⟨1⟩ ⟨0⟩)) none = .ok oneSwept := rfl
  have hsweep : sweep plainPostgres (seconds 20)
      (expiredRuns plainPostgres crashed (seconds 20) 1) crashed
      = .ok oneSwept := by
    rw [hexpired]
    exact Except.foldlM_cons_eq_ok.mpr ⟨oneSwept, hfail, rfl⟩
  have hclaim : claimTask plainPostgres crashed (seconds 20) "worker" 120 1
      = .ok ((claimCandidates plainPostgres oneSwept (seconds 20) 1).foldl _ oneSwept,
        (claimCandidates plainPostgres oneSwept (seconds 20) 1).map RunRow.runId) :=
    claimTask_of_sweep hdue hsweep
  rw [hcandidates] at hclaim
  exact hclaim

theorem adrainQueue_crashed :
  adrainQueue plainPostgres oneByOne (seconds 20) crashed [] = some (oneSwept, [])
  := by
  rw [adrainQueue, drainRounds]
  change (match drainClaim plainPostgres oneByOne (seconds 20) crashed with
    | .ok (s, []) => some (s, [])
    | _ => none) = _
  rw [drainClaim_crashed]

theorem retriedAtOnce_crashed :
  RetriedAtOnce plainPostgres crashed (seconds 20) (crashedRun ⟨3⟩ ⟨2⟩)
  := by
  refine ⟨_, rfl, ?_, ?_, ?_⟩
  · rfl
  · change some (max (seconds 20 + ⌊(0 : ℚ) * 1000000 + 1 / 2⌋) (seconds 20)) = some (seconds 20)
    norm_num
  · rfl

/-- A drain after the crash leaves a run that another claim would recover. -/
theorem drain_exhausts_iff_crashed :
  ¬ Exhausted plainPostgres oneSwept (seconds 20)
  := by
  rw [drain_exhausts_iff crashed_reachable rfl adrainQueue_crashed, overdueRuns_crashed]
  intro h
  exact h _ (List.mem_singleton_self _) retriedAtOnce_crashed

/-- A drain that returns does not leave the queue exhausted. -/
theorem drain_leaves_expired_run :
  ¬ ∀ (pg : Postgres) (options : DrainOptions) (now : Time) (s s' : QueueState)
      (rounds : List (List Engine.Label)) (drained : List Uuid),
    Reachable pg s → adrainQueue pg options now s rounds = some (s', drained) →
      Exhausted pg s' now
  := by
  intro h
  have hexhausted := h _ _ _ _ _ _ _ crashed_reachable adrainQueue_crashed
  rw [exhausted_iff_of_claim (consistent_of_reachable crashed_reachable) drainClaim_crashed,
    overdueRuns_crashed] at hexhausted
  exact hexhausted _ (List.mem_singleton_self _) retriedAtOnce_crashed

end DjangoAbsurd.Worker
