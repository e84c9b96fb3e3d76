import Mathlib.Data.List.Perm.Subperm
import Mathlib.Data.List.Range
import Mathlib.Tactic.Common
import DjangoAbsurd.Library.Machine

/-!
# The windowed worker loop

`refill_in_flight_runs_until_stopped` keeps a window of executing runs and claims again
whenever one of them finishes. The coroutine is a machine whose states are its await points
(`Pc`) with the runs it created. Between two awaits it runs to the next await without
interruption; at an await a run may end, the stop event may be set, the awaited operation
may complete, and the coroutine may be cancelled.

`executing` is a Python set. Where the code iterates over it the label carries the order
of the iteration.
-/

namespace DjangoAbsurd.Worker

variable {Claimed Failure : Type}

/-- The options the loop reads. -/
structure WorkerOptions where
  concurrency : ℤ
  batchSize : Option ℤ

/-- `options.batch_size or options.concurrency`. -/
def WorkerOptions.effectiveBatchSize (options : WorkerOptions) : ℤ :=
  match options.batchSize with
  | some n => if n = 0 then options.concurrency else n
  | none => options.concurrency

/-- What a coroutine raises: `asyncio.CancelledError`, or a failure of the machinery. -/
inductive Raised (Failure : Type) where
  | cancelledError
  | failure (e : Failure)
  deriving DecidableEq

/-- How a coroutine ends. -/
abbrev Ending (Failure : Type) := Except (Raised Failure) Unit

/-- A run is active, has been asked to cancel, or is done. -/
inductive RunStatus (Failure : Type) where
  | active
  | cancelling
  | done (ending : Ending Failure)

/-- A run the loop created with `create_task`, for a claimed task. -/
structure Run (Claimed Failure : Type) where
  claimed : Claimed
  status : RunStatus Failure

/-- `entry.done()`. -/
def Run.isDone (run : Run Claimed Failure) : Bool :=
  match run.status with
  | .done _ => true
  | _ => false

/-- `entry.cancel()`: a request, which a done run ignores. -/
def Run.cancel (run : Run Claimed Failure) : Run Claimed Failure :=
  match run.status with
  | .active => { run with status := .cancelling }
  | _ => run

/-- The await point the coroutine is suspended at.

* `claiming n`: `client.claim_tasks(n, …)`
* `waiting`: `wait_for_run_progress`
* `draining interrupted`: the `gather` of `cancel_and_drain_runs`, itself cancelled or not
* `finishing pending`: the `asyncio.wait` of `finish_remaining_runs`, with the way the
  `try` block ended
* `gathering pending`: the `gather` of `finish_remaining_runs`
* `exited ending`: none, the coroutine has ended -/
inductive Pc (Failure : Type) where
  | claiming (n : ℤ)
  | waiting
  | draining (interrupted : Bool)
  | finishing (pending : Ending Failure)
  | gathering (pending : Ending Failure)
  | exited (ending : Ending Failure)

/-- A call of `claim_tasks`: what it asked for, the free capacity and whether the stop
event was set when it was made. -/
structure ClaimCall where
  asked : ℤ
  free : ℤ
  stopped : Bool

/-- What the coroutine works on: the stop event, the runs it created, its set of executing
runs by their position among the runs, and the claims it made. -/
structure Loop (Claimed Failure : Type) where
  stop : Bool
  runs : List (Run Claimed Failure)
  executing : List ℕ
  calls : List ClaimCall

/-- The suspended coroutine. -/
structure State (Claimed Failure : Type) where
  loop : Loop Claimed Failure
  pc : Pc Failure

/-- The way run `i` ended, if it has. -/
def ending? (runs : List (Run Claimed Failure)) (i : ℕ) : Option (Ending Failure) :=
  match runs[i]? with
  | some ⟨_, .done ending⟩ => some ending
  | _ => none

/-- The runs that are not done. -/
def unfinished (runs : List (Run Claimed Failure)) : List ℕ :=
  (List.range runs.length).filter (fun i => (ending? runs i).isNone)

namespace Loop

/-- The executing runs that are done. -/
def finished (w : Loop Claimed Failure) : List ℕ :=
  w.executing.filter (fun i => (ending? w.runs i).isSome)

/-- Every executing run is done. -/
def ExecutingDone (w : Loop Claimed Failure) : Prop :=
  ∀ i ∈ w.executing, (ending? w.runs i).isSome = true

instance (w : Loop Claimed Failure) : Decidable w.ExecutingDone :=
  inferInstanceAs (Decidable (∀ i ∈ w.executing, _))

/-- `reap_finished_runs`, with the finished runs in the order `entries`: the window and
what the first failing run raises. -/
def reapFinishedRuns (w : Loop Claimed Failure) :
    List ℕ → Loop Claimed Failure × Ending Failure
  | [] => (w, .ok ())
  | i :: entries =>
      let w := { w with executing := w.executing.erase i }
      match ending? w.runs i with
      | some (.error raised) => (w, .error raised)
      | _ => reapFinishedRuns w entries

/-- The `finally` clause up to its first await: `finish_remaining_runs`. -/
def enterFinally (w : Loop Claimed Failure) (pending : Ending Failure) :
    State Claimed Failure :=
  if w.executing = [] then ⟨w, .exited pending⟩ else ⟨w, .finishing pending⟩

/-- `entry.cancel()` for every executing run. -/
def cancelRuns (w : Loop Claimed Failure) : Loop Claimed Failure :=
  { w with
    runs := w.runs.mapIdx (fun i run => if i ∈ w.executing then run.cancel else run) }

/-- The `except asyncio.CancelledError` clause up to its first await:
`cancel_and_drain_runs`. A `gather` of nothing is not awaited. -/
def cancelAndDrainRuns (w : Loop Claimed Failure) : State Claimed Failure :=
  if w.executing = [] then w.enterFinally (.error .cancelledError)
  else ⟨w.cancelRuns, .draining false⟩

/-- An exception in the `try` block. -/
def raiseInLoop (w : Loop Claimed Failure) : Raised Failure → State Claimed Failure
  | .cancelledError => w.cancelAndDrainRuns
  | .failure e => w.enterFinally (.error (.failure e))

/-- The free capacity of the window. -/
def free (options : WorkerOptions) (w : Loop Claimed Failure) : ℤ :=
  options.concurrency - (unfinished w.runs).length

/-- A call of `claim_tasks`. -/
def claimTasks (options : WorkerOptions) (w : Loop Claimed Failure) (n : ℤ) :
    State Claimed Failure where
  loop := { w with calls := w.calls ++ [⟨n, w.free options, w.stop⟩] }
  pc := .claiming n

/-- The loop from its head to the next await. -/
def head (options : WorkerOptions) (w : Loop Claimed Failure) (entries : List ℕ) :
    State Claimed Failure :=
  if w.stop then w.enterFinally (.ok ())
  else
    match w.reapFinishedRuns entries with
    | (w, .error raised) => w.raiseInLoop raised
    | (w, .ok ()) =>
        let capacity := options.concurrency - w.executing.length
        if capacity ≤ 0 then ⟨w, .waiting⟩
        else w.claimTasks options (min options.effectiveBatchSize capacity)

/-- A run is created for every claimed task and joins the window. -/
def createRuns (w : Loop Claimed Failure) (tasks : List Claimed) : Loop Claimed Failure :=
  { w with
    runs := w.runs ++ tasks.map (fun claimed => ⟨claimed, .active⟩)
    executing := w.executing ++ List.range' w.runs.length tasks.length }

/-- `asyncio.gather(*executing)` over done runs: the first failure, in the order
`entries`. -/
def gather (w : Loop Claimed Failure) : List ℕ → Ending Failure
  | [] => .ok ()
  | i :: entries =>
      match ending? w.runs i with
      | some (.error raised) => .error raised
      | _ => w.gather entries

/-- The stop event is set. -/
def setStop (w : Loop Claimed Failure) : Loop Claimed Failure := { w with stop := true }

/-- Run `i` ends. -/
def endRun (w : Loop Claimed Failure) (i : ℕ) (ending : Ending Failure) :
    Option (Loop Claimed Failure) :=
  match w.runs[i]? with
  | some ⟨_, .done _⟩ => none
  | some ⟨claimed, _⟩ => some { w with runs := w.runs.set i ⟨claimed, .done ending⟩ }
  | none => none

end Loop

/-- What happens while the coroutine is suspended. `claimed` and `resume` carry the order
in which the set of executing runs is iterated. -/
inductive Label (Claimed Failure : Type) where
  | endRun (i : ℕ) (ending : Ending Failure)
  | setStop
  | claimed (tasks : List Claimed) (entries : List ℕ)
  | claimFails (e : Failure)
  | resume (entries : List ℕ)
  | cancel

/-- The tasks a label's claim returns. -/
@[simp]
def Label.returned : Label Claimed Failure → List Claimed
  | .claimed tasks _ => tasks
  | _ => []

/-- The coroutine at its first await. -/
def start (options : WorkerOptions) (stop : Bool) : State Claimed Failure :=
  Loop.head options ⟨stop, [], [], []⟩ []

/-- `claim_tasks` returns. A claim of `n` returns at most `n` tasks, where the database
reads an `n` below one as one. -/
def claimReturns (options : WorkerOptions) (s : State Claimed Failure)
    (tasks : List Claimed) (entries : List ℕ) : Option (State Claimed Failure) :=
  match s.pc with
  | .claiming n =>
      if (tasks.length : ℤ) ≤ max n 1 ∧ entries.Perm s.loop.finished then
        if tasks = [] then some ⟨s.loop, .waiting⟩
        else some ((s.loop.createRuns tasks).head options entries)
      else none
  | _ => none

/-- `claim_tasks` raises. -/
def claimRaises (s : State Claimed Failure) (e : Failure) : Option (State Claimed Failure) :=
  match s.pc with
  | .claiming _ => some (s.loop.raiseInLoop (.failure e))
  | _ => none

/-- Another await completes: a wait for progress at any moment, since it has a timeout,
the others once every executing run is done. A cancelled `gather` leaves
`cancel_and_drain_runs` before it clears the window. -/
def resume (options : WorkerOptions) (s : State Claimed Failure) (entries : List ℕ) :
    Option (State Claimed Failure) :=
  match s.pc with
  | .waiting =>
      if entries.Perm s.loop.finished then some (s.loop.head options entries) else none
  | .draining interrupted =>
      if s.loop.ExecutingDone then
        if interrupted then some (s.loop.enterFinally (.error .cancelledError))
        else some (Loop.enterFinally { s.loop with executing := [] } (.error .cancelledError))
      else none
  | .finishing pending =>
      if s.loop.ExecutingDone then some ⟨s.loop, .gathering pending⟩ else none
  | .gathering pending =>
      if entries.Perm s.loop.finished then
        match s.loop.gather entries with
        | .error raised => some ⟨s.loop, .exited (.error raised)⟩
        | .ok () => some ⟨s.loop, .exited pending⟩
      else none
  | _ => none

/-- Cancellation is delivered at the await point. The `gather` of `cancel_and_drain_runs`
still waits for the runs; the awaits of the `finally` clause end at once. -/
def cancel (s : State Claimed Failure) : Option (State Claimed Failure) :=
  match s.pc with
  | .claiming _ | .waiting => some s.loop.cancelAndDrainRuns
  | .draining _ => some ⟨s.loop, .draining true⟩
  | .finishing _ | .gathering _ => some ⟨s.loop, .exited (.error .cancelledError)⟩
  | .exited _ => none

/-- The coroutine has ended. -/
def State.hasExited (s : State Claimed Failure) : Bool :=
  match s.pc with
  | .exited _ => true
  | _ => false

/-- One step. Nothing is observed of a coroutine that has ended. -/
def step (options : WorkerOptions) (s : State Claimed Failure) (l : Label Claimed Failure) :
    Option (State Claimed Failure) :=
  if s.hasExited then none
  else
    match l with
    | .endRun i ending => (s.loop.endRun i ending).map (fun w => ⟨w, s.pc⟩)
    | .setStop => some ⟨s.loop.setStop, s.pc⟩
    | .claimed tasks entries => claimReturns options s tasks entries
    | .claimFails e => claimRaises s e
    | .resume entries => resume options s entries
    | .cancel => cancel s

/-- The coroutine as a machine. -/
def machine (options : WorkerOptions) : Machine (State Claimed Failure) (Label Claimed Failure) :=
  ⟨step options⟩

end DjangoAbsurd.Worker
