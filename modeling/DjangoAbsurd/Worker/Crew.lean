import DjangoAbsurd.Engine.Leases
import DjangoAbsurd.Worker.Drain
import Mathlib.Algebra.Order.BigOperators.Group.List

/-!
# The claims of a crew of workers

A claim takes its runs until one moment, the claim timeout from now. A worker with several
slots claims no more runs than it has free slots, so that their bodies start at once. A worker
with one slot claims a whole batch and executes it in order: the body of a run starts when
those before it are over, while the claims of the whole batch run on. `crewMachine` has the
tables of a queue, a clock, and any number of workers, each with its options and the runs it
has in hand. Claiming, completing and suspending take no time.
-/

namespace DjangoAbsurd.Worker

open Engine

/-! ### Workers -/

/-- The options of a worker. -/
structure LeaseOptions extends WorkerOptions where
  claimTimeout : ℤ
  workerId : String

/-- How many bodies a worker executes at a time. -/
def WorkerOptions.slots (options : WorkerOptions) : ℕ :=
  if options.concurrency ≤ 1 then 1 else options.concurrency.toNat

/-- How many runs a worker that has so many in hand asks for, when it claims: a whole batch, once
the last one is done, in `execute_one_run_at_a_time`, and what there is capacity for in
`refill_in_flight_runs_until_stopped`. -/
def WorkerOptions.claimQty (options : WorkerOptions) (inHand : ℕ) : Option ℤ :=
  if options.concurrency ≤ 1 then
    if inHand = 0 then some options.effectiveBatchSize else none
  else
    let capacity := options.concurrency - inHand
    if capacity ≤ 0 then none else some (min options.effectiveBatchSize capacity)

/-- A run a worker has in hand: how long its body takes this time, in microseconds, when it was
claimed and, once its body started, when that was. -/
structure Job where
  runId : Uuid
  taskId : Uuid
  duration : ℕ
  claimedAt : Time
  startedAt : Option Time

/-- The job of a run that was claimed. -/
def newJob (s : QueueState) (clock : Time) (duration : Uuid → ℕ) (id : Uuid) : Option Job :=
  (s.runs.get? id).map (fun r => {
    runId := r.runId
    taskId := r.taskId
    duration := duration r.runId
    claimedAt := clock
    startedAt := none })

/-- The body of a job starts, unless it has. -/
def Job.start (clock : Time) (job : Job) : Job :=
  { job with startedAt := job.startedAt.or (some clock) }

/-- The bodies of the first jobs start, as many as there are slots. -/
def startJobs (clock : Time) : ℕ → List Job → List Job
  | _, [] => []
  | 0, jobs => jobs
  | n + 1, job :: jobs => job.start clock :: startJobs clock n jobs

/-! ### Workers and tables -/

/-- The workers of a queue. -/
structure Setup where
  pg : Postgres
  size : ℕ
  options : ℕ → LeaseOptions

/-- The claim timeout of a worker, in microseconds. -/
def Setup.timeout (setup : Setup) (i : ℕ) : Time := seconds (setup.options i).claimTimeout

/-- The tables of the queue, the clock, the jobs each worker has in hand, and the runs that were
delivered and not suspended since. -/
structure Crew where
  queue : QueueState
  clock : Time
  hands : ℕ → List Job
  delivered : List Uuid

/-- The workers before any claim. -/
def Crew.create (storage : StorageMode) (clock : Time) : Crew :=
  ⟨.create storage, clock, fun _ => [], []⟩

/-- The calls of others: enqueues, operators, events and cleanups. -/
def OthersCall : Engine.Label → Bool
  | .spawn _ _ _ _ | .retry _ _ _ _ | .cancel _ _ | .emit _ _ _ | .cleanupTasks _ _ _ _
  | .cleanupEvents _ _ _ _ => true
  | _ => false

/-- The calls of a body on its own run after which it goes on: heartbeats, the checkpoints of its
steps, and events that have been emitted. -/
inductive BodyCall where
  | heartbeat (extendBy : ℤ)
  | checkpoint (stepName : String) (state : Option Json) (extendBy : Option ℤ)
  | await (stepName eventName : String) (timeout : Option ℤ)

/-- What such a call leaves of the tables. -/
def BodyCall.perform (s : QueueState) (now : Time) (job : Job) : BodyCall → Option QueueState
  | .heartbeat extendBy => (extendClaim s now job.runId extendBy).toOption
  | .checkpoint stepName state extendBy =>
      (setTaskCheckpointState s now job.taskId stepName state job.runId extendBy).toOption
  | .await stepName eventName timeout =>
      match awaitEvent s now job.taskId job.runId stepName eventName timeout with
      | .ok (s', false, _) => some s'
      | _ => none

/-- The call does not take the run for less than so many seconds from now. -/
def BodyCall.KeepsClaim (timeout : ℤ) : BodyCall → Prop
  | .heartbeat extendBy => timeout ≤ extendBy
  | .checkpoint _ _ extendBy => extendBy.all (fun n => timeout ≤ n)
  | .await _ _ _ => True

/-- The calls by which a handler that is over ends or suspends its run. -/
def EndsRun (runId : Uuid) : Engine.Label → Bool
  | .complete _ runId' _ | .fail _ runId' _ _ | .schedule runId' _ | .await _ _ runId' _ _ _ =>
      runId' = runId
  | _ => false

/-- The run waits for a worker. -/
def Parked (s : QueueState) (runId : Uuid) : Bool :=
  (s.runs.get? runId).any (fun r => r.state = .pending ∨ r.state = .sleeping)

/-- What happens. Jobs are named by their worker and their place in its hands. With a claim goes how
long the body of each run takes that it delivers. -/
inductive Move where
  | tick (t : Time)
  | call (l : Engine.Label)
  | claims (i : ℕ) (duration : Uuid → ℕ)
  | works (i m : ℕ) (call : BodyCall)
  | ends (i m : ℕ) (l : Option Engine.Label)

namespace Crew

variable (setup : Setup) (w : Crew)

/-- Worker `i` claims runs. -/
def claims (i : ℕ) (duration : Uuid → ℕ) : Option Crew :=
  if i < setup.size then
    match (setup.options i).claimQty (w.hands i).length with
    | none => none
    | some qty =>
        match claimTask setup.pg w.queue w.clock (setup.options i).workerId
            (setup.options i).claimTimeout qty with
        | .error _ => none
        | .ok (s, claimed) =>
            some {
              queue := s
              clock := w.clock
              hands := Function.update w.hands i (startJobs w.clock (setup.options i).slots
                (w.hands i ++ claimed.filterMap (newJob s w.clock duration)))
              delivered := w.delivered ++ claimed }
  else none

/-- The body of job `m` of worker `i` makes a call and goes on. -/
def works (i m : ℕ) (call : BodyCall) : Option Crew :=
  match (w.hands i)[m]? with
  | none => none
  | some job =>
      if i < setup.size ∧ job.startedAt.isSome then
        (call.perform w.queue w.clock job).map (fun s => { w with queue := s })
      else none

/-- The body of job `m` of worker `i` is over, and its run is completed, failed or suspended,
unless that call fails. -/
def ends (i m : ℕ) (l : Option Engine.Label) : Option Crew :=
  match (w.hands i)[m]? with
  | none => none
  | some job =>
      if i < setup.size ∧ job.startedAt.any (fun t => w.clock = t + job.duration)
          ∧ l.all (EndsRun job.runId) then
        let queue? :=
          match l with
          | none => some w.queue
          | some l => Engine.step setup.pg w.queue l
        queue?.map (fun s =>
          { w with
            queue := s
            hands := Function.update w.hands i
              (startJobs w.clock (setup.options i).slots ((w.hands i).eraseIdx m))
            delivered :=
              if Parked s job.runId then w.delivered.erase job.runId else w.delivered })
      else none

/-- Time passes, but not beyond the end of a body that started. -/
def tick (t : Time) : Option Crew :=
  if w.clock ≤ t ∧ ∀ i < setup.size, ∀ job ∈ w.hands i,
      job.startedAt.all (fun σ => decide (t ≤ σ + job.duration)) then
    some { w with clock := t }
  else none

/-- One step. -/
def step : Move → Option Crew
  | .tick t => w.tick setup t
  | .call l =>
      if OthersCall l then (Engine.step setup.pg w.queue l).map (fun s => { w with queue := s })
      else none
  | .claims i duration => w.claims setup i duration
  | .works i m call => w.works setup i m call
  | .ends i m l => w.ends setup i m l

end Crew

/-- Workers and tables as a machine. -/
def crewMachine (setup : Setup) : Machine Crew Move := ⟨Crew.step setup⟩

/-- The body of each run that is claimed takes less time than the claim timeout, and where the
runs are executed one by one their bodies together do; no body shortens its own claim. -/
def Fits (setup : Setup) (w : Crew) : Move → Prop
  | .claims i duration => ∀ qty s claimed,
      (setup.options i).claimQty (w.hands i).length = some qty →
      claimTask setup.pg w.queue w.clock (setup.options i).workerId (setup.options i).claimTimeout
        qty = .ok (s, claimed) →
      (∀ id ∈ claimed, duration id < setup.timeout i)
        ∧ ((setup.options i).concurrency ≤ 1 →
          ((claimed.map duration).sum : ℕ) < setup.timeout i)
  | .works i _ call => call.KeepsClaim (setup.options i).claimTimeout
  | _ => True

/-! ### The jobs in hand -/

/-- The ids of the run and the task of a job. -/
def Job.ids (job : Job) : Uuid × Uuid := (job.runId, job.taskId)

/-- Two jobs are of two runs and of two tasks. -/
def Differ (ids ids' : Uuid × Uuid) : Prop := ids.1 ≠ ids'.1 ∧ ids.2 ≠ ids'.2

/-- No run and no task is in hand twice. -/
structure Apart (hands : ℕ → List Job) : Prop where
  within : ∀ i, ((hands i).map Job.ids).Pairwise Differ
  across : ∀ i i', i ≠ i' → ∀ job ∈ hands i, ∀ job' ∈ hands i', Differ job.ids job'.ids

/-- The jobs of a worker with one slot: the body of the first one has started, and will be over
in time, as will those of the others, one after the other. -/
def InSequence (clock timeout : Time) : List Job → Prop
  | [] => True
  | job :: jobs => ∃ t, job.startedAt = some t ∧ job.claimedAt ≤ clock
      ∧ clock ≤ t + job.duration
      ∧ (∀ job' ∈ jobs, job'.startedAt = none ∧ job'.claimedAt = job.claimedAt)
      ∧ t + (((job :: jobs).map Job.duration).sum : ℕ) < job.claimedAt + timeout

/-- The jobs of a worker with several slots: each has started when it was claimed. -/
structure AtOnce (clock timeout : Time) (concurrency : ℤ) (jobs : List Job) :
    Prop where
  length : (jobs.length : ℤ) ≤ concurrency
  job : ∀ job ∈ jobs, job.startedAt = some job.claimedAt ∧ job.claimedAt ≤ clock
    ∧ clock ≤ job.claimedAt + job.duration ∧ (job.duration : ℤ) < timeout

/-- The jobs of a worker are on time. -/
def OnTime (setup : Setup) (clock : Time) (i : ℕ) (jobs : List Job) : Prop :=
  if (setup.options i).concurrency ≤ 1 then InSequence clock (setup.timeout i) jobs
  else AtOnce clock (setup.timeout i) (setup.options i).concurrency jobs

/-- What holds of workers and tables. -/
structure Crew.Sound (setup : Setup) (w : Crew) : Prop where
  consistent : w.queue.life.Consistent
  onTime : ∀ i < setup.size, OnTime setup w.clock i (w.hands i)
  leased : ∀ i < setup.size, ∀ job ∈ w.hands i,
    Leased w.queue.life job.runId job.taskId (job.claimedAt + setup.timeout i)
  apart : Apart w.hands
  idle : ∀ i, setup.size ≤ i → w.hands i = []
  awake : ∀ id ∈ w.delivered, Awake w.queue.life id
  once : w.delivered.Nodup

section

variable {setup : Setup} {clock timeout : Time} {jobs : List Job} {job : Job} {i n : ℕ}

theorem startJobs_zero (clock : Time) (jobs : List Job) :
  startJobs clock 0 jobs = jobs
  := by
  cases jobs <;> rfl

theorem startJobs_of_length_le (h : jobs.length ≤ n) :
  startJobs clock n jobs = jobs.map (Job.start clock)
  := by
  induction jobs generalizing n with
  | nil =>
      cases n <;> rfl
  | cons job jobs ih =>
      cases n with
      | zero => cases h
      | succ n =>
          rw [startJobs, List.map_cons, ih (Nat.le_of_succ_le_succ h)]

/-- Starting leaves the ids of the jobs as they are. -/
theorem map_ids_startJobs :
  (startJobs clock n jobs).map Job.ids = jobs.map Job.ids
  := by
  induction jobs generalizing n with
  | nil =>
      cases n <;> rfl
  | cons job jobs ih =>
      cases n with
      | zero => rfl
      | succ n =>
          rw [startJobs, List.map_cons, List.map_cons, ih]
          rfl

/-- A job after starting is a job before, with the same ids and the same claim. -/
theorem mem_startJobs (h : job ∈ startJobs clock n jobs) :
  ∃ job₀ ∈ jobs, job.ids = job₀.ids ∧ job.claimedAt = job₀.claimedAt
  := by
  induction jobs generalizing n with
  | nil => cases n <;> cases h
  | cons job₁ jobs ih =>
      cases n with
      | zero => exact ⟨job, h, rfl, rfl⟩
      | succ n =>
          rcases List.mem_cons.mp h with rfl | h
          · exact ⟨job₁, List.mem_cons_self, rfl, rfl⟩
          · obtain ⟨job₀, hjob₀, hids, hclaimed⟩ := ih h
            exact ⟨job₀, List.mem_cons_of_mem job₁ hjob₀, hids, hclaimed⟩

/-- A job that is on time was claimed before now, and its claim has not expired. -/
theorem OnTime.inTime (h : OnTime setup clock i jobs) (hjob : job ∈ jobs) :
  job.claimedAt ≤ clock ∧ clock < job.claimedAt + setup.timeout i
  := by
  rw [OnTime] at h
  split at h
  · cases jobs with
    | nil => cases hjob
    | cons first jobs =>
        obtain ⟨t, -, hclaimed, hclock, hrest, hsum⟩ := h
        have hclaim : job.claimedAt = first.claimedAt := by
          rcases List.mem_cons.mp hjob with rfl | hjob
          · rfl
          · exact (hrest job hjob).2
        rw [hclaim]
        use hclaimed
        apply lt_of_le_of_lt hclock
        apply lt_of_le_of_lt _ hsum
        rw [List.map_cons, List.sum_cons]
        apply Int.add_le_add_left
        exact Int.ofNat_le.mpr (Nat.le_add_right _ _)
  · obtain ⟨-, hclaimed, hclock, hshort⟩ := h.job job hjob
    use hclaimed
    apply lt_of_le_of_lt hclock
    exact Int.add_lt_add_left hshort _

theorem Job.start_of_started (h : job.startedAt.isSome) :
  job.start clock = job
  := by
  obtain ⟨t, ht⟩ := Option.isSome_iff_exists.mp h
  obtain ⟨runId, taskId, duration, claimedAt, startedAt⟩ := job
  obtain rfl : startedAt = some t := ht
  rfl

/-- Nothing starts where all have started. -/
theorem startJobs_of_started (h : ∀ job ∈ jobs, job.startedAt.isSome) :
  startJobs clock n jobs = jobs
  := by
  induction jobs generalizing n with
  | nil => cases n <;> rfl
  | cons job jobs ih =>
      cases n with
      | zero => rfl
      | succ n =>
          rw [List.forall_mem_cons] at h
          rw [startJobs, ih h.2, Job.start_of_started h.1]

/-! ### Jobs on time -/

/-- A batch that is claimed when nothing is in hand. -/
theorem inSequence_startJobs
    (hjobs : ∀ job ∈ jobs, job.claimedAt = clock ∧ job.startedAt = none)
    (hsum : ((jobs.map Job.duration).sum : ℕ) < timeout) :
  InSequence clock timeout (startJobs clock 1 jobs)
  := by
  cases jobs with
  | nil => trivial
  | cons job jobs =>
      rw [List.forall_mem_cons] at hjobs
      obtain ⟨⟨hclaimed, hwaits⟩, hrest⟩ := hjobs
      rw [startJobs, startJobs_zero]
      refine ⟨clock, ?_, hclaimed.le, ?_, ?_, ?_⟩
      · rw [Job.start, hwaits]
        rfl
      · exact Int.le_add_of_nonneg_right (Int.natCast_nonneg _)
      · intro job' hjob'
        exact ⟨(hrest job' hjob').2, (hrest job' hjob').1.trans hclaimed.symm⟩
      · change clock + _ < job.claimedAt + timeout
        rw [hclaimed]
        exact Int.add_lt_add_left hsum clock

/-- Only the first job of a batch has started. -/
theorem InSequence.index_eq_zero {m : ℕ} (h : InSequence clock timeout jobs)
    (hjob : jobs[m]? = some job) (hstarted : job.startedAt.isSome) :
  m = 0
  := by
  cases jobs with
  | nil => cases hjob
  | cons first jobs =>
      cases m with
      | zero => rfl
      | succ m =>
          obtain ⟨t, -, -, -, hrest, -⟩ := h
          rw [(hrest job (List.mem_of_getElem? hjob)).1] at hstarted
          cases hstarted

/-- When the first job of a batch is over, the next one starts. -/
theorem InSequence.next (h : InSequence clock timeout (job :: jobs))
    (hover : job.startedAt.any (fun t => clock = t + job.duration)) :
  InSequence clock timeout (startJobs clock 1 jobs)
  := by
  obtain ⟨t, hstarted, hclaimed, -, hrest, hsum⟩ := h
  rw [hstarted] at hover
  have hclock : clock = t + job.duration := of_decide_eq_true hover
  cases jobs with
  | nil => trivial
  | cons job' jobs =>
      rw [List.forall_mem_cons] at hrest
      obtain ⟨⟨hwaits, hclaim⟩, hrest⟩ := hrest
      rw [startJobs, startJobs_zero]
      refine ⟨clock, ?_, hclaim.le.trans hclaimed, ?_, ?_, ?_⟩
      · rw [Job.start, hwaits]
        rfl
      · exact Int.le_add_of_nonneg_right (Int.natCast_nonneg _)
      · intro job'' hjob''
        exact ⟨(hrest job'' hjob'').1, (hrest job'' hjob'').2.trans hclaim.symm⟩
      · change clock + _ < job'.claimedAt + timeout
        rw [hclaim, hclock, add_assoc]
        rwa [List.map_cons, List.sum_cons, Nat.cast_add] at hsum

/-- Jobs that are claimed beside others, up to as many as there are slots. -/
theorem AtOnce.append {concurrency : ℤ} {new : List Job}
    (h : AtOnce clock timeout concurrency jobs)
    (hnew : ∀ job ∈ new, job.claimedAt = clock ∧ job.startedAt = none
      ∧ (job.duration : ℤ) < timeout)
    (hlength : (jobs.length + new.length : ℤ) ≤ concurrency) :
  AtOnce clock timeout concurrency (startJobs clock concurrency.toNat (jobs ++ new))
  := by
  have hslots : (jobs ++ new).length ≤ concurrency.toNat := by
    rw [List.length_append]
    omega
  rw [startJobs_of_length_le hslots]
  constructor
  · rw [List.length_map, List.length_append, Nat.cast_add]
    exact hlength
  · intro job hjob
    obtain ⟨job₀, hjob₀, rfl⟩ := List.mem_map.mp hjob
    rcases List.mem_append.mp hjob₀ with hold | hnewer
    · have hon := h.job job₀ hold
      rwa [Job.start_of_started (by rw [hon.1]; rfl)]
    · obtain ⟨hclaimed, hwaits, hshort⟩ := hnew job₀ hnewer
      refine ⟨?_, hclaimed.le, ?_, hshort⟩
      · change job₀.startedAt.or (some clock) = some job₀.claimedAt
        rw [hwaits, hclaimed]
        rfl
      · change clock ≤ job₀.claimedAt + _
        rw [hclaimed]
        exact Int.le_add_of_nonneg_right (Int.natCast_nonneg _)

/-- When a job is over, the others go on. -/
theorem AtOnce.eraseIdx {concurrency : ℤ}
    (h : AtOnce clock timeout concurrency jobs) (m : ℕ) :
  AtOnce clock timeout concurrency (startJobs clock n (jobs.eraseIdx m))
  := by
  have hstarted : ∀ job ∈ jobs.eraseIdx m, job.startedAt.isSome := by
    intro job hjob
    rw [(h.job job (List.mem_of_mem_eraseIdx hjob)).1]
    rfl
  rw [startJobs_of_started hstarted]
  constructor
  · exact (Int.ofNat_le.mpr (List.eraseIdx_sublist jobs m).length_le).trans h.length
  · exact fun job hjob => h.job job (List.mem_of_mem_eraseIdx hjob)

/-- Time that passes, but not beyond the end of a body. -/
theorem OnTime.tick {t : Time} (h : OnTime setup clock i jobs) (hle : clock ≤ t)
    (ht : ∀ job ∈ jobs, job.startedAt.all
      (fun σ => decide (t ≤ σ + job.duration))) :
  OnTime setup t i jobs
  := by
  rw [OnTime] at h ⊢
  split at h
  · rename_i hone
    rw [if_pos hone]
    cases jobs with
    | nil => trivial
    | cons job jobs =>
        obtain ⟨σ, hstarted, hclaimed, -, hrest, hsum⟩ := h
        have hend := ht job List.mem_cons_self
        rw [hstarted] at hend
        exact ⟨σ, hstarted, hclaimed.trans hle, of_decide_eq_true hend, hrest, hsum⟩
  · rename_i hmany
    rw [if_neg hmany]
    use h.length
    intro job hjob
    obtain ⟨hstarted, hclaimed, -, hshort⟩ := h.job job hjob
    have hend := ht job hjob
    rw [hstarted] at hend
    exact ⟨hstarted, hclaimed.trans hle, of_decide_eq_true hend, hshort⟩

/-- A job that is over leaves the others on time. -/
theorem OnTime.eraseIdx {m : ℕ} (h : OnTime setup clock i jobs) (hjob : jobs[m]? = some job)
    (hover : job.startedAt.any (fun t => clock = t + job.duration)) :
  OnTime setup clock i (startJobs clock (setup.options i).slots (jobs.eraseIdx m))
  := by
  rw [OnTime] at h ⊢
  split at h
  · rename_i hone
    have hstarted : job.startedAt.isSome := by
      cases hat : job.startedAt with
      | none =>
          rw [hat] at hover
          cases hover
      | some t => rfl
    obtain rfl := h.index_eq_zero hjob hstarted
    rw [if_pos hone, WorkerOptions.slots, if_pos hone]
    cases jobs with
    | nil => trivial
    | cons first jobs =>
        obtain rfl := Option.some.inj hjob
        exact h.next hover
  · rename_i hmany
    rw [if_neg hmany]
    exact h.eraseIdx m

/-- A claim leaves the jobs of its worker on time. -/
theorem OnTime.append {qty : ℤ} {new : List Job} (h : OnTime setup clock i jobs)
    (hqty : (setup.options i).claimQty jobs.length = some qty)
    (hnew : ∀ job ∈ new, job.claimedAt = clock ∧ job.startedAt = none
      ∧ (job.duration : ℤ) < setup.timeout i)
    (hsum : (setup.options i).concurrency ≤ 1 →
      ((new.map Job.duration).sum : ℕ) < setup.timeout i)
    (hlength : (new.length : ℤ) ≤ max qty 1) :
  OnTime setup clock i (startJobs clock (setup.options i).slots (jobs ++ new))
  := by
  rw [OnTime] at h ⊢
  rw [WorkerOptions.claimQty] at hqty
  rw [WorkerOptions.slots]
  split at hqty
  · rename_i hone
    split at hqty
    · rename_i hnone
      obtain rfl := List.eq_nil_of_length_eq_zero hnone
      rw [if_pos hone, if_pos hone]
      exact inSequence_startJobs (fun job hjob => ⟨(hnew job hjob).1, (hnew job hjob).2.1⟩)
        (hsum hone)
    · cases hqty
  · rename_i hmany
    rw [if_neg hmany] at h
    rw [if_neg hmany, if_neg hmany]
    extract_lets capacity at hqty
    split at hqty
    · cases hqty
    · rename_i hcapacity
      obtain rfl := Option.some.inj hqty
      apply h.append hnew
      omega

/-! ### Jobs apart -/

theorem Differ.symm {ids ids' : Uuid × Uuid} (h : Differ ids ids') :
  Differ ids' ids
  := ⟨h.1.symm, h.2.symm⟩

/-- The jobs of one worker change. -/
theorem Apart.update {hands : ℕ → List Job} (h : Apart hands)
    (hwithin : (jobs.map Job.ids).Pairwise Differ)
    (hacross : ∀ i', i' ≠ i → ∀ job ∈ jobs, ∀ job' ∈ hands i', Differ job.ids job'.ids) :
  Apart (Function.update hands i jobs)
  := by
  constructor
  · intro i'
    by_cases hi : i' = i
    · subst hi
      rwa [Function.update_self]
    · rw [Function.update_of_ne hi]
      exact h.within i'
  · intro i₁ i₂ hne job₁ hjob₁ job₂ hjob₂
    by_cases hi₁ : i₁ = i
    · subst hi₁
      rw [Function.update_self] at hjob₁
      rw [Function.update_of_ne hne.symm] at hjob₂
      exact hacross i₂ hne.symm job₁ hjob₁ job₂ hjob₂
    · rw [Function.update_of_ne hi₁] at hjob₁
      by_cases hi₂ : i₂ = i
      · subst hi₂
        rw [Function.update_self] at hjob₂
        exact (hacross i₁ hi₁ job₂ hjob₂ job₁ hjob₁).symm
      · rw [Function.update_of_ne hi₂] at hjob₂
        exact h.across i₁ i₂ hne job₁ hjob₁ job₂ hjob₂

/-- A run is in hand once. -/
theorem Apart.eq_of_runId {hands : ℕ → List Job} {i' : ℕ} {job' : Job} (h : Apart hands)
    (hjob : job ∈ hands i) (hjob' : job' ∈ hands i') (hrun : job.runId = job'.runId) :
  i = i' ∧ job = job'
  := by
  by_cases hi : i = i'
  · subst hi
    use rfl
    have hnodup : ((hands i).map Job.runId).Nodup := by
      apply List.pairwise_map.mpr
      exact (List.pairwise_map.mp (h.within i)).imp (fun hdiffer => hdiffer.1)
    exact List.inj_on_of_nodup_map hnodup hjob hjob' hrun
  · exact absurd hrun (h.across i i' hi job hjob job' hjob').1

/-- A job and another one of its worker are of two runs and of two tasks. -/
theorem differ_of_mem_eraseIdx {m : ℕ} {job' : Job} (h : (jobs.map Job.ids).Pairwise Differ)
    (hjob : jobs[m]? = some job) (hjob' : job' ∈ jobs.eraseIdx m) :
  Differ job.ids job'.ids
  := by
  obtain ⟨m', hne, hm'⟩ := List.mem_eraseIdx_iff_getElem?.mp hjob'
  have hpair := List.pairwise_map.mp h
  rw [List.pairwise_iff_getElem] at hpair
  obtain ⟨hlt, rfl⟩ := List.getElem?_eq_some_iff.mp hjob
  obtain ⟨hlt', rfl⟩ := List.getElem?_eq_some_iff.mp hm'
  rcases Nat.lt_or_gt_of_ne hne with hbefore | hafter
  · exact (hpair m' m hlt' hlt hbefore).symm
  · exact hpair m m' hlt hlt' hafter

/-- The job of a run that a claim took. -/
theorem mem_newJobs {s : QueueState} {duration : Uuid → ℕ} {claimed : List Uuid}
    (h : job ∈ claimed.filterMap (newJob s clock duration)) :
  job.runId ∈ claimed ∧ job.claimedAt = clock ∧ job.startedAt = none
    ∧ job.duration = duration job.runId
    ∧ ∃ r ∈ s.runs.rows, r.runId = job.runId ∧ r.taskId = job.taskId
  := by
  obtain ⟨id, hid, hjob⟩ := List.mem_filterMap.mp h
  obtain ⟨r, hr, rfl⟩ := Option.map_eq_some_iff.mp hjob
  obtain rfl := Keyed.Table.key_of_get? hr
  exact ⟨hid, rfl, rfl, rfl, r, Keyed.Table.mem_of_get? hr, rfl, rfl⟩

/-- Every run that a claim took has a job. -/
theorem map_runId_newJobs {s : QueueState} {duration : Uuid → ℕ} {claimed : List Uuid}
    (h : ∀ id ∈ claimed, ∃ r, s.runs.get? id = some r) :
  (claimed.filterMap (newJob s clock duration)).map Job.runId = claimed
  := by
  induction claimed with
  | nil => rfl
  | cons id claimed ih =>
      rw [List.forall_mem_cons] at h
      obtain ⟨⟨r, hr⟩, hrest⟩ := h
      have hjob : newJob s clock duration id
          = some ⟨r.runId, r.taskId, duration r.runId, clock, none⟩ := by
        rw [newJob, hr]
        rfl
      obtain rfl := Keyed.Table.key_of_get? hr
      rw [List.filterMap_cons_some hjob, List.map_cons, ih hrest]

end

end DjangoAbsurd.Worker
