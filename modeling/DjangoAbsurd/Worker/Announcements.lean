import DjangoAbsurd.Engine.Leases
import DjangoAbsurd.Observability
import DjangoAbsurd.Worker.Drain

/-!
# Announcing a failure

A handler whose task raises on the last attempt sends `task_finished` with the status
`FAILED`, and only then the worker calls `absurd.fail_run`. In between the worker may die, and
handlers of the same run may be left over from claims that expired or from suspensions whose
acknowledgement was lost. `worldMachine` has the tables of a queue and the handlers of all
workers, which go on one step at a time.
-/

namespace DjangoAbsurd.Worker

open Engine

/-! ### Handlers -/

/-- How far a handler is: its task executes, or has returned, and the run is to be completed,
or has raised, and the run is to be failed. -/
inductive Phase where
  | executing
  | returned
  | raised
  | over
  deriving DecidableEq

/-- In this phase the run may yet be completed or suspended. -/
def Phase.holds : Phase → Bool
  | .executing | .returned => true
  | .raised | .over => false

/-- The handler of a claimed run, with what it was given by the claim. -/
structure Execution where
  runId : Uuid
  taskId : Uuid
  taskName : String
  attempt : ℤ
  maxAttempts : Option ℤ
  phase : Phase

/-- The row a claim returns for a run. -/
def deliver (s : QueueState) (id : Uuid) : Option Execution :=
  match s.runs.get? id with
  | none => none
  | some r =>
      (s.tasks.get? r.taskId).map (fun t =>
        { runId := r.runId, taskId := r.taskId, taskName := t.taskName, attempt := r.attempt,
          maxAttempts := t.maxAttempts, phase := .executing })

/-- The handler sends `task_finished` for an exception of its task, which is no wrapper's. -/
def Execution.announces (e : Execution) (x : Exc) : Bool :=
  !endsWith e.taskName deferNameSuffix && x.isException && !x.endsRun
    && isTerminalAttempt e.attempt e.maxAttempts

/-- The phase after an exception. The worker fails the run for an `Exception` that is not
Absurd's own. -/
def Phase.afterRaise (x : Exc) : Phase :=
  if x.isException && !x.endsRun then .raised else .over

/-- The calls by which a handler suspends its run. -/
inductive Suspension where
  | sleep (wakeAt : WithTop Time)
  | await (now : Time) (stepName eventName : String) (timeout : Option ℤ)

/-- The call, for the run of a handler. -/
def Suspension.label (e : Execution) : Suspension → Engine.Label
  | .sleep wakeAt => .schedule e.runId wakeAt
  | .await now stepName eventName timeout =>
      .await now e.taskId e.runId stepName eventName timeout

/-- The call tells the handler to suspend. -/
def Suspension.suspends (s : QueueState) (e : Execution) : Suspension → Bool
  | .sleep _ => true
  | .await now stepName eventName timeout =>
      match awaitEvent s now e.taskId e.runId stepName eventName timeout with
      | .ok (_, suspend, _) => suspend
      | .error _ => false

/-! ### Handlers and tables -/

/-- The tables of a queue, the handlers of all deliveries so far, and the tasks that were
announced as failed. -/
structure World where
  queue : QueueState
  executions : List Execution
  announced : List Uuid

/-- The queue as it is created. -/
def World.create (storage : StorageMode) : World := ⟨.create storage, [], []⟩

/-- The calls anyone may make. An operator's `retry_task` is none of them, and a run is
completed, failed and suspended by its handlers. -/
def AnyonesCall : Engine.Label → Bool
  | .claim _ _ _ _ | .complete _ _ _ | .schedule _ _ | .fail _ _ _ _ | .retry _ _ _ _
  | .await _ _ _ _ _ _ => false
  | _ => true

/-- The steps. Handlers are named by their place in the order of the deliveries. -/
inductive Act where
  | call (l : Engine.Label)
  | claim (now : Time) (worker : String) (claimTimeout qty : ℤ)
  | suspends (i : ℕ) (call : Suspension) (acknowledged : Bool)
  | returns (i : ℕ)
  | raises (i : ℕ) (x : Exc)
  | stops (i : ℕ)
  | completes (i : ℕ) (now : Time) (payload : Option Json)
  | fails (i : ℕ) (now : Time) (reason : Json) (retryAt : Option Time)

namespace World

/-- A handler in one of the phases makes a call, or none, and comes to another phase. -/
def handle (pg : Postgres) (w : World) (i : ℕ) (phases : List Phase)
    (call : Execution → Option Engine.Label) (next : Execution → Phase) : Option World :=
  match w.executions[i]? with
  | none => none
  | some e =>
      if e.phase ∈ phases then
        let queue? :=
          match call e with
          | none => some w.queue
          | some l => Engine.step pg w.queue l
        queue?.map (fun s =>
          { w with queue := s, executions := w.executions.set i { e with phase := next e } })
      else none

/-- The tasks announced as failed when a handler raises. -/
def announcements (w : World) (i : ℕ) (x : Exc) : List Uuid :=
  match w.executions[i]? with
  | none => []
  | some e => if e.announces x then [e.taskId] else []

/-- One step. A suspension that is not acknowledged, or whose exception the task keeps to
itself, leaves the handler executing. -/
def step (pg : Postgres) (w : World) : Act → Option World
  | .call l =>
      if AnyonesCall l then (Engine.step pg w.queue l).map (fun s => { w with queue := s })
      else none
  | .claim now worker claimTimeout qty =>
      match claimTask pg w.queue now worker claimTimeout qty with
      | .error _ => none
      | .ok (s, claimed) =>
          some { w with queue := s, executions := w.executions ++ claimed.filterMap (deliver s) }
  | .suspends i call acknowledged =>
      w.handle pg i [.executing] (fun e => some (call.label e)) (fun e =>
        if acknowledged ∧ call.suspends w.queue e then .over else .executing)
  | .returns i => w.handle pg i [.executing] (fun _ => none) (fun _ => .returned)
  | .raises i x =>
      (w.handle pg i [.executing] (fun _ => none) (fun _ => .afterRaise x)).map (fun w' =>
        { w' with announced := w.announced ++ w.announcements i x })
  | .stops i =>
      w.handle pg i [.executing, .returned, .raised] (fun _ => none) (fun _ => .over)
  | .completes i now payload =>
      w.handle pg i [.returned] (fun e => some (.complete now e.runId payload)) (fun _ => .over)
  | .fails i now reason retryAt =>
      w.handle pg i [.returned, .raised] (fun e => some (.fail now e.runId reason retryAt))
        (fun _ => .over)

/-- How often runs of a task were claimed. -/
def deliveries (w : World) (id : Uuid) : ℕ := (w.executions.map Execution.taskId).count id

end World

/-- Handlers and tables as a machine. -/
def worldMachine (pg : Postgres) : Machine World Act := ⟨World.step pg⟩

/-- The step announces no failure while the run of the handler is suspended, or while another
handler may yet complete or suspend it. -/
def AnnouncesAlone (w : World) : Act → Prop
  | .raises i x => ∀ e, w.executions[i]? = some e → e.phase = .executing → e.announces x = true →
      ∀ r ∈ w.queue.runs.rows, r.runId = e.runId → r.Active →
        r.state = .running ∧ ∀ j e', w.executions[j]? = some e' → e'.runId = e.runId →
          e'.phase.holds = true → j = i
  | _ => True

/-- The handler's last attempt is the one after which `absurd.fail_run` makes no other. -/
theorem isTerminalAttempt_iff (attempt : ℤ) (maxAttempts : Option ℤ) :
  isTerminalAttempt attempt maxAttempts = true ↔ LastAttempt maxAttempts attempt
  := by
  cases maxAttempts with
  | none => exact Iff.rfl
  | some n =>
      rw [isTerminalAttempt, LastAttempt, Option.any_some, Option.any_some, decide_eq_true_eq,
        decide_eq_true_eq, Int.lt_add_one_iff]

/-! ### What holds of the handlers -/

/-- A handler may yet complete or suspend the run. -/
def HeldBy (executions : List Execution) (runId : Uuid) : Prop :=
  ∃ e ∈ executions, e.runId = runId ∧ e.phase.holds = true

/-- The run of a handler is as the claim returned it, as long as its task is there. -/
structure Execution.Known (k : Lifecycle) (e : Execution) : Prop where
  runDrawn : e.runId.index < k.drawn
  taskDrawn : e.taskId.index < k.drawn
  run : ∀ r ∈ k.runs.rows, r.runId = e.runId → r.taskId = e.taskId ∧ r.attempt = e.attempt
  task : ∀ t ∈ k.tasks.rows, t.taskId = e.taskId →
    t.maxAttempts = e.maxAttempts ∧ ∃ r ∈ k.runs.rows, r.runId = e.runId

/-- The tables agree with the handlers, and the announced tasks are over. -/
structure Accounted (executions : List Execution) (announced : List Uuid) (k : Lifecycle) :
    Prop where
  consistent : k.Consistent
  spent : k.Spent
  known : ∀ e ∈ executions, e.Known k
  closing : ∀ id ∈ announced, k.Closing (HeldBy executions) id

/-- The tables stay in agreement, and no announced task is completed meanwhile. -/
def Stays (executions : List Execution) (announced : List Uuid) (k k' : Lifecycle) : Prop :=
  Accounted executions announced k →
    Accounted executions announced k' ∧ ∀ id ∈ announced, k'.Completed id → k.Completed id

section

variable {pg : Postgres} {E : List Execution} {A : List Uuid} {k k₁ k₂ k₃ : Lifecycle}
  {s s' : QueueState} {c : Change} {e : Execution}

theorem known_apply {held : Uuid → Prop} (h : k.Consistent) (hc : c.Allowed k)
    (hnumbered : c.Numbered) (hby : c.By held) (hknown : e.Known k) :
  e.Known (c.apply k)
  where
  runDrawn := hknown.runDrawn.trans_le (Change.drawn_le_apply hc)
  taskDrawn := hknown.taskDrawn.trans_le (Change.drawn_le_apply hc)
  run r' hr' hrun := by
    rcases Change.mem_runs_apply hr' with ⟨r, hr, rfl⟩ | hadded
    · rw [Change.taskId_run, Change.attempt_run hnumbered]
      rw [Change.runId_run] at hrun
      exact hknown.run r hr hrun
    · have hdrawn := (Change.added_fresh hc hadded).1
      rw [hrun] at hdrawn
      exact absurd hknown.runDrawn (not_lt.mpr hdrawn)
  task t' ht' hid := by
    rcases Change.mem_tasks_apply ht' with ⟨t, ht, rfl⟩ | ⟨now, rfl⟩
    · have hid' : t.taskId = e.taskId :=
        (TaskRow.eq_of_origin (Change.origin_task k c t)).1.symm.trans hid
      obtain ⟨hmax, r, hr, hrun⟩ := hknown.task t ht hid'
      constructor
      · rw [Change.maxAttempts_task hby, hmax]
      · have hspares : c.Spares r.taskId := by
          rw [(hknown.run r hr hrun).1, ← hid]
          exact spares_of_mem ht'
        use c.run r, run_mem_apply h hc hr hspares
        rw [Change.runId_run, hrun]
    · have hdrawn := hknown.taskDrawn
      rw [← hid, hc.1.taskId] at hdrawn
      exact absurd hdrawn (lt_irrefl _)

theorem Stays.refl : Stays E A k k := fun h => ⟨h, fun _ _ => id⟩

theorem Stays.trans (h : Stays E A k₁ k₂) (h' : Stays E A k₂ k₃) :
  Stays E A k₁ k₃
  := by
  intro h₁
  obtain ⟨h₂, hdone⟩ := h h₁
  obtain ⟨h₃, hdone'⟩ := h' h₂
  exact ⟨h₃, fun id hid hcompleted => hdone id hid (hdone' id hid hcompleted)⟩

/-- A change by the handlers. -/
theorem stays_apply (hc : c.Allowed k) (hnumbered : c.Numbered) (hleft : c.AttemptsLeft k)
    (hby : c.By (HeldBy E)) :
  Stays E A k (c.apply k)
  := by
  intro h
  constructor
  · exact {
      consistent := h.consistent.step (step_lifecycle.mpr ⟨hc, rfl⟩)
      spent := spent_apply h.consistent hc hnumbered hleft hby h.spent
      known := fun e he => known_apply h.consistent hc hnumbered hby (h.known e he)
      closing := fun id hid =>
        closing_apply h.consistent hc hnumbered hleft hby (h.closing id hid) }
  · intro id hid
    exact completed_of_closing h.consistent hc hby (h.closing id hid)

/-- A change by the handlers that fails no run, or fails it for good. -/
def Ordinary (E : List Execution) (c : Change) : Prop :=
  c.Numbered ∧ c.By (HeldBy E) ∧ ∀ k, c.AttemptsLeft k

theorem stays_lives (h : Lives (Ordinary E) s s') :
  Stays E A s.life s'.life
  := by
  apply h.invariant (I := fun k => Stays E A s.life k) _ .refl
  rintro k c ⟨hnumbered, hby, hleft⟩ hc hstays
  exact hstays.trans (stays_apply hc hnumbered (hleft k) hby)

/-! ### Calls -/

theorem stays_failRun {now : Time} {id : Uuid} {reason : Json} {retryAt : Option Time}
    (hs : failRun pg s now id reason retryAt = .ok s') :
  Stays E A s.life s'.life
  := by
  obtain ⟨c, ⟨hnumbered, hby⟩, hallowed, hleft, hlife⟩ :=
    failRun_eq_ok (P := fun c => c.Numbered ∧ c.By (HeldBy E))
      ⟨fun _ _ => ⟨trivial, trivial⟩, fun _ _ => ⟨trivial, trivial⟩,
        fun _ _ _ => ⟨trivial, trivial⟩⟩ hs
  rw [hlife]
  exact stays_apply hallowed hnumbered hleft hby

theorem stays_sweep {now : Time} {expired : List RunRow} (hs : sweep pg now expired s = .ok s') :
  Stays E A s.life s'.life
  := by
  induction expired generalizing s with
  | nil =>
      obtain rfl := Except.ok.inj hs
      exact .refl
  | cons r expired ih =>
      obtain ⟨s₁, hfail, hrest⟩ := Except.foldlM_cons_eq_ok.mp hs
      exact (stays_failRun hfail).trans (ih hrest)

theorem stays_cancels {now : Time} {due : List Uuid}
    (hs : due.foldlM (fun s id => cancelTask s now id) s = .ok s') :
  Stays E A s.life s'.life
  := by
  apply stays_lives
  apply Lives.foldlM _ hs
  intro s id _ s' hcancel
  exact refines_cancelTask ⟨trivial, trivial, fun _ => trivial⟩ hcancel

theorem lives_claims {now : Time} {worker : String} {claimUntil : Option Time} (limit : ℕ) :
  Lives (Ordinary E) s
    ((claimCandidates pg s now limit).foldl (markClaimed now worker claimUntil) s)
  := by
  apply refines_claimRuns _ (fun r hr => mem_claimCandidates hr) (nodup_claimCandidates _ _ _ _)
  exact fun _ => ⟨trivial, trivial, fun _ => trivial⟩

/-- A claim takes no run of an announced task. -/
theorem stays_claimTask {now : Time} {worker : String} {timeout qty : ℤ} {claimed : List Uuid}
    (hs : claimTask pg s now worker timeout qty = .ok (s', claimed)) :
  Stays E A s.life s'.life ∧ (Accounted E A s.life →
    ∀ id ∈ A, ∀ r ∈ s'.runs.rows, r.runId ∈ claimed → r.taskId ≠ id)
  := by
  obtain ⟨due, s₁, s₂, -, hcancelled, hsweep, rfl, rfl⟩ := claimTask_eq_ok hs
  have hswept : Stays E A s.life s₂.life := (stays_cancels hcancelled).trans (stays_sweep hsweep)
  have hlives : Lives (Ordinary E) s₂ ((claimCandidates pg s₂ now (max qty 1).toNat).foldl
      (markClaimed now (if worker = "" then "worker" else worker)
        (if 0 < timeout then some (now + seconds timeout) else none)) s₂) := lives_claims _
  use hswept.trans (stays_lives hlives)
  intro h id hid r hr hclaimed
  obtain ⟨h₂, -⟩ := hswept h
  obtain ⟨r₂, hr₂, hrun⟩ := List.mem_map.mp hclaimed
  obtain ⟨hrow, hwaits⟩ := mem_claimCandidates hr₂
  rcases mem_claims hr with ⟨-, hnot⟩ | ⟨r₀, hr₀, -, rfl⟩
  · exact absurd hclaimed hnot
  · have hother := taskId_ne_of_closing h₂.consistent (h₂.closing id hid) hrow hwaits
    rwa [← Keyed.Table.eq_of_key_eq hr₀ hrow hrun.symm] at hother

/-- The call completes and suspends no run but those of `held`, and neither claims runs nor
fails or retries any. -/
def CallsFor (held : Uuid → Prop) : Engine.Label → Prop
  | .schedule runId _ | .await _ _ runId _ _ _ | .complete _ runId _ => held runId
  | .claim _ _ _ _ | .fail _ _ _ _ | .retry _ _ _ _ => False
  | _ => True

theorem CallsFor.makes {held : Uuid → Prop} {l : Engine.Label} (hl : CallsFor held l)
    (hmake : l.Makes c) :
  c.By held ∧ ∀ k, c.AttemptsLeft k
  := by
  cases c with
  | park r _ =>
      refine ⟨?_, fun _ => trivial⟩
      rcases hmake with ⟨_, rfl⟩ | ⟨_, _, _, _, rfl⟩
      all_goals exact hl
  | complete _ r _ =>
      obtain rfl := hmake
      exact ⟨hl, fun _ => trivial⟩
  | retry _ t _ =>
      obtain ⟨_, rfl⟩ := hmake
      exact hl.elim
  | failRetried =>
      rcases hmake with ⟨_, rfl⟩ | ⟨_, _, _, rfl⟩
      all_goals exact hl.elim
  | _ => exact ⟨trivial, fun _ => trivial⟩

theorem callsFor_of_anyones {held : Uuid → Prop} {l : Engine.Label} (hl : AnyonesCall l) :
  CallsFor held l
  := by
  cases l with
  | claim | complete | schedule | fail | retry | await => cases hl
  | _ => exact trivial

theorem callsFor_suspension {held : Uuid → Prop} (call : Suspension) (he : held e.runId) :
  CallsFor held (call.label e)
  := by
  cases call <;> exact he

theorem stays_call {l : Engine.Label} (hl : CallsFor (HeldBy E) l) (hs : Engine.step pg s l = some s') :
  Stays E A s.life s'.life
  := by
  obtain ⟨cs, hrun, hcs⟩ := numbered_step hs
  apply stays_lives
  use cs, hrun
  intro c hc
  obtain ⟨hmake, hnumbered⟩ := hcs c hc
  exact ⟨hnumbered, hl.makes hmake⟩

/-! ### Steps -/

/-- A handler comes to another phase. -/
theorem heldBy_set {i : ℕ} {phase : Phase} {runId : Uuid} (he : E[i]? = some e)
    (hphase : phase.holds = true → e.phase.holds = true)
    (h : HeldBy (E.set i { e with phase }) runId) :
  HeldBy E runId
  := by
  obtain ⟨e', he', hrun, hholds⟩ := h
  rcases List.mem_or_eq_of_mem_set he' with he' | rfl
  · exact ⟨e', he', hrun, hholds⟩
  · exact ⟨e, List.mem_of_getElem? he, hrun, hphase hholds⟩

theorem Accounted.set (h : Accounted E A k) {i : ℕ} {phase : Phase} (he : E[i]? = some e)
    (hphase : phase.holds = true → e.phase.holds = true) :
  Accounted (E.set i { e with phase }) A k
  where
  consistent := h.consistent
  spent := h.spent
  known e' he' := by
    rcases List.mem_or_eq_of_mem_set he' with he' | rfl
    · exact h.known e' he'
    · obtain ⟨hrun, htask, hrow, hterms⟩ := h.known e (List.mem_of_getElem? he)
      exact ⟨hrun, htask, hrow, hterms⟩
  closing id hid := by
    obtain ⟨hdrawn, hclosing⟩ := h.closing id hid
    use hdrawn
    intro t ht hown
    rcases hclosing t ht hown with hterminal | ⟨r, hr, hrun, hrunning, hlast, hfree⟩
    · exact .inl hterminal
    · exact .inr ⟨r, hr, hrun, hrunning, hlast, fun hheld => hfree (heldBy_set he hphase hheld)⟩

end

/-- What holds of handlers and tables. -/
def World.Sound (w : World) : Prop := Accounted w.executions w.announced w.queue.life

section

variable {pg : Postgres} {w w' : World} {a : Act} {i : ℕ} {phases : List Phase}
  {call : Execution → Option Engine.Label} {next : Execution → Phase}

/-- A step of a handler. -/
theorem handle_eq_some (h : w.handle pg i phases call next = some w') :
  ∃ e s, w.executions[i]? = some e ∧ e.phase ∈ phases
    ∧ (call e = none ∧ s = w.queue ∨ ∃ l, call e = some l ∧ Engine.step pg w.queue l = some s)
    ∧ w' = { w with queue := s, executions := w.executions.set i { e with phase := next e } }
  := by
  rw [World.handle] at h
  split at h
  · cases h
  · rename_i e he
    split at h
    · rename_i hphase
      obtain ⟨s, hs, rfl⟩ := Option.map_eq_some_iff.mp h
      refine ⟨e, s, he, hphase, ?_, rfl⟩
      split at hs
      · rename_i hcall
        exact .inl ⟨hcall, (Option.some.inj hs).symm⟩
      · rename_i l hcall
        exact .inr ⟨l, hcall, hs⟩
    · cases h

/-- The step announces nothing new, delivers no announced task and completes none. -/
structure Continues (w w' : World) : Prop where
  sound : w'.Sound
  announced : ∀ id ∈ w.announced, id ∈ w'.announced
  completed : ∀ id ∈ w.announced, w'.queue.life.Completed id → w.queue.life.Completed id
  deliveries : ∀ id ∈ w.announced, w'.deliveries id = w.deliveries id

theorem map_taskId_set {E : List Execution} {e : Execution} {phase : Phase} (he : E[i]? = some e) :
  (E.set i { e with phase }).map Execution.taskId = E.map Execution.taskId
  := by
  obtain ⟨hi, rfl⟩ := List.getElem?_eq_some_iff.mp he
  have hi' : i < (E.map Execution.taskId).length := by simpa using hi
  have hself := List.set_getElem_self hi'
  rw [List.map_set]
  rwa [List.getElem_map] at hself

/-- A handler goes on, and announces nothing. -/
theorem continues_handle (hw : w.Sound) (h : w.handle pg i phases call next = some w')
    (hnext : ∀ e, w.executions[i]? = some e → e.phase ∈ phases →
      (next e).holds = true → e.phase.holds = true)
    (hcall : ∀ e l s, w.executions[i]? = some e → e.phase ∈ phases → call e = some l →
      Engine.step pg w.queue l = some s →
      Stays w.executions w.announced w.queue.life s.life) :
  Continues w w'
  := by
  obtain ⟨e, s, he, hphase, hs, rfl⟩ := handle_eq_some h
  have hstays : Stays w.executions w.announced w.queue.life s.life := by
    rcases hs with ⟨-, rfl⟩ | ⟨l, hl, hs⟩
    · exact .refl
    · exact hcall e l s he hphase hl hs
  obtain ⟨hsound, hcompleted⟩ := hstays hw
  exact {
    sound := hsound.set he (hnext e he hphase)
    announced := fun _ hid => hid
    completed := hcompleted
    deliveries := fun id _ => congrArg (List.count id) (map_taskId_set he) }

theorem deliver_eq_some {s : QueueState} {runId : Uuid} {e : Execution}
    (h : deliver s runId = some e) :
  ∃ r ∈ s.runs.rows, ∃ t ∈ s.tasks.rows, r.runId = runId ∧ t.taskId = r.taskId
    ∧ e.runId = r.runId ∧ e.taskId = r.taskId ∧ e.attempt = r.attempt
    ∧ e.maxAttempts = t.maxAttempts
  := by
  rw [deliver] at h
  split at h
  · cases h
  · rename_i r hr
    obtain ⟨t, ht, rfl⟩ := Option.map_eq_some_iff.mp h
    exact ⟨r, Keyed.Table.mem_of_get? hr, t, Keyed.Table.mem_of_get? ht, Keyed.Table.key_of_get? hr,
      Keyed.Table.key_of_get? ht, rfl, rfl, rfl, rfl⟩

/-- What a claim delivers is as the tables have it. -/
theorem known_deliver {s : QueueState} {runId : Uuid} {e : Execution} (hs : s.life.Consistent)
    (h : deliver s runId = some e) :
  e.Known s.life
  := by
  obtain ⟨r, hr, t, ht, -, hown, hrun, htask, hattempt, hmax⟩ := deliver_eq_some h
  constructor
  · rw [hrun]
    exact hs.runDrawn r hr
  · rw [htask, ← hown]
    exact hs.taskDrawn t ht
  · intro r' hr' hrun'
    rw [Keyed.Table.eq_of_key_eq hr' hr (hrun'.trans hrun), htask, hattempt]
    exact ⟨rfl, rfl⟩
  · intro t' ht' hid
    constructor
    · rw [Keyed.Table.eq_of_key_eq ht' ht (hid.trans (htask.trans hown.symm)), hmax]
    · exact ⟨r, hr, hrun.symm⟩

/-- A claim. -/
theorem continues_claim {now : Time} {worker : String} {timeout qty : ℤ} (hw : w.Sound)
    (h : w.step pg (.claim now worker timeout qty) = some w') :
  Continues w w'
  := by
  rw [World.step] at h
  split at h
  · cases h
  · rename_i s claimed hclaim
    cases h
    obtain ⟨hstays, hother⟩ := stays_claimTask hclaim
    obtain ⟨hsound, hcompleted⟩ := hstays hw
    have hnew : ∀ e ∈ claimed.filterMap (deliver s), ∃ r ∈ s.runs.rows, r.runId ∈ claimed
        ∧ e.runId = r.runId ∧ e.taskId = r.taskId ∧ e.Known s.life := by
      intro e he
      obtain ⟨runId, hmem, hdeliver⟩ := List.mem_filterMap.mp he
      have hknown := known_deliver hsound.consistent hdeliver
      obtain ⟨r, hr, -, -, rfl, -, hrun, htask, -, -⟩ := deliver_eq_some hdeliver
      exact ⟨r, hr, hmem, hrun, htask, hknown⟩
    refine ⟨⟨hsound.consistent, hsound.spent, ?_, ?_⟩, fun _ hid => hid, hcompleted, ?_⟩
    · intro e he
      rcases List.mem_append.mp he with he | he
      · exact hsound.known e he
      · obtain ⟨-, -, -, -, -, hknown⟩ := hnew e he
        exact hknown
    · intro id hid
      obtain ⟨hdrawn, hclosing⟩ := hsound.closing id hid
      use hdrawn
      intro t ht hown
      rcases hclosing t ht hown with hterminal | ⟨r, hr, hrun, hrunning, hlast, hfree⟩
      · exact .inl hterminal
      · refine .inr ⟨r, hr, hrun, hrunning, hlast, ?_⟩
        rintro ⟨e, he, heq, hholds⟩
        rcases List.mem_append.mp he with he | he
        · exact hfree ⟨e, he, heq, hholds⟩
        · obtain ⟨r', -, hclaimed, hrun', -, -⟩ := hnew e he
          rw [← hrun', heq] at hclaimed
          exact hother hw id hid r hr hclaimed hrun
    · intro id hid
      have hnone : ((claimed.filterMap (deliver s)).map Execution.taskId).count id = 0 := by
        rw [List.count_eq_zero]
        intro hmem
        obtain ⟨e, he, rfl⟩ := List.mem_map.mp hmem
        obtain ⟨r, hr, hclaimed, -, htask, -⟩ := hnew e he
        exact hother hw _ hid r hr hclaimed htask.symm
      simp only [World.deliveries, List.map_append, List.count_append, hnone, Nat.add_zero]

theorem not_holds_afterRaise (x : Exc) :
  (Phase.afterRaise x).holds = false
  := by
  rw [Phase.afterRaise]
  split <;> rfl

/-- A task is over once its failure is announced, when no other handler may complete or suspend
its run. -/
theorem closing_announced {x : Exc} (hw : w.Sound) (halone : AnnouncesAlone w (.raises i x))
    {e : Execution} (he : w.executions[i]? = some e) (hexecuting : e.phase = .executing)
    (hannounces : e.announces x = true) :
  w.queue.life.Closing (HeldBy (w.executions.set i { e with phase := .afterRaise x })) e.taskId
  := by
  have hknown := hw.known e (List.mem_of_getElem? he)
  use hknown.taskDrawn
  intro t ht hown
  obtain ⟨hmax, r, hr, hrun⟩ := hknown.task t ht hown
  obtain ⟨htask, hattempt⟩ := hknown.run r hr hrun
  have hlast : LastAttempt t.maxAttempts r.attempt := by
    rw [hmax, hattempt, ← isTerminalAttempt_iff]
    exact (Bool.and_eq_true_iff.mp hannounces).2
  by_cases ha : r.Active
  · obtain ⟨hrunning, honly⟩ := halone e he hexecuting hannounces r hr hrun ha
    refine .inr ⟨r, hr, htask, hrunning, hlast, ?_⟩
    rintro ⟨e', he', heq, hholds⟩
    obtain ⟨j, hj⟩ := List.mem_iff_getElem?.mp he'
    by_cases hij : i = j
    · rw [← hij, List.getElem?_set_self (List.getElem?_eq_some_iff.mp he).1] at hj
      rw [← Option.some.inj hj] at hholds
      exact absurd hholds (Bool.eq_false_iff.mp (not_holds_afterRaise x))
    · rw [List.getElem?_set_ne hij] at hj
      exact hij (honly j e' hj (heq.trans hrun) hholds).symm
  · exact .inl (hw.spent r hr ha t ht (hown.trans htask.symm) hlast)

/-- A handler whose task raises. -/
theorem continues_raises {x : Exc} (hw : w.Sound) (halone : AnnouncesAlone w (.raises i x))
    (h : w.step pg (.raises i x) = some w') :
  Continues w w'
  := by
  obtain ⟨w₁, hhandle, rfl⟩ := Option.map_eq_some_iff.mp h
  have hcontinues : Continues w w₁ := by
    apply continues_handle hw hhandle
    · intro e _ _ hholds
      rw [not_holds_afterRaise] at hholds
      cases hholds
    · rintro e l s _ _ ⟨⟩
  obtain ⟨e, s, he, hphase, hs, rfl⟩ := handle_eq_some hhandle
  obtain rfl : s = w.queue := by
    rcases hs with ⟨-, rfl⟩ | ⟨l, hl, -⟩
    · rfl
    · cases hl
  obtain ⟨hsound, -, hcompleted, hdeliveries⟩ := hcontinues
  refine ⟨⟨hsound.consistent, hsound.spent, hsound.known, ?_⟩,
    fun id hid => List.mem_append_left _ hid, hcompleted, hdeliveries⟩
  intro id hid
  rcases List.mem_append.mp hid with hid | hnew
  · exact hsound.closing id hid
  · rw [World.announcements, he] at hnew
    dsimp only at hnew
    split at hnew
    · rename_i hannounces
      obtain rfl := List.mem_singleton.mp hnew
      exact closing_announced hw halone he (List.mem_singleton.mp hphase) hannounces
    · cases hnew

theorem holds_of_mem {e : Execution} {phase : Phase} (h : e.phase ∈ [phase])
    (hphase : phase.holds = true) :
  e.phase.holds = true
  := by
  rw [List.mem_singleton.mp h]
  exact hphase

/-- One step. -/
theorem continues_step (hw : w.Sound) (halone : AnnouncesAlone w a) (h : w.step pg a = some w') :
  Continues w w'
  := by
  have hheld : ∀ {i : ℕ} {e : Execution}, w.executions[i]? = some e → e.phase.holds = true →
      HeldBy w.executions e.runId :=
    fun he hholds => ⟨_, List.mem_of_getElem? he, rfl, hholds⟩
  cases a with
  | call l =>
      rw [World.step] at h
      split at h
      · rename_i hanyone
        obtain ⟨s, hs, rfl⟩ := Option.map_eq_some_iff.mp h
        obtain ⟨hsound, hcompleted⟩ := stays_call (callsFor_of_anyones hanyone) hs hw
        exact ⟨hsound, fun _ hid => hid, hcompleted, fun _ _ => rfl⟩
      · cases h
  | claim => exact continues_claim hw h
  | suspends i suspension acknowledged =>
      rw [World.step] at h
      apply continues_handle hw h
      · intro e _ hphase _
        exact holds_of_mem hphase rfl
      · rintro e l s he hphase hl hs
        cases hl
        exact stays_call (callsFor_suspension suspension (hheld he (holds_of_mem hphase rfl))) hs
  | returns i =>
      rw [World.step] at h
      apply continues_handle hw h
      · intro e _ hphase _
        exact holds_of_mem hphase rfl
      · rintro e l s _ _ ⟨⟩
  | raises i x => exact continues_raises hw halone h
  | stops i =>
      rw [World.step] at h
      apply continues_handle hw h
      · rintro e _ _ ⟨⟩
      · rintro e l s _ _ ⟨⟩
  | completes i now payload =>
      rw [World.step] at h
      apply continues_handle hw h
      · rintro e _ _ ⟨⟩
      · rintro e l s he hphase hl hs
        cases hl
        have hcalls : CallsFor (HeldBy w.executions) (.complete now e.runId payload) :=
          hheld he (holds_of_mem hphase rfl)
        exact stays_call hcalls hs
  | fails i now reason retryAt =>
      rw [World.step] at h
      apply continues_handle hw h
      · rintro e _ _ ⟨⟩
      · rintro e l s _ _ hl hs
        cases hl
        exact stays_failRun (Except.toOption_eq_some.mp hs)

theorem Continues.refl (hw : w.Sound) :
  Continues w w
  := ⟨hw, fun _ hid => hid, fun _ _ => id, fun _ _ => rfl⟩

theorem Continues.trans {w₁ w₂ w₃ : World} (h : Continues w₁ w₂) (h' : Continues w₂ w₃) :
  Continues w₁ w₃
  where
  sound := h'.sound
  announced id hid := h'.announced id (h.announced id hid)
  completed id hid hcompleted :=
    h.completed id hid (h'.completed id (h.announced id hid) hcompleted)
  deliveries id hid := (h'.deliveries id (h.announced id hid)).trans (h.deliveries id hid)

/-- Steps that announce failures alone. -/
theorem continues_run {as : List Act} (hw : w.Sound)
    (halone : (worldMachine pg).Along AnnouncesAlone w as)
    (hrun : (worldMachine pg).run w as = some w') :
  Continues w w'
  := by
  apply Machine.invariant_along (I := Continues w) _ halone (.refl hw) hrun
  intro w₁ a w₂ ha hcontinues hs
  exact hcontinues.trans (continues_step hcontinues.sound ha hs)

theorem sound_create (storage : StorageMode) :
  (World.create storage).Sound
  where
  consistent := Lifecycle.Consistent.create storage
  spent := spent_create storage
  known _ he := absurd he List.not_mem_nil
  closing _ hid := absurd hid List.not_mem_nil

/-- Take any steps from the creation of a queue, among which no failure is announced while the
run of the handler is suspended or another handler may yet complete or suspend it. A task whose
failure is announced is not completed afterwards if it was not, and no run of it is claimed. -/
theorem announced_failure_final {storage : StorageMode} {before after : List Act} {id : Uuid}
    (halone : (worldMachine pg).Along AnnouncesAlone (World.create storage) (before ++ after))
    (hbefore : (worldMachine pg).run (World.create storage) before = some w)
    (hafter : (worldMachine pg).run w after = some w') (hid : id ∈ w.announced) :
  (w'.queue.life.Completed id → w.queue.life.Completed id)
    ∧ w'.deliveries id = w.deliveries id
  := by
  obtain ⟨hfirst, hlast⟩ := halone.append hbefore
  have hw := (continues_run (sound_create storage) hfirst hbefore).sound
  have hcontinues := continues_run hw hlast hafter
  exact ⟨hcontinues.completed id hid, hcontinues.deliveries id hid⟩

end

/-! ### A suspension whose acknowledgement is lost -/

/-- A task that may be attempted once is spawned. -/
def onceSpawned : QueueState :=
  insertSpawned (.create .unpartitioned) 0
    (spawnedTask (.create .unpartitioned) 0 "tasks.add" bareCall ⟨none, none, some 1, none, none⟩)

/-- The handler of its run. -/
def onceExecution (phase : Phase) : Execution := ⟨⟨1⟩, ⟨0⟩, "tasks.add", 1, some 1, phase⟩

/-- The run sleeps for a minute. -/
def onceAsleep : QueueState := markScheduled onceClaimed (crashedRun ⟨1⟩ ⟨0⟩) (seconds 60 : Time)

/-- The run that sleeps. -/
def sleepingRun : RunRow := (RunRow.sleep (seconds 60 : Time)).apply (crashedRun ⟨1⟩ ⟨0⟩)

/-- The run is claimed again. -/
def onceReclaimed : QueueState :=
  markClaimed (seconds 60) "worker" (some (seconds 70)) onceAsleep sleepingRun

/-- What the driver raises when the connection is gone. -/
def connectionLost : Exc := .exception "OperationalError" "the connection is closed"

/-- Spawning the task and claiming its run. -/
def claimOnce : List Act :=
  [.call (.spawn 0 "tasks.add" bareCall (.obj [("max_attempts", .num ⟨1, 0⟩)])),
    .claim 0 "worker" 10 1]

theorem step_claimOnce :
  World.step plainPostgres ⟨onceSpawned, [], []⟩ (.claim 0 "worker" 10 1)
    = some ⟨onceClaimed, [onceExecution .executing], []⟩
  := by
  have hclaim : claimTask plainPostgres onceSpawned 0 "worker" 10 1 = .ok (onceClaimed, [⟨1⟩]) :=
    claimTask_one rfl rfl rfl
  rw [World.step, hclaim]
  rfl

theorem run_claimOnce :
  (worldMachine plainPostgres).run (.create .unpartitioned) claimOnce
    = some ⟨onceClaimed, [onceExecution .executing], []⟩
  := by
  apply Machine.run_cons.mpr
  use ⟨onceSpawned, [], []⟩, rfl
  apply Machine.run_cons.mpr
  exact ⟨_, step_claimOnce, rfl⟩

/-- The worker fails the run. -/
def onceFailed : QueueState := failForGood onceClaimed 1 (crashedRun ⟨1⟩ ⟨0⟩) .null

theorem along_raiseOnce :
  (worldMachine plainPostgres).Along AnnouncesAlone (.create .unpartitioned)
    (claimOnce ++ [.raises 0 connectionLost] ++ [.fails 0 1 .null none])
  := by
  apply (Machine.along_cons (show _ = some (⟨onceSpawned, [], []⟩ : World) from rfl)).mpr
  use trivial
  apply (Machine.along_cons step_claimOnce).mpr
  use trivial
  apply (Machine.along_cons (show _ = some
    (⟨onceClaimed, [onceExecution .raised], [⟨0⟩]⟩ : World) from rfl)).mpr
  constructor
  · intro e he _ _ r hr _ _
    obtain rfl : r = crashedRun ⟨1⟩ ⟨0⟩ := List.mem_singleton.mp hr
    use rfl
    intro j e' hj _ _
    cases j with
    | zero => rfl
    | succ j => cases hj
  · exact ⟨trivial, fun _ _ => trivial⟩

/-- A task that raised on its only attempt, and was failed. -/
theorem announced_failure_final_once :
  (onceFailed.life.Completed ⟨0⟩ → onceClaimed.life.Completed ⟨0⟩)
    ∧ (⟨onceFailed, [onceExecution .over], [⟨0⟩]⟩ : World).deliveries ⟨0⟩ = 1
  := by
  apply announced_failure_final (w := ⟨onceClaimed, [onceExecution .raised], [⟨0⟩]⟩)
    along_raiseOnce _ rfl (List.mem_singleton_self _)
  rw [Machine.run_append run_claimOnce]
  rfl

/-- The suspension goes through, and the handler is told that it did not. -/
def loseSleep : List Act := [.suspends 0 (.sleep (seconds 60 : Time)) false, .raises 0 connectionLost]

/-- The worker does not get to fail the run, which is claimed again and completed. -/
def wakeAgain : List Act :=
  [.stops 0, .claim (seconds 60) "worker" 10 1, .returns 1, .completes 1 (seconds 60) none]

theorem step_wakeAgain :
  World.step plainPostgres ⟨onceAsleep, [onceExecution .over], [⟨0⟩]⟩
      (.claim (seconds 60) "worker" 10 1)
    = some ⟨onceReclaimed, [onceExecution .over, onceExecution .executing], [⟨0⟩]⟩
  := by
  have hclaim : claimTask plainPostgres onceAsleep (seconds 60) "worker" 10 1
      = .ok (onceReclaimed, [⟨1⟩]) := claimTask_one rfl rfl rfl
  rw [World.step, hclaim]
  rfl

/-- An announced failure is not final. -/
theorem announced_failure_retracted :
  ¬ ∀ (pg : Postgres) (storage : StorageMode) (before after : List Act) (w w' : World) (id : Uuid),
    (worldMachine pg).run (World.create storage) before = some w →
      (worldMachine pg).run w after = some w' → id ∈ w.announced →
        (w'.queue.life.Completed id → w.queue.life.Completed id)
          ∧ w'.deliveries id = w.deliveries id
  := by
  intro h
  have hbefore : (worldMachine plainPostgres).run (.create .unpartitioned) (claimOnce ++ loseSleep)
      = some ⟨onceAsleep, [onceExecution .raised], [⟨0⟩]⟩ := by
    rw [Machine.run_append run_claimOnce]
    rfl
  have hafter : (worldMachine plainPostgres).run ⟨onceAsleep, [onceExecution .raised], [⟨0⟩]⟩
      wakeAgain = some ⟨markCompleted onceReclaimed (seconds 60)
        ((RunRow.claim (seconds 60) "worker" (some (seconds 70))).apply sleepingRun) none,
        [onceExecution .over, onceExecution .over], [⟨0⟩]⟩ := by
    apply Machine.run_cons.mpr
    use ⟨onceAsleep, [onceExecution .over], [⟨0⟩]⟩, rfl
    apply Machine.run_cons.mpr
    exact ⟨_, step_wakeAgain, rfl⟩
  obtain ⟨-, hdeliveries⟩ := h _ _ _ _ _ _ ⟨0⟩ hbefore hafter (List.mem_singleton_self _)
  cases hdeliveries

end DjangoAbsurd.Worker
