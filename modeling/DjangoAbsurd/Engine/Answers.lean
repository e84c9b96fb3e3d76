import DjangoAbsurd.Engine.Cancellation

/-!
# What is answered for a task

`absurd.get_task_result` answers with what a worker reported: for a completed task with the
payload its last run was completed with, for a failed one with the reason its last run failed
for. Once a task is over the answer stands (`answer_stands`), and no worker can change it.
-/

namespace DjangoAbsurd.Engine

/-- What `absurd.get_task_result` returns for a task. -/
structure TaskAnswer where
  taskId : Uuid
  state : TaskState
  result : Option Json
  failureReason : Option Json
deriving DecidableEq

/-- `absurd.get_task_result`, which returns no row for a task that is not there. -/
def getTaskResult (s : QueueState) (id : Uuid) : Option TaskAnswer :=
  (s.tasks.get? id).map fun t =>
    let r? := t.lastAttemptRun.bind s.runs.get?
    { taskId := t.taskId
      state := t.state
      result := if t.state = .completed then t.completedPayload else none
      failureReason := if t.state = .failed then r?.bind RunRow.failureReason else none }

section

variable {pg : Postgres} {s s' : QueueState} {ls : List Label} {t : TaskRow} {r : RunRow}

/-! ### What workers reported -/

/-- The reports of workers are kept: a run that failed has a reason, and a completed run has the
payload of its task. -/
structure Reported (s : QueueState) : Prop where
  failed : ∀ r ∈ s.runs.rows, r.state = .failed → r.failureReason ≠ none
  completed : ∀ t ∈ s.tasks.rows, ∀ r ∈ s.runs.rows, r.taskId = t.taskId → r.state = .completed →
    t.completedPayload = r.result

/-- A run that a change ends was completed with the payload its task has from then on, or failed
for a reason, or is cancelled. -/
theorem reported_of_ended {k : Lifecycle} {c : Change} (hc : c.Allowed k) (hplain : c.Plain)
    (hr : r ∈ k.runs.rows) (ha : r.Active) (hended : ¬ (c.run r).Active) :
  ((c.run r).state = .failed → (c.run r).failureReason ≠ none)
    ∧ ∀ t : TaskRow, r.taskId = t.taskId → (c.run r).state = .completed →
        (c.task k t).completedPayload = (c.run r).result
  := by
  have hsame : ∀ {r₀ : RunRow} {r' : RunRow}, r₀ ∈ k.runs.rows →
      ¬ (if r.runId = r₀.runId then r' else r).Active → r = r₀ := by
    intro r₀ r' hr₀ hended
    by_cases hid : r.runId = r₀.runId
    · exact Keyed.Table.eq_of_key_eq hr hr₀ hid
    · rw [if_neg hid] at hended
      exact absurd ha hended
  cases c with
  | draw | spawn | wakeTask | retry | delete => exact absurd ha hended
  | park | wakeRun | adjust => exact hplain.elim
  | claim now worker claimUntil r₀ =>
      obtain rfl := hsame hc.1 hended
      rw [Change.run, if_pos rfl] at hended
      exact absurd rfl hended
  | complete now r₀ payload =>
      obtain rfl := hsame hc.1 hended
      rw [Change.run, if_pos rfl]
      constructor
      · rintro ⟨⟩
      · intro t hid _
        rw [Change.task, if_pos hid.symm]
        rfl
  | failForGood now r₀ reason | failCancelled now r₀ reason | failRetried now r₀ reason _ =>
      obtain rfl := hsame hc.1 hended
      rw [Change.run, if_pos rfl]
      constructor
      · exact fun _ => Option.some_ne_none reason
      · rintro t - ⟨⟩
  | cancel now id =>
      rw [Change.run] at hended ⊢
      split at hended
      · rename_i hcancels
        rw [if_pos hcancels]
        constructor
        · rintro ⟨⟩
        · rintro t - ⟨⟩
      · exact absurd ha hended

/-- A change that starts no attempt and ends none does not end a run. -/
theorem ended_of_quiet {k : Lifecycle} {c : Change} (hc : c.Allowed k) (hquiet : c.Quiet)
    (hended : ¬ (c.run r).Active) :
  ¬ r.Active
  := by
  intro ha
  apply hended
  cases c with
  | wakeTask => exact ha
  | park r₀ e =>
      rw [Change.run]
      split
      · exact active_of_sleeping (hc.2.2.state r)
      · exact ha
  | adjust r₀ e =>
      rw [Change.run]
      split
      · rw [RunRow.Active, hc.2.state r]
        exact ha
      · exact ha
  | wakeRun now payload r₀ =>
      rw [Change.run]
      split
      · exact active_of_waiting (.inl rfl)
      · exact ha
  | _ => exact hquiet.elim

/-- A move that is no change of the tasks and the runs ends no run. -/
theorem mem_runs_of_quiet {m : Move} (hquiet : ∀ c, m ≠ .change c) (hallowed : m.Allowed s)
    (hs : s.life.Consistent) (hwaits : WaitsSound s) (hr : r ∈ (m.apply s).runs.rows)
    (hended : ¬ r.Active) :
  r ∈ s.runs.rows
  := by
  have hbefore : ∀ r' ∈ (m.apply s).runs.rows, ¬ r'.Active →
      ∃ r ∈ s.runs.rows, r.runId = r'.runId ∧ ¬ r.Active := by
    apply preserved_move (J := fun k => ∀ r' ∈ k.runs.rows, ¬ r'.Active →
      ∃ r ∈ s.runs.rows, r.runId = r'.runId ∧ ¬ r.Active) hs hallowed
    · rintro k c (⟨hm, -⟩ | hc) hallowed' - hruns r' hr' hended'
      · exact absurd hm (hquiet c)
      · rcases Change.mem_runs_apply hr' with ⟨r₀, hr₀, rfl⟩ | hadded
        · rw [Change.runId_run]
          exact hruns r₀ hr₀ (ended_of_quiet hallowed' hc hended')
        · exact absurd (active_of_added hadded) hended'
    · exact fun r hr hended => ⟨r, hr, rfl, hended⟩
  obtain ⟨r₀, hr₀, hid, hended₀⟩ := hbefore r hr hended
  have hr₀' : r₀ ∈ (m.apply s).runs.rows :=
    mem_runs_of_ended (fun batch hm => absurd hm (hquiet _)) hallowed hs hwaits hr₀ hended₀
  rwa [← Keyed.Table.eq_of_key_eq hr₀' hr hid]

theorem terminal_of_completed (h : t.state = .completed) :
  t.state.terminal = true
  := by
  rw [h]
  rfl

/-- A change leaves a completed task as it is. -/
theorem task_eq_of_completed {k : Lifecycle} {c : Change} (hk : k.Consistent) (hc : c.Allowed k)
    (ht : t ∈ k.tasks.rows) (hcompleted : t.state = .completed) :
  c.task k t = t
  := by
  apply task_eq_of_over hk hc ht (terminal_of_completed hcompleted)
  intro hreopens
  have hfailed := failed_of_reopens hc ht hreopens
  rw [hcompleted] at hfailed
  cases hfailed

/-- A move that is no change of the tasks and the runs completes no task. -/
theorem mem_tasks_of_quiet {m : Move} (hquiet : ∀ c, m ≠ .change c) (hallowed : m.Allowed s)
    (hs : s.life.Consistent) (ht : t ∈ (m.apply s).tasks.rows) (hcompleted : t.state = .completed) :
  t ∈ s.tasks.rows
  := by
  revert t
  apply preserved_move (J := fun k => ∀ {t}, t ∈ k.tasks.rows → t.state = .completed →
    t ∈ s.tasks.rows) hs hallowed
  · rintro k c (⟨hm, -⟩ | hc) hallowed' hk htasks t' ht' hcompleted
    · exact absurd hm (hquiet c)
    · rcases Change.mem_tasks_apply ht' with ⟨t, ht, rfl⟩ | ⟨now, rfl⟩
      · rcases Change.completed_task hcompleted with hbefore | ⟨now, r, payload, rfl, -⟩
        · rw [task_eq_of_completed hk hallowed' ht hbefore]
          exact htasks ht hbefore
        · exact hc.elim
      · exact hc.elim
  · exact fun ht _ => ht

theorem reported_change {c : Change} (hc : c.Allowed s.life) (hplain : c.Plain)
    (hs : s.life.Consistent) (h : Reported s) :
  Reported (s.change c)
  := by
  constructor
  case failed =>
    intro r' hr' hstate
    rcases Change.mem_runs_apply hr' with ⟨r, hr, rfl⟩ | hadded
    · by_cases ha : r.Active
      · exact (reported_of_ended hc hplain hr ha (not_active_of_ended (.inl hstate))).1 hstate
      · rw [run_eq_of_ended hc hplain hr ha] at hstate ⊢
        exact h.failed r hr hstate
    · exact absurd (active_of_added hadded) (not_active_of_ended (.inl hstate))
  case completed =>
    intro t' ht' r' hr' hid hstate
    have hended : ¬ r'.Active := by simp [RunRow.Active, hstate, TaskState.terminal]
    rcases Change.mem_runs_apply hr' with ⟨r, hr, rfl⟩ | hadded
    · rw [Change.taskId_run] at hid
      rcases Change.mem_tasks_apply ht' with ⟨t, ht, rfl⟩ | ⟨now, rfl⟩
      · rw [(TaskRow.eq_of_origin (Change.origin_task s.life c t)).1] at hid
        by_cases ha : r.Active
        · exact (reported_of_ended hc hplain hr ha hended).2 t hid hstate
        · rw [run_eq_of_ended hc hplain hr ha] at hstate ⊢
          have hcompleted : t.state = .completed := by
            apply (hs.follows t ht).completed r _ hstate
            exact Lifecycle.mem_runsOf.mpr ⟨hr, hid⟩
          rw [task_eq_of_completed hs hc ht hcompleted]
          exact h.completed t ht r hr hid hstate
      · exact absurd hid.symm (taskId_ne_of_spawned hs hc hr)
    · exact absurd (active_of_added hadded) hended

theorem reported_move {m : Move} (hallowed : m.Allowed s) (hs : s.life.Consistent)
    (hwaits : WaitsSound s) (h : Reported s) :
  Reported (m.apply s)
  := by
  by_cases hchange : ∃ c, m = .change c
  · obtain ⟨c, rfl⟩ := hchange
    exact reported_change hallowed.1 hallowed.2.1 hs h
  · have hquiet : ∀ c, m ≠ .change c := fun c hm => hchange ⟨c, hm⟩
    have hs' : (m.apply s).life.Consistent := consistent_move hs hallowed
    have hruns : ∀ r ∈ (m.apply s).runs.rows, ¬ r.Active → r ∈ s.runs.rows :=
      fun r hr => mem_runs_of_quiet hquiet hallowed hs hwaits hr
    constructor
    case failed =>
      intro r hr hstate
      exact h.failed r (hruns r hr (not_active_of_ended (.inl hstate))) hstate
    case completed =>
      intro t ht r hr hid hstate
      have hended : ¬ r.Active := by simp [RunRow.Active, hstate, TaskState.terminal]
      have hcompleted : t.state = .completed := by
        apply (hs'.follows t ht).completed r _ hstate
        exact Lifecycle.mem_runsOf.mpr ⟨hr, hid⟩
      have ht' := mem_tasks_of_quiet hquiet hallowed hs ht hcompleted
      exact h.completed t ht' r (hruns r hr hended) hid hstate

theorem reported_of_reachable (h : Reachable pg s) :
  Reported s
  := by
  apply And.right
  apply of_reachable (I := fun s => WaitsSound s ∧ Reported s) _ _ h
  · exact fun storage => ⟨.create storage, fun r hr => absurd hr List.not_mem_nil,
      fun t ht => absurd ht List.not_mem_nil⟩
  · rintro s m hallowed hs ⟨hwaits, h⟩
    exact ⟨waitsSound_move hallowed hs hwaits, reported_move hallowed hs hwaits h⟩

/-! ### The answer -/

/-- What the last run of a task reports when the task is in a state. -/
def RunRow.report (r : RunRow) (state : TaskState) : TaskAnswer where
  taskId := r.taskId
  state
  result := if state = .completed then r.result else none
  failureReason := if state = .failed then r.failureReason else none

/-- The run is the last one of the task, and it ended the task when the task did not end without
it. -/
structure TaskRow.EndedBy (t : TaskRow) (r : RunRow) : Prop where
  taskId : r.taskId = t.taskId
  last : t.lastAttemptRun = some r.runId
  completed : t.state = .completed ↔ r.state = .completed
  failed : t.state = .failed → r.state = .failed ∧ r.failureReason ≠ none

/-- What is answered for a task is what its last run reports. -/
theorem getTaskResult_of_reachable (h : Reachable pg s) (ht : s.tasks.get? t.taskId = some t) :
  ∃ r ∈ s.runs.rows, t.EndedBy r ∧ getTaskResult s t.taskId = some (r.report t.state)
  := by
  have hmem := Keyed.Table.mem_of_get? ht
  obtain ⟨r, hr, hagrees⟩ := ((consistent_of_reachable h).follows t hmem).last
  obtain ⟨hr, hid⟩ := Lifecycle.mem_runsOf.mp hr
  have hreported := reported_of_reachable h
  have hrow : s.runs.get? r.runId = some r := Keyed.Table.get?_of_mem hr
  refine ⟨r, hr, ⟨hid, hagrees.last, hagrees.completed, ?_⟩, ?_⟩
  · intro hstate
    have hfailed := hagrees.failed hstate
    exact ⟨hfailed, hreported.failed r hr hfailed⟩
  · have hresult : (if t.state = .completed then t.completedPayload else none)
        = if t.state = .completed then r.result else none := by
      by_cases hstate : t.state = .completed
      · rw [hreported.completed t hmem r hr hid (hagrees.completed.mp hstate)]
      · rw [if_neg hstate, if_neg hstate]
    rw [getTaskResult, ht, Option.map_some, hresult, hagrees.last, Option.bind_some, hrow,
      RunRow.report, hid]
    rfl

/-- Two queues that agree on a task and its runs answer the same. -/
theorem Halted.getTaskResult_eq (h : Halted t s s') (hreachable : Reachable pg s)
    (hreachable' : Reachable pg s') (ht : s.tasks.get? t.taskId = some t) :
  getTaskResult s' t.taskId = getTaskResult s t.taskId
  := by
  obtain ⟨r, hr, hended, hanswer⟩ := getTaskResult_of_reachable hreachable ht
  obtain ⟨r', hr', hended', hanswer'⟩ := getTaskResult_of_reachable hreachable' h.task
  have hr₀ : r' ∈ s.runs.rows := (h.runs r' hended'.taskId).mp hr'
  have hid : r'.runId = r.runId := Option.some.inj (hended'.last.symm.trans hended.last)
  rw [hanswer, hanswer', Keyed.Table.eq_of_key_eq hr₀ hr hid]

/-! ### Calls with a run that has ended -/

/-- Nobody completes, fails, suspends or claims the run. -/
structure Concluded (pg : Postgres) (s : QueueState) (r : RunRow) : Prop where
  complete : ∀ now payload, ∃ e, completeRun s now r.runId payload = .error e
  fail : ∀ now reason retryAt, ∃ e, failRun pg s now r.runId reason retryAt = .error e
  schedule : ∀ wakeAt, scheduleRun s r.runId wakeAt = .error .runNotRunning
  claim : ∀ now worker timeout qty s' claimed,
    claimTask pg s now worker timeout qty = .ok (s', claimed) → r.runId ∉ claimed

theorem IsOver.concluded (h : IsOver t s) (hr : r ∈ s.runs.rows) (hid : r.taskId = t.taskId) :
  Concluded pg s r
  := by
  have hended := h.not_active hr hid
  have hrow : s.runs.get? r.runId = some r := Keyed.Table.get?_of_mem hr
  have hrunning : r.state ≠ .running := fun hstate => hended (active_of_running hstate)
  have hsleeping : r.state ≠ .sleeping := fun hstate => hended (active_of_sleeping hstate)
  constructor
  case complete =>
    intro now payload
    rw [completeRun, hrow]
    dsimp only
    split
    · contradiction
    all_goals exact ⟨_, rfl⟩
  case fail =>
    intro now reason retryAt
    rw [failRun, hrow]
    dsimp only
    split
    · exact ⟨_, rfl⟩
    · exact ⟨_, rfl⟩
    · contradiction
    · contradiction
    · exact ⟨_, rfl⟩
  case schedule =>
    intro wakeAt
    rw [scheduleRun, hrow]
    exact if_neg hrunning
  case claim =>
    intro now worker timeout qty s' claimed hclaim hclaimed
    have hs := step_claim hclaim
    have hsettles : (Label.claim now worker timeout qty).Settles t := ⟨trivial, fun _ => not_false⟩
    have hr' := ((h.call hsettles hs).2.runs r hid).mpr hr
    exact hrunning (running_of_claimed hclaim hr' hclaimed).1

/-- The answer for a task that is over stands. Whatever is called, short of cleaning it up and of
attempting it again after it failed, `absurd.get_task_result` answers the same: what its last run
reported, with a reason when the task failed. Cancelling it changes nothing, and nobody completes,
fails, suspends or claims one of its runs. -/
theorem answer_stands (h : Reachable pg s) (ht : s.tasks.get? t.taskId = some t)
    (hterminal : t.state.terminal = true) (hls : ∀ l ∈ ls, l.Settles t)
    (hrun : (machine pg).run s ls = some s') :
  (∃ r ∈ s.runs.rows, t.EndedBy r ∧ getTaskResult s t.taskId = some (r.report t.state)
      ∧ getTaskResult s' t.taskId = some (r.report t.state))
    ∧ (∀ now, cancelTask s' now t.taskId = .ok s')
    ∧ ∀ r ∈ s'.runs.rows, r.taskId = t.taskId → Concluded pg s' r
  := by
  have hstart : IsOver t s := .of_reachable h ht hterminal
  obtain ⟨hend, hhalted⟩ := hstart.calls hls hrun
  refine ⟨?_, ?_, ?_⟩
  · obtain ⟨r, hr, hended, hanswer⟩ := getTaskResult_of_reachable h ht
    refine ⟨r, hr, hended, hanswer, ?_⟩
    rw [hhalted.getTaskResult_eq h (h.run hrun) ht, hanswer]
  · intro now
    rw [cancelTask, hend.task]
    exact if_pos hterminal
  · exact fun r hr hid => hend.concluded hr hid

/-- The run of the order a worker holds. -/
def heldRun : RunRow :=
  (RunRow.claim 0 "worker" (some (seconds 60))).apply (newRun ⟨1⟩ ⟨0⟩ 1 .pending 0 0)

/-- The worker that holds the order has delivered it. -/
def orderDelivered : QueueState := markCompleted orderClaimed 1 heldRun (some (.str "parcel"))

/-- The row of the delivered order. -/
def deliveredOrder : TaskRow :=
  (TaskRow.complete ⟨1⟩ (some (.str "parcel"))).apply
    ((TaskRow.claim 0 (newRun ⟨1⟩ ⟨0⟩ 1 .pending 0 0)).apply
      (spawnedTask (.create .unpartitioned) 0 "ship_order" (.obj []) noOptions))

theorem orderDelivered_stands :
  ∃ s, (machine plainPostgres).run orderDelivered [.emit 2 "paid" none] = some s
    ∧ cancelTask s 3 ⟨0⟩ = .ok s
  := by
  refine ⟨_, rfl, ?_⟩
  have hreachable : Reachable plainPostgres orderDelivered := by
    have hcalls : (machine plainPostgres).run orderClaimed
        [.complete 1 ⟨1⟩ (some (.str "parcel"))] = some orderDelivered := rfl
    exact reachable_orderClaimed.run hcalls
  have hsettles : ∀ l ∈ [Label.emit 2 "paid" none], l.Settles deliveredOrder := by
    intro l hl
    rw [List.mem_singleton.mp hl]
    exact ⟨trivial, fun _ => not_false⟩
  have hstands := answer_stands (t := deliveredOrder) hreachable rfl rfl hsettles rfl
  exact hstands.2.1 3

/-- A completion leaves its task completed, with the payload. -/
theorem completed_of_completeRun {now : Time} {payload : Option Json}
    (hr : s.runs.get? r.runId = some r) (ht : s.tasks.get? r.taskId = some t)
    (hcomplete : completeRun s now r.runId payload = .ok s') :
  s'.tasks.get? r.taskId = some ((TaskRow.complete r.runId payload).apply t)
  := by
  rw [completeRun, hr] at hcomplete
  dsimp only at hcomplete
  split at hcomplete
  case h_1 =>
    cases hcomplete
    have hupdate : (s.tasks.update (fun t' => t'.taskId = r.taskId)
        (TaskRow.complete r.runId payload)).get? r.taskId = _ := Keyed.Table.get?_update _ _ _ _
    apply hupdate.trans
    rw [ht, Option.map_some, Keyed.Table.key_of_get? ht]
    simp
  all_goals cases hcomplete

/-- A task is completed once. After the completion of a run was accepted, and whatever is called
short of cleaning up its task, the answer for the task is the payload of that completion, no run
of the task is completed, failed, suspended or claimed again, and the task cannot be retried. -/
theorem completed_once {s₁ : QueueState} {now : Time} {payload : Option Json} (h : Reachable pg s)
    (hr : s.runs.get? r.runId = some r) (hcomplete : completeRun s now r.runId payload = .ok s₁)
    (hspares : ∀ l ∈ ls, Spares r.taskId l) (hrun : (machine pg).run s₁ ls = some s') :
  getTaskResult s' r.taskId
      = some { taskId := r.taskId, state := .completed, result := payload, failureReason := none }
    ∧ (∀ r' ∈ s'.runs.rows, r'.taskId = r.taskId → Concluded pg s' r')
    ∧ ∀ now spawnNew maxAttempts, (∀ n, maxAttempts = some n → 1 ≤ n) →
        retryTask pg s' now r.taskId spawnNew maxAttempts = .error .taskNotFailed
  := by
  obtain ⟨t₀, ht₀, hid⟩ := (consistent_of_reachable h).owned r (Keyed.Table.mem_of_get? hr)
  have htask : s.tasks.get? r.taskId = some t₀ := hid ▸ Keyed.Table.get?_of_mem ht₀
  have ht := completed_of_completeRun hr htask hcomplete
  generalize hcompleted : (TaskRow.complete r.runId payload).apply t₀ = t at ht
  have hid' : t.taskId = r.taskId := Keyed.Table.key_of_get? ht
  have hstate : t.state = .completed := by
    rw [← hcompleted]
    rfl
  have hpayload : t.completedPayload = payload := by
    rw [← hcompleted]
    rfl
  have hreachable : Reachable pg s₁ := by
    have hs : step pg s (.complete now r.runId payload) = some s₁ := by
      rw [step_eq_some, call, hcomplete]
      exact ⟨trivial, rfl⟩
    have hcalls : (machine pg).run s [.complete now r.runId payload] = some s₁ :=
      Machine.run_cons.mpr ⟨s₁, hs, rfl⟩
    exact h.run hcalls
  rw [← hid'] at ht hspares ⊢
  have hstart : IsOver t s₁ := .of_reachable hreachable ht (terminal_of_completed hstate)
  have hunfailed : t.state ≠ .failed := by
    rw [hstate]
    exact TaskState.noConfusion
  have hsettles : ∀ l ∈ ls, l.Settles t :=
    fun l hl => ⟨hspares l hl, fun hfailed => absurd hfailed hunfailed⟩
  obtain ⟨hend, hhalted⟩ := hstart.calls hsettles hrun
  refine ⟨?_, fun r' hr' hid => hend.concluded hr' hid, ?_⟩
  · rw [hhalted.getTaskResult_eq hreachable (hreachable.run hrun) ht, getTaskResult, ht,
      Option.map_some, hstate, hpayload]
    rfl
  · exact fun now spawnNew maxAttempts hmax => hend.not_retried hunfailed now spawnNew hmax

theorem orderDelivered_once :
  ∃ s, (machine plainPostgres).run orderDelivered [.emit 2 "paid" none] = some s
    ∧ getTaskResult s ⟨0⟩ = some ⟨⟨0⟩, .completed, some (.str "parcel"), none⟩
  := by
  refine ⟨_, rfl, ?_⟩
  have hspares : ∀ l ∈ [Label.emit 2 "paid" none], Spares heldRun.taskId l := by
    intro l hl
    rw [List.mem_singleton.mp hl]
    trivial
  have hcomplete : completeRun orderClaimed 1 heldRun.runId (some (.str "parcel"))
      = .ok orderDelivered := rfl
  exact (completed_once reachable_orderClaimed rfl hcomplete hspares rfl).1

end

end DjangoAbsurd.Engine
