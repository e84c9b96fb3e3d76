import DjangoAbsurd.Engine.Consistency
import DjangoAbsurd.Library.Fallible

/-!
# What a claim sweeps

A claim cancels the tasks whose cancellation rules apply, then fails the oldest runs whose
claim has expired, at most as many as it may take, and then takes runs that are due. A run
that is failed so may leave a run that is due at once. `Sweeps` says what failing a list of
expired runs leaves: there is a run to take exactly when there was one, or one of the runs
failed leaves one.
-/

namespace DjangoAbsurd.Engine

/-! ### Active runs of a consistent lifecycle -/

section

variable {k : Lifecycle} {r r' : RunRow}

/-- The task of an active run is not terminal, and the run is its last. -/
theorem task_of_active (h : k.Consistent) (hr : r ∈ k.runs.rows) (ha : r.Active) :
  ∃ t, k.tasks.get? r.taskId = some t ∧ t.state.terminal = false
    ∧ t.lastAttemptRun = some r.runId
  := by
  obtain ⟨t, ht, hid⟩ := h.owned r hr
  have hmem : r ∈ k.runsOf t.taskId := Lifecycle.mem_runsOf.mpr ⟨hr, hid.symm⟩
  have hagrees := (h.follows t ht).agrees_of_active (Lifecycle.nodup_runsOf k _) hmem ha
  use t
  rw [← hid]
  exact ⟨Keyed.Table.get?_of_mem ht, hagrees.live.mpr ha, hagrees.last⟩

/-- A task has one active run at most. -/
theorem eq_of_active (h : k.Consistent) (hr : r ∈ k.runs.rows) (hr' : r' ∈ k.runs.rows)
    (ha : r.Active) (ha' : r'.Active) (hid : r'.taskId = r.taskId) :
  r' = r
  := by
  obtain ⟨t, ht, -, hlast⟩ := task_of_active h hr ha
  obtain ⟨t', ht', -, hlast'⟩ := task_of_active h hr' ha'
  rw [hid, ht] at ht'
  obtain rfl := Option.some.inj ht'
  apply Keyed.Table.eq_of_key_eq hr' hr
  rw [hlast] at hlast'
  exact (Option.some.inj hlast').symm

end

/-- What changes lead to from a consistent queue is consistent. -/
theorem Lives.consistent {P : Change → Prop} {s s' : QueueState} (h : Lives P s s')
    (hs : s.life.Consistent) :
  s'.life.Consistent
  := by
  obtain ⟨cs, hrun, -⟩ := h
  exact consistent_run hs hrun

/-! ### Runs to take, and runs whose claim has expired -/

/-- A claim at `now` may take the run. -/
structure Claimable (s : QueueState) (now : Time) (r : RunRow) : Prop where
  row : r ∈ s.runs.rows
  waits : r.state = .pending ∨ r.state = .sleeping
  live : (s.tasks.get? r.taskId).any (fun t => !t.state.terminal) = true
  due : r.availableAt ≤ (now : WithTop Time)

/-- The run is running, and its claim has expired. -/
def RunRow.Expired (now : Time) (r : RunRow) : Prop :=
  r.state = .running ∧ r.claimExpiresAt.any (· ≤ now) = true

instance (now : Time) (r : RunRow) : Decidable (r.Expired now) :=
  inferInstanceAs (Decidable (_ ∧ _))

/-- A claim takes nothing exactly when there is nothing to take. -/
theorem claimCandidates_eq_nil {s : QueueState} {now : Time} {limit : ℕ} (hlimit : 0 < limit) :
  claimCandidates pg s now limit = [] ↔ ∀ r, ¬ Claimable s now r
  := by
  rw [claimCandidates, List.take_eq_nil_iff]
  constructor
  · intro h r hr
    rcases h with h | h
    · omega
    · have hmem : r ∈ ([] : List RunRow) := by
        rw [← h, List.mem_mergeSort, List.mem_filter]
        exact ⟨hr.row, decide_eq_true ⟨hr.waits, hr.live, hr.due⟩⟩
      cases hmem
  · intro h
    right
    apply List.eq_nil_iff_forall_not_mem.mpr
    intro r hr
    rw [List.mem_mergeSort, List.mem_filter] at hr
    obtain ⟨hrow, hcond⟩ := hr
    obtain ⟨hwaits, hlive, hdue⟩ := of_decide_eq_true hcond
    exact h r ⟨hrow, hwaits, hlive, hdue⟩

theorem mem_expiredRuns {s : QueueState} {now : Time} {limit : ℕ} {r : RunRow}
    (hr : r ∈ expiredRuns pg s now limit) :
  r ∈ s.runs.rows ∧ r.Expired now
  := by
  have hmem := List.mem_mergeSort.mp (List.mem_of_mem_take hr)
  obtain ⟨hrow, hcond⟩ := List.mem_filter.mp hmem
  exact ⟨hrow, of_decide_eq_true hcond⟩

/-! ### Failing an expired run -/

/-- Failing the run of the task because its claim expired leaves a run that is due at
once: there is an attempt left, its delay is over, and the task may still last. -/
structure TaskRow.RetriedAtOnce (pg : Postgres) (now : Time) (t : TaskRow) (r : RunRow) : Prop where
  attempts : t.maxAttempts.any (· < r.attempt + 1) = false
  available : nextAvailable pg now t.retryStrategy r.attempt none = some now
  lasting : durationPassed pg t.cancellation t.firstStartedAt (some now) = .ok false

/-- Failing the run, in a queue, leaves a run that is due at once. -/
def RetriedAtOnce (pg : Postgres) (s : QueueState) (now : Time) (r : RunRow) : Prop :=
  ∃ t, s.tasks.get? r.taskId = some t ∧ t.RetriedAtOnce pg now r

/-- What a claim reads of a task's cancellation rules. -/
def TaskRow.terms (t : TaskRow) : Option Json × Time × Option Time :=
  (t.cancellation, t.enqueueAt, t.firstStartedAt)

/-- The queue `s'` is the queue `s` after the run `r` was failed. All of it that changed is
the task of the run and the runs of that task, none of which is running any more. -/
structure Fails (pg : Postgres) (now : Time) (r : RunRow) (s s' : QueueState) : Prop where
  consistent : s'.life.Consistent
  others : ∀ id, id ≠ r.taskId → s'.tasks.get? id = s.tasks.get? id
  task : (s'.tasks.get? r.taskId).map TaskRow.terms = (s.tasks.get? r.taskId).map TaskRow.terms
  rows : ∀ r', r'.taskId ≠ r.taskId → (r' ∈ s'.runs.rows ↔ r' ∈ s.runs.rows)
  ended : ∀ r' ∈ s'.runs.rows, r'.taskId = r.taskId → r'.state ≠ .running
  retried : (∃ r', Claimable s' now r' ∧ r'.taskId = r.taskId) ↔ RetriedAtOnce pg s now r

section

variable {pg : Postgres} {now : Time} {s s' : QueueState} {r r' : RunRow} {reason : Json}
  {e : Keyed.Edit TaskRow.taskId}

theorem get?_tasks_markFailed (id : Uuid) :
  (markFailed s now r reason e).tasks.get? id
    = (s.tasks.get? id).map (fun t => if t.taskId = r.taskId then e.apply t else t)
  := by
  change (s.tasks.update _ e).get? id = _
  rw [Keyed.Table.get?_update]
  simp

theorem get?_tasks_markFailed_of_ne {id : Uuid} (hid : id ≠ r.taskId) :
  (markFailed s now r reason e).tasks.get? id = s.tasks.get? id
  := by
  rw [get?_tasks_markFailed]
  cases ht : s.tasks.get? id with
  | none => rfl
  | some t =>
      rw [Option.map_some, if_neg]
      rwa [Keyed.Table.key_of_get? ht]

theorem get?_tasks_markFailed_self :
  (markFailed s now r reason e).tasks.get? r.taskId = (s.tasks.get? r.taskId).map e.apply
  := by
  rw [get?_tasks_markFailed]
  cases ht : s.tasks.get? r.taskId with
  | none => rfl
  | some t => rw [Option.map_some, if_pos (Keyed.Table.key_of_get? ht), Option.map_some]

theorem mem_runs_markFailed (hr : r ∈ s.runs.rows) :
  r' ∈ (markFailed s now r reason e).runs.rows
    ↔ (r' ∈ s.runs.rows ∧ r'.runId ≠ r.runId) ∨ r' = (RunRow.fail now reason).apply r
  := by
  change r' ∈ (s.runs.update _ _).rows ↔ _
  rw [Keyed.Table.mem_update]
  constructor
  · rintro ⟨r₀, hr₀, rfl⟩
    by_cases hid : r₀.runId = r.runId
    · right
      rw [if_pos (decide_eq_true hid), Keyed.Table.eq_of_key_eq hr₀ hr hid]
    · left
      rw [if_neg (by simpa using hid)]
      exact ⟨hr₀, hid⟩
  · rintro (⟨hrow, hid⟩ | rfl)
    · exact ⟨r', hrow, if_neg (by simpa using hid)⟩
    · exact ⟨r, hr, if_pos (by simp)⟩

/-- Once its run has failed, a task has no active run. -/
theorem idle_markFailed (h : s.life.Consistent) (hr : r ∈ s.runs.rows) (ha : r.Active)
    (hr' : r' ∈ (markFailed s now r reason e).runs.rows) (hid : r'.taskId = r.taskId) :
  ¬ r'.Active
  := by
  intro ha'
  rcases (mem_runs_markFailed hr).mp hr' with ⟨hrow, hne⟩ | rfl
  · apply hne
    rw [eq_of_active h hr hrow ha ha' hid]
  · cases ha'

theorem mem_runs_markFailed_of_ne (hr : r ∈ s.runs.rows) (hid : r'.taskId ≠ r.taskId) :
  r' ∈ (markFailed s now r reason e).runs.rows ↔ r' ∈ s.runs.rows
  := by
  rw [mem_runs_markFailed hr]
  constructor
  · rintro (⟨hrow, -⟩ | rfl)
    · exact hrow
    · exact absurd rfl hid
  · intro hrow
    left
    use hrow
    intro hrun
    rw [Keyed.Table.eq_of_key_eq hrow hr hrun] at hid
    exact hid rfl

/-- A run that fails and is not attempted again. -/
theorem fails_markFailed (h : s.life.Consistent) (hr : r ∈ s.runs.rows) (ha : r.Active)
    (h' : (markFailed s now r reason e).life.Consistent)
    (hterms : ∀ t, (e.apply t).terms = t.terms) (hnot : ¬ RetriedAtOnce pg s now r) :
  Fails pg now r s (markFailed s now r reason e)
  where
  consistent := h'
  others id hid := get?_tasks_markFailed_of_ne hid
  task := by
    rw [get?_tasks_markFailed_self, Option.map_map]
    congr 1
    funext t
    exact hterms t
  rows r' hid := mem_runs_markFailed_of_ne hr hid
  ended r' hr' hid hrunning := idle_markFailed h hr ha hr' hid (active_of_failing (.inl hrunning))
  retried := by
    constructor
    · rintro ⟨r', hclaimable, hid⟩
      exact absurd (active_of_waiting hclaimable.waits) (idle_markFailed h hr ha hclaimable.row hid)
    · intro hretried
      exact absurd hretried hnot

theorem mem_runs_failRetried {available : Time} :
  r' ∈ (failRetried s now r reason available).runs.rows
    ↔ r' = newRun ⟨s.drawn⟩ r.taskId (r.attempt + 1) (retriedState now available) available now
      ∨ (r' ∈ (markFailed s now r reason (TaskRow.settle (retriedState now available) (r.attempt + 1)
          ⟨s.drawn⟩ none)).runs.rows ∧ r'.runId ≠ ⟨s.drawn⟩)
  := Keyed.Table.mem_put

theorem terminal_retriedState (now available : Time) :
  (retriedState now available).terminal = false
  := by
  rw [retriedState]
  split <;> rfl

/-- A run that fails and is attempted again, at once or later. -/
theorem fails_failRetried {available : Time} (h : s.life.Consistent) (hr : r ∈ s.runs.rows)
    (ha : r.Active) (h' : (failRetried s now r reason available).life.Consistent)
    (hretried : RetriedAtOnce pg s now r ↔ available ≤ now) :
  Fails pg now r s (failRetried s now r reason available)
  where
  consistent := h'
  others id hid := get?_tasks_markFailed_of_ne hid
  task := by
    change Option.map _ ((markFailed s now r reason _).tasks.get? r.taskId) = _
    rw [get?_tasks_markFailed_self, Option.map_map]
    rfl
  rows r' hid := by
    rw [mem_runs_failRetried, mem_runs_markFailed_of_ne hr hid]
    constructor
    · rintro (rfl | ⟨hrow, -⟩)
      · exact absurd rfl hid
      · exact hrow
    · intro hrow
      right
      use hrow
      intro hrun
      have hdrawn := h.runDrawn r' hrow
      rw [hrun] at hdrawn
      exact absurd hdrawn (lt_irrefl _)
  ended r' hr' hid hrunning := by
    rcases mem_runs_failRetried.mp hr' with rfl | ⟨hrow, -⟩
    · change retriedState now available = _ at hrunning
      have hlive := terminal_retriedState now available
      rw [retriedState] at hrunning
      split at hrunning <;> cases hrunning
    · exact idle_markFailed h hr ha hrow hid (active_of_failing (.inl hrunning))
  retried := by
    rw [hretried]
    constructor
    · rintro ⟨r', hclaimable, hid⟩
      rcases mem_runs_failRetried.mp hclaimable.row with rfl | ⟨hrow, -⟩
      · exact WithTop.coe_le_coe.mp hclaimable.due
      · exact absurd (active_of_waiting hclaimable.waits) (idle_markFailed h hr ha hrow hid)
    · intro hdue
      refine ⟨_, ⟨mem_runs_failRetried.mpr (.inl rfl), ?_, ?_, WithTop.coe_le_coe.mpr hdue⟩, rfl⟩
      · left
        change retriedState now available = _
        rw [retriedState, if_neg (not_lt.mpr hdue)]
      · obtain ⟨t, ht, -⟩ := task_of_active h hr ha
        change Option.any _ ((markFailed s now r reason _).tasks.get? r.taskId) = true
        have ht' : s.tasks.get? r.taskId = some t := ht
        rw [get?_tasks_markFailed_self, ht', Option.map_some, Option.any_some]
        change (!(retriedState now available).terminal) = true
        rw [terminal_retriedState]
        rfl

/-- A failed run is not due before it failed. -/
theorem le_nextAvailable {strategy : Option Json} {attempt : ℤ} {retryAt : Option Time}
    {available : Time} (h : nextAvailable pg now strategy attempt retryAt = some available) :
  now ≤ available
  := by
  rw [nextAvailable.eq_def] at h
  split at h
  · cases h
    apply le_max_right
  · split at h
    · cases h
      apply le_max_right
    · cases h

theorem retriedAtOnce_iff {t : TaskRow} (ht : s.tasks.get? r.taskId = some t) :
  RetriedAtOnce pg s now r ↔ t.RetriedAtOnce pg now r
  := by
  rw [RetriedAtOnce, ht]
  simp

/-- Failing an expired run. -/
theorem fails_failRun (h : s.life.Consistent) (hr : r ∈ s.runs.rows) (hrunning : r.state = .running)
    (hs : failRun pg s now r.runId reason none = .ok s') :
  Fails pg now r s s'
  := by
  have hconsistent : s'.life.Consistent :=
    (refines_failRun (P := fun _ => True)
      ⟨fun _ _ => trivial, fun _ _ => trivial, fun _ _ _ => trivial⟩ hs).consistent h
  have ha : r.Active := active_of_failing (.inl hrunning)
  obtain ⟨t, htask, -, -⟩ := task_of_active h hr ha
  have ht : s.tasks.get? r.taskId = some t := htask
  have hrow : s.runs.get? r.runId = some r := Keyed.Table.get?_of_mem hr
  simp only [failRun, hrow, hrunning, failActive, ht, Option.bind_some, Bind.bind, Except.bind,
    pure, Except.pure] at hs
  split at hs
  · rename_i hspent
    cases hs
    apply fails_markFailed h hr ha hconsistent (fun _ => rfl)
    intro hretried
    have hattempts := ((retriedAtOnce_iff ht).mp hretried).attempts
    rw [hspent] at hattempts
    cases hattempts
  · rename_i hattempts
    split at hs
    · cases hs
    · rename_i passed hpassed
      split at hs
      · cases hs
        apply fails_markFailed h hr ha hconsistent (fun _ => rfl)
        intro hretried
        obtain ⟨-, havailable, hlasting⟩ := (retriedAtOnce_iff ht).mp hretried
        rw [havailable, hlasting] at hpassed
        cases hpassed
        contradiction
      · rename_i hlasts
        have hlasting : passed = false := by simpa using hlasts
        split at hs
        · rename_i hinvalid
          cases hs
          apply fails_markFailed h hr ha hconsistent (fun _ => rfl)
          intro hretried
          have havailable := ((retriedAtOnce_iff ht).mp hretried).available
          rw [hinvalid] at havailable
          cases havailable
        · rename_i available havailable
          cases hs
          apply fails_failRetried h hr ha hconsistent
          rw [retriedAtOnce_iff ht]
          constructor
          · intro hretried
            rw [hretried.available] at havailable
            exact (Option.some.inj havailable).symm.le
          · intro hdue
            obtain rfl : now = available := le_antisymm (le_nextAvailable havailable) hdue
            rw [havailable, hlasting] at hpassed
            exact ⟨by simpa using hattempts, havailable, hpassed⟩

/-- A run can be failed when the rules of its task are readable. -/
theorem failRun_isOk (h : s.life.Consistent) (hr : r ∈ s.runs.rows) (hrunning : r.state = .running)
    (hrules : ∀ t available, s.tasks.get? r.taskId = some t →
      ∃ passed, durationPassed pg t.cancellation t.firstStartedAt available = .ok passed) :
  ∃ s', failRun pg s now r.runId reason none = .ok s'
  := by
  obtain ⟨t, htask, -, -⟩ := task_of_active h hr (active_of_failing (.inl hrunning))
  have ht : s.tasks.get? r.taskId = some t := htask
  have hrow : s.runs.get? r.runId = some r := Keyed.Table.get?_of_mem hr
  obtain ⟨passed, hpassed⟩ := hrules t (nextAvailable pg now t.retryStrategy r.attempt none) ht
  simp only [failRun, hrow, hrunning, failActive, ht, Option.bind_some, hpassed, Bind.bind,
    Except.bind, pure, Except.pure]
  split
  · exact ⟨_, rfl⟩
  · split
    · exact ⟨_, rfl⟩
    · split <;> exact ⟨_, rfl⟩

end

/-! ### Failing the expired runs of a list -/

/-- No cancellation rule of a task that is not terminal applies, and all are readable. -/
def Quiet (pg : Postgres) (s : QueueState) (now : Time) : Prop :=
  ∀ t ∈ s.tasks.rows, t.state.terminal = false → cancellationDue pg now t = .ok false

theorem cancellationDue_congr {pg : Postgres} {now : Time} {t t' : TaskRow}
    (h : t'.terms = t.terms) :
  cancellationDue pg now t' = cancellationDue pg now t
  := by
  obtain ⟨hcancellation, hrest⟩ := Prod.mk.inj h
  obtain ⟨henqueued, hstarted⟩ := Prod.mk.inj hrest
  rw [cancellationDue, cancellationDue, hcancellation, henqueued, hstarted]

section

variable {pg : Postgres} {now : Time} {s s' : QueueState} {r r' : RunRow} {expired : List RunRow}

namespace Fails

/-- There is a run to take when there was one, or when the run that failed leaves one. -/
theorem claimable_iff (h : Fails pg now r s s') (hs : s.life.Consistent) (hr : r ∈ s.runs.rows)
    (hrunning : r.state = .running) :
  (∃ r', Claimable s' now r') ↔ (∃ r', Claimable s now r') ∨ RetriedAtOnce pg s now r
  := by
  constructor
  · rintro ⟨r', hclaimable⟩
    by_cases hid : r'.taskId = r.taskId
    · right
      exact h.retried.mp ⟨r', hclaimable, hid⟩
    · left
      refine ⟨r', (h.rows r' hid).mp hclaimable.row, hclaimable.waits, ?_, hclaimable.due⟩
      rw [← h.others _ hid]
      exact hclaimable.live
  · rintro (⟨r', hclaimable⟩ | hretried)
    · have hid : r'.taskId ≠ r.taskId := by
        intro hid
        have hwaits := hclaimable.waits
        rw [eq_of_active hs hr hclaimable.row (active_of_failing (.inl hrunning))
          (active_of_waiting hwaits) hid, hrunning] at hwaits
        rcases hwaits with hwaits | hwaits <;> cases hwaits
      refine ⟨r', (h.rows r' hid).mpr hclaimable.row, hclaimable.waits, ?_, hclaimable.due⟩
      rw [h.others _ hid]
      exact hclaimable.live
    · obtain ⟨r', hclaimable, -⟩ := h.retried.mpr hretried
      exact ⟨r', hclaimable⟩

/-- Another running run is of another task. -/
theorem taskId_ne (hs : s.life.Consistent) (hr : r ∈ s.runs.rows) (hrunning : r.state = .running)
    (hr' : r' ∈ s.runs.rows) (hrunning' : r'.state = .running) (hne : r' ≠ r) :
  r'.taskId ≠ r.taskId
  := by
  intro hid
  apply hne
  exact eq_of_active hs hr hr' (active_of_failing (.inl hrunning)) (active_of_failing (.inl hrunning'))
    hid

/-- The running runs are the others. -/
theorem mem_runs_iff (h : Fails pg now r s s') (hs : s.life.Consistent) (hr : r ∈ s.runs.rows)
    (hrunning : r.state = .running) (hrunning' : r'.state = .running) :
  r' ∈ s'.runs.rows ↔ r' ∈ s.runs.rows ∧ r' ≠ r
  := by
  constructor
  · intro hr'
    have hid : r'.taskId ≠ r.taskId := fun hid => h.ended r' hr' hid hrunning'
    use (h.rows r' hid).mp hr'
    rintro rfl
    exact hid rfl
  · rintro ⟨hr', hne⟩
    exact (h.rows r' (taskId_ne hs hr hrunning hr' hrunning' hne)).mpr hr'

/-- The other running runs of a list are still running. -/
theorem running_rest (h : Fails pg now r s s') (hs : s.life.Consistent)
    (hrows : ∀ r' ∈ r :: expired, r' ∈ s.runs.rows ∧ r'.state = .running) (hnot : r ∉ expired) :
  ∀ r' ∈ expired, r' ∈ s'.runs.rows ∧ r'.state = .running
  := by
  intro r' hr'
  obtain ⟨hr, hrunning⟩ := hrows r List.mem_cons_self
  obtain ⟨hrow, hrunning'⟩ := hrows r' (List.mem_cons_of_mem r hr')
  use (h.mem_runs_iff hs hr hrunning hrunning').mpr ⟨hrow, ?_⟩, hrunning'
  rintro rfl
  exact hnot hr'

theorem quiet (h : Fails pg now r s s') (hs : s.life.Consistent) (hr : r ∈ s.runs.rows)
    (ha : r.Active) (hquiet : Quiet pg s now) :
  Quiet pg s' now
  := by
  intro t' ht' hlive
  have hget : s'.tasks.get? t'.taskId = some t' := Keyed.Table.get?_of_mem ht'
  by_cases hid : t'.taskId = r.taskId
  · have hterms := h.task
    obtain ⟨t, ht, hopen, -⟩ := task_of_active hs hr ha
    have hold : s.tasks.get? r.taskId = some t := ht
    rw [← hid] at hterms hold
    rw [hget, hold] at hterms
    rw [cancellationDue_congr (Option.some.inj hterms)]
    exact hquiet t (Keyed.Table.mem_of_get? hold) hopen
  · rw [h.others _ hid] at hget
    exact hquiet t' (Keyed.Table.mem_of_get? hget) hlive

end Fails

/-- The queue `s'` is the queue `s` after the runs of a list were failed because their
claims expired. -/
structure Sweeps (pg : Postgres) (now : Time) (expired : List RunRow) (s s' : QueueState) :
    Prop where
  consistent : s'.life.Consistent
  claimable : (∃ r, Claimable s' now r)
    ↔ (∃ r, Claimable s now r) ∨ ∃ r ∈ expired, RetriedAtOnce pg s now r
  running : ∀ r, r.state = .running → (r ∈ s'.runs.rows ↔ r ∈ s.runs.rows ∧ r ∉ expired)
  tasks : ∀ r ∈ s'.runs.rows, r.state = .running → s'.tasks.get? r.taskId = s.tasks.get? r.taskId
  quiet : Quiet pg s now → Quiet pg s' now

/-- The sweep of a claim. -/
def sweep (pg : Postgres) (now : Time) (expired : List RunRow) (s : QueueState) :
    Except EngineError QueueState :=
  expired.foldlM (fun s r => failRun pg s now r.runId (claimTimeout pg r) none) s

theorem RetriedAtOnce.congr (htask : s'.tasks.get? r.taskId = s.tasks.get? r.taskId) :
  RetriedAtOnce pg s' now r ↔ RetriedAtOnce pg s now r
  := by
  rw [RetriedAtOnce, RetriedAtOnce, htask]

/-- The step of a sweep, in front of the rest of it. -/
theorem Sweeps.cons {s₁ : QueueState} (hrest : Sweeps pg now expired s₁ s')
    (hs : s.life.Consistent) (hr : r ∈ s.runs.rows) (hrunning : r.state = .running)
    (hfails : Fails pg now r s s₁) (hrows : ∀ r ∈ expired, r ∈ s.runs.rows ∧ r.state = .running)
    (hnot : r ∉ expired) :
  Sweeps pg now (r :: expired) s s'
  where
  consistent := hrest.consistent
  claimable := by
    rw [hrest.claimable, hfails.claimable_iff hs hr hrunning, or_assoc]
    have hothers : (∃ r' ∈ expired, RetriedAtOnce pg s₁ now r')
        ↔ ∃ r' ∈ expired, RetriedAtOnce pg s now r' := by
      apply exists_congr
      intro r'
      apply and_congr_right
      intro hr'
      obtain ⟨hrow, hrunning'⟩ := hrows r' hr'
      apply RetriedAtOnce.congr
      apply hfails.others
      apply Fails.taskId_ne hs hr hrunning hrow hrunning'
      rintro rfl
      exact hnot hr'
    rw [hothers, List.exists_mem_cons_iff]
  running r' hrunning' := by
    rw [hrest.running r' hrunning', hfails.mem_runs_iff hs hr hrunning hrunning', List.mem_cons,
      not_or, and_assoc]
  tasks r' hr' hrunning' := by
    rw [hrest.tasks r' hr' hrunning']
    apply hfails.others
    obtain ⟨hrow, -⟩ := (hrest.running r' hrunning').mp hr'
    exact fun hid => hfails.ended r' hrow hid hrunning'
  quiet hquiet := hrest.quiet (hfails.quiet hs hr (active_of_failing (.inl hrunning)) hquiet)

/-- What a sweep leaves. -/
theorem sweeps_sweep (hs : s.life.Consistent)
    (hrows : ∀ r ∈ expired, r ∈ s.runs.rows ∧ r.state = .running) (hnodup : expired.Nodup)
    (hsweep : sweep pg now expired s = .ok s') :
  Sweeps pg now expired s s'
  := by
  induction expired generalizing s with
  | nil =>
      obtain rfl := Except.ok.inj hsweep
      exact ⟨hs, by simp, by simp, fun _ _ _ => rfl, id⟩
  | cons r expired ih =>
      obtain ⟨s₁, hfail, hrest⟩ := Except.foldlM_cons_eq_ok.mp hsweep
      obtain ⟨hr, hrunning⟩ := hrows r List.mem_cons_self
      obtain ⟨hnot, hnodup⟩ := List.nodup_cons.mp hnodup
      have hfails := fails_failRun hs hr hrunning hfail
      have hsweeps := ih hfails.consistent (hfails.running_rest hs hrows hnot) hnodup hrest
      exact hsweeps.cons hs hr hrunning hfails
        (fun r' hr' => hrows r' (List.mem_cons_of_mem r hr')) hnot

/-- A readable cancellation rule makes the duration readable. -/
theorem durationPassed_isOk {t : TaskRow} (h : cancellationDue pg now t = .ok false)
    (available : Option Time) :
  ∃ passed, durationPassed pg t.cancellation t.firstStartedAt available = .ok passed
  := by
  rw [cancellationDue.eq_def] at h
  rw [durationPassed.eq_def]
  cases hrules : t.cancellation with
  | none => exact ⟨false, rfl⟩
  | some rules =>
      rw [hrules] at h
      simp only [Bind.bind, Except.bind] at h ⊢
      cases hduration : integerMember pg rules "max_duration" with
      | error e =>
          rw [hduration] at h
          split at h <;> cases h
      | ok duration =>
          dsimp only
          split <;> exact ⟨_, rfl⟩

/-- The sweep of a quiet queue succeeds. -/
theorem sweep_isOk (hs : s.life.Consistent) (hquiet : Quiet pg s now)
    (hrows : ∀ r ∈ expired, r ∈ s.runs.rows ∧ r.state = .running) (hnodup : expired.Nodup) :
  ∃ s', sweep pg now expired s = .ok s'
  := by
  induction expired generalizing s with
  | nil => exact ⟨s, rfl⟩
  | cons r expired ih =>
      obtain ⟨hr, hrunning⟩ := hrows r List.mem_cons_self
      obtain ⟨hnot, hnodup⟩ := List.nodup_cons.mp hnodup
      have ha : r.Active := active_of_failing (.inl hrunning)
      obtain ⟨s₁, hfail⟩ : ∃ s₁, failRun pg s now r.runId (claimTimeout pg r) none = .ok s₁ := by
        apply failRun_isOk hs hr hrunning
        intro t available ht
        obtain ⟨t', ht', hlive, -⟩ := task_of_active hs hr ha
        have heq : some t' = some t := ht'.symm.trans ht
        obtain rfl := Option.some.inj heq
        exact durationPassed_isOk (hquiet t' (Keyed.Table.mem_of_get? ht) hlive) available
      have hfails := fails_failRun hs hr hrunning hfail
      obtain ⟨s', hrest⟩ := ih hfails.consistent (hfails.quiet hs hr ha hquiet)
        (hfails.running_rest hs hrows hnot) hnodup
      exact ⟨s', Except.foldlM_cons_eq_ok.mpr ⟨s₁, hfail, hrest⟩⟩

/-! ### The tasks a claim cancels -/

/-- The cancellation rules of the task apply. -/
def TaskRow.Cancels (pg : Postgres) (now : Time) (t : TaskRow) : Bool :=
  match cancellationDue pg now t with
  | .ok due => due
  | .error _ => false

/-- The tasks that are not terminal, by whether their rules apply. -/
theorem cancelCandidates_eq_ok {due : List Uuid} (h : cancelCandidates pg s now = .ok due) :
  ∀ t ∈ s.tasks.rows, t.state.terminal = false →
    (t.taskId ∈ due ∧ cancellationDue pg now t = .ok true)
      ∨ (t.taskId ∉ due ∧ cancellationDue pg now t = .ok false)
  := by
  simp only [cancelCandidates, Bind.bind, Except.bind] at h
  split at h
  · cases h
  · rename_i ts hts
    obtain rfl := Except.ok.inj h
    obtain ⟨hall, hmem⟩ := Except.filterM_eq_ok hts
    intro t ht hlive
    have hopen : t ∈ s.tasks.rows.filter (fun t => !t.state.terminal) := by
      rw [List.mem_filter]
      exact ⟨ht, by simp [hlive]⟩
    obtain ⟨due, hdue⟩ := hall t hopen
    simp only [List.mem_mergeSort, List.mem_map]
    cases due with
    | true =>
        left
        exact ⟨⟨t, (hmem t).mpr ⟨hopen, hdue⟩, rfl⟩, hdue⟩
    | false =>
        right
        refine ⟨?_, hdue⟩
        rintro ⟨t', ht', hid⟩
        obtain ⟨hopen', hdue'⟩ := (hmem t').mp ht'
        rw [Keyed.Table.eq_of_key_eq (List.mem_filter.mp hopen').1 ht hid, hdue] at hdue'
        cases hdue'

theorem cancelCandidates_of_quiet (h : Quiet pg s now) :
  cancelCandidates pg s now = .ok []
  := by
  have hnone : (s.tasks.rows.filter (fun t => !t.state.terminal)).filterM (cancellationDue pg now)
      = .ok [] := by
    apply Except.filterM_eq_nil
    intro t ht
    obtain ⟨hrow, hlive⟩ := List.mem_filter.mp ht
    exact h t hrow (by simpa using hlive)
  rw [cancelCandidates, hnone]
  exact congrArg Except.ok List.mergeSort_nil

/-- The queue `s'` is the queue `s` after tasks were cancelled. -/
structure Cancelled (due : List Uuid) (s s' : QueueState) : Prop where
  consistent : s'.life.Consistent
  others : ∀ id, id ∉ due → s'.tasks.get? id = s.tasks.get? id
  ended : ∀ id ∈ due, ∀ t, s'.tasks.get? id = some t → t.state.terminal = true
  running : ∀ p : RunRow → Bool, (∀ r, p r = true → r.state = .running) →
    s'.runs.rows.filter p = s.runs.rows.filter (fun r => p r && decide (r.taskId ∉ due))

theorem cancelled_nil (hs : s.life.Consistent) :
  Cancelled [] s s
  where
  consistent := hs
  others _ _ := rfl
  ended _ hid := absurd hid List.not_mem_nil
  running p _ := by simp

/-- A task that is terminal is left as it is. -/
theorem cancelled_terminal {id : Uuid} {t : TaskRow} (hs : s.life.Consistent)
    (ht : s.tasks.get? id = some t) (hterminal : t.state.terminal = true) :
  Cancelled [id] s s
  where
  consistent := hs
  others _ _ := rfl
  ended id' hid t' ht' := by
    obtain rfl := List.mem_singleton.mp hid
    rw [ht] at ht'
    obtain rfl := Option.some.inj ht'
    exact hterminal
  running p hp := by
    apply List.filter_congr
    intro r hr
    cases hpr : p r with
    | false => rfl
    | true =>
        obtain ⟨t', ht', hlive, -⟩ := task_of_active hs hr (active_of_failing (.inl (hp r hpr)))
        have hne : r.taskId ≠ id := by
          rintro rfl
          have heq : some t' = some t := ht'.symm.trans ht
          rw [Option.some.inj heq, hterminal] at hlive
          cases hlive
        simp [hne]

theorem cancelled_markCancelled {id : Uuid} (h' : (markCancelled s now id).life.Consistent) :
  Cancelled [id] s (markCancelled s now id)
  where
  consistent := h'
  others id' hid := by
    change (s.tasks.update _ _).get? id' = _
    rw [Keyed.Table.get?_update]
    cases ht : s.tasks.get? id' with
    | none => rfl
    | some t =>
        rw [Option.map_some, if_neg]
        rw [Keyed.Table.key_of_get? ht]
        simpa using hid
  ended id' hid t' ht' := by
    obtain rfl := List.mem_singleton.mp hid
    change (s.tasks.update _ _).get? id' = _ at ht'
    rw [Keyed.Table.get?_update] at ht'
    obtain ⟨t, ht, rfl⟩ := Option.map_eq_some_iff.mp ht'
    rw [if_pos (decide_eq_true (Keyed.Table.key_of_get? ht))]
    rfl
  running p hp := by
    change (s.runs.update _ _).rows.filter p = _
    rw [Keyed.Table.update, List.filter_map]
    have hedit : ∀ r : RunRow, r.taskId ≠ id →
        (if decide (r.taskId = id ∧ r.Active) = true then RunRow.cancel.apply r else r) = r := by
      intro r hne
      rw [if_neg (by simp [hne])]
    have hkept : ∀ r ∈ s.runs.rows,
        (p ∘ fun r => if decide (r.taskId = id ∧ r.Active) = true then RunRow.cancel.apply r else r) r
          = (p r && decide (r.taskId ∉ [id])) := by
      intro r _
      rw [Function.comp_apply]
      by_cases hid : r.taskId = id
      · have hidle : ∀ r' : RunRow, r'.state ≠ .running → p r' = false := by
          intro r' hne
          exact Bool.eq_false_iff.mpr (fun hpr => hne (hp r' hpr))
        by_cases ha : r.Active
        · rw [if_pos (by simp [hid, ha]), hidle _ (by rintro ⟨⟩)]
          simp [hid]
        · rw [if_neg (by simp [ha]), hidle r (fun hrunning => ha (active_of_failing (.inl hrunning)))]
          rfl
      · rw [hedit r hid]
        simp [hid]
    rw [List.filter_congr hkept]
    conv_rhs => rw [← List.map_id (s.runs.rows.filter _)]
    apply List.map_congr_left
    intro r hr
    have hcond := (List.mem_filter.mp hr).2
    simp only [Bool.and_eq_true, decide_eq_true_eq, List.mem_singleton] at hcond
    exact hedit r hcond.2

theorem cancelled_cancelTask {id : Uuid} (hs : s.life.Consistent)
    (hcancel : cancelTask s now id = .ok s') :
  Cancelled [id] s s'
  := by
  have hconsistent := (refines_cancelTask (P := fun _ => True) trivial hcancel).consistent hs
  rw [cancelTask] at hcancel
  split at hcancel
  · cases hcancel
  · rename_i t ht
    split at hcancel
    · rename_i hterminal
      obtain rfl := Except.ok.inj hcancel
      exact cancelled_terminal hs ht hterminal
    · obtain rfl := Except.ok.inj hcancel
      exact cancelled_markCancelled hconsistent

theorem Cancelled.trans {due due' : List Uuid} {s₁ : QueueState} (h : Cancelled due s s₁)
    (h' : Cancelled due' s₁ s') :
  Cancelled (due ++ due') s s'
  where
  consistent := h'.consistent
  others id hid := by
    rw [List.mem_append, not_or] at hid
    rw [h'.others id hid.2, h.others id hid.1]
  ended id hid t ht := by
    by_cases hid' : id ∈ due'
    · exact h'.ended id hid' t ht
    · rw [h'.others id hid'] at ht
      exact h.ended id ((List.mem_append.mp hid).resolve_right hid') t ht
  running p hp := by
    rw [h'.running p hp, h.running]
    · congr 1
      funext r
      simp only [List.mem_append, not_or, Bool.decide_and]
      cases p r <;> simp [Bool.and_comm]
    · intro r hr
      exact hp r (Bool.and_eq_true_iff.mp hr).1

theorem cancelled_foldlM {due : List Uuid} (hs : s.life.Consistent)
    (hcancel : due.foldlM (fun s id => cancelTask s now id) s = .ok s') :
  Cancelled due s s'
  := by
  induction due generalizing s with
  | nil =>
      obtain rfl := Except.ok.inj hcancel
      exact cancelled_nil hs
  | cons id due ih =>
      obtain ⟨s₁, hfirst, hrest⟩ := Except.foldlM_cons_eq_ok.mp hcancel
      have hcancelled := cancelled_cancelTask hs hfirst
      exact hcancelled.trans (ih hcancelled.consistent hrest)

/-- Once a claim has cancelled what its rules apply to, no rule applies. -/
theorem quiet_of_cancelled {due : List Uuid} (hdue : cancelCandidates pg s now = .ok due)
    (h : Cancelled due s s') :
  Quiet pg s' now
  := by
  intro t ht hlive
  have hget : s'.tasks.get? t.taskId = some t := Keyed.Table.get?_of_mem ht
  have hnot : t.taskId ∉ due := by
    intro hid
    rw [h.ended _ hid t hget] at hlive
    cases hlive
  rw [h.others _ hnot] at hget
  rcases cancelCandidates_eq_ok hdue t (Keyed.Table.mem_of_get? hget) hlive with ⟨hid, -⟩ | ⟨-, hfalse⟩
  · exact absurd hid hnot
  · exact hfalse

/-! ### A claim that takes nothing -/

/-- The runs whose claim has expired and that a claim does not cancel, the oldest first. -/
def overdueRuns (pg : Postgres) (s : QueueState) (now : Time) : List RunRow :=
  (s.runs.rows.filter (fun r =>
    decide (r.Expired now) && !(s.tasks.get? r.taskId).any (TaskRow.Cancels pg now))).mergeSort
      (expiresBefore pg)

theorem nodup_overdueRuns (pg : Postgres) (s : QueueState) (now : Time) :
  (overdueRuns pg s now).Nodup
  := by
  apply (List.mergeSort_perm _ _).nodup_iff.mpr
  exact (List.Nodup.of_map _ s.runs.nodup).filter _

/-- Once a claim has cancelled what its rules apply to, the expired runs are the overdue
ones. -/
theorem filter_expired_cancelled {due : List Uuid} (hs : s.life.Consistent)
    (hdue : cancelCandidates pg s now = .ok due) (h : Cancelled due s s') :
  s'.runs.rows.filter (fun r => r.Expired now)
    = s.runs.rows.filter (fun r =>
        decide (r.Expired now) && !(s.tasks.get? r.taskId).any (TaskRow.Cancels pg now))
  := by
  rw [h.running _ (fun r hr => (of_decide_eq_true hr).1)]
  apply List.filter_congr
  intro r hr
  by_cases hexpired : r.Expired now
  · obtain ⟨t, htask, hlive, -⟩ := task_of_active hs hr (active_of_failing (.inl hexpired.1))
    have ht : s.tasks.get? r.taskId = some t := htask
    have hverdict := cancelCandidates_eq_ok hdue t (Keyed.Table.mem_of_get? ht) hlive
    rw [Keyed.Table.key_of_get? ht] at hverdict
    rw [ht, Option.any_some, TaskRow.Cancels]
    rcases hverdict with ⟨hin, htrue⟩ | ⟨hout, hfalse⟩
    · simp [htrue, hin]
    · simp [hfalse, hout]
  · rw [decide_eq_false hexpired]
    rfl

/-- The runs a claim fails are the oldest of the overdue ones. -/
theorem expiredRuns_cancelled {due : List Uuid} (hs : s.life.Consistent)
    (hdue : cancelCandidates pg s now = .ok due) (h : Cancelled due s s') (limit : ℕ) :
  expiredRuns pg s' now limit = (overdueRuns pg s now).take limit
  := by
  rw [overdueRuns, ← filter_expired_cancelled hs hdue h]
  rfl

theorem mem_overdueRuns {due : List Uuid} (hs : s.life.Consistent)
    (hdue : cancelCandidates pg s now = .ok due) (h : Cancelled due s s') :
  r ∈ overdueRuns pg s now ↔ r ∈ s'.runs.rows ∧ r.Expired now
  := by
  rw [overdueRuns, List.mem_mergeSort, ← filter_expired_cancelled hs hdue h, List.mem_filter,
    decide_eq_true_eq]

/-- The overdue runs a claim does not fail. -/
theorem mem_drop_overdueRuns (limit : ℕ) :
  r ∈ (overdueRuns pg s now).drop limit
    ↔ r ∈ overdueRuns pg s now ∧ r ∉ (overdueRuns pg s now).take limit
  := by
  have hnodup := nodup_overdueRuns pg s now
  have hsplit := List.take_append_drop limit (overdueRuns pg s now)
  rw [← hsplit, List.nodup_append] at hnodup
  conv_rhs => rw [← hsplit, List.mem_append]
  rw [hsplit]
  constructor
  · intro hr
    use .inr hr
    intro hr'
    exact hnodup.2.2 r hr' r hr rfl
  · rintro ⟨hr | hr, hnot⟩
    · exact absurd hr hnot
    · exact hr

/-- The steps of a claim. -/
theorem claimTask_eq_ok {worker : String} {timeout qty : ℤ} {claimed : List Uuid}
    (h : claimTask pg s now worker timeout qty = .ok (s', claimed)) :
  ∃ due s₁ s₂, cancelCandidates pg s now = .ok due
    ∧ due.foldlM (fun s id => cancelTask s now id) s = .ok s₁
    ∧ sweep pg now (expiredRuns pg s₁ now (max qty 1).toNat) s₁ = .ok s₂
    ∧ claimed = (claimCandidates pg s₂ now (max qty 1).toNat).map RunRow.runId
    ∧ s' = (claimCandidates pg s₂ now (max qty 1).toNat).foldl
        (markClaimed now (if worker = "" then "worker" else worker)
          (if 0 < timeout then some (now + seconds timeout) else none)) s₂
  := by
  simp only [claimTask, Bind.bind, Except.bind, pure, Except.pure] at h
  split at h
  · cases h
  · rename_i due hdue
    split at h
    · cases h
    · rename_i s₁ hcancelled
      split at h
      · cases h
      · rename_i s₂ hswept
        cases h
        exact ⟨due, s₁, s₂, hdue, hcancelled, hswept, rfl, rfl⟩

/-- A claim with nothing to cancel takes what there is to take after its sweep. -/
theorem claimTask_of_sweep {worker : String} {timeout qty : ℤ}
    (hdue : cancelCandidates pg s now = .ok [])
    (hsweep : sweep pg now (expiredRuns pg s now (max qty 1).toNat) s = .ok s') :
  claimTask pg s now worker timeout qty
    = .ok ((claimCandidates pg s' now (max qty 1).toNat).foldl
        (markClaimed now (if worker = "" then "worker" else worker)
          (if 0 < timeout then some (now + seconds timeout) else none)) s',
      (claimCandidates pg s' now (max qty 1).toNat).map RunRow.runId)
  := by
  rw [sweep] at hsweep
  simp only [claimTask, hdue, Bind.bind, Except.bind, pure, Except.pure, List.foldlM_nil, hsweep]

/-- A claim of all there is to take, with nothing to cancel or to fail. -/
theorem claimTask_all {worker : String} {timeout qty : ℤ} {rs : List RunRow}
    (hdue : (s.tasks.rows.filter (fun t => !t.state.terminal)).filterM
      (cancellationDue pg now) = .ok [])
    (hexpired : s.runs.rows.filter (fun r => r.Expired now) = [])
    (hclaimed : s.runs.rows.filter (fun r => (r.state = .pending ∨ r.state = .sleeping)
      ∧ (s.tasks.get? r.taskId).any (fun t => !t.state.terminal)
      ∧ r.availableAt ≤ (now : WithTop Time)) = rs)
    (hsorted : rs.Pairwise (fun r r' => availableBefore pg r r'))
    (hlength : rs.length ≤ (max qty 1).toNat) :
  claimTask pg s now worker timeout qty
    = .ok (rs.foldl (markClaimed now (if worker = "" then "worker" else worker)
        (if 0 < timeout then some (now + seconds timeout) else none)) s, rs.map RunRow.runId)
  := by
  have hcancel : cancelCandidates pg s now = .ok [] := by
    rw [cancelCandidates, hdue]
    exact congrArg Except.ok List.mergeSort_nil
  have hsweep : expiredRuns pg s now (max qty 1).toNat = [] := by
    rw [expiredRuns]
    change (List.mergeSort (s.runs.rows.filter (fun r => r.Expired now))
      (expiresBefore pg)).take _ = _
    rw [hexpired, List.mergeSort_nil, List.take_nil]
  have hcandidates : claimCandidates pg s now (max qty 1).toNat = rs := by
    rw [claimCandidates, hclaimed, List.mergeSort_of_pairwise hsorted]
    exact List.take_of_length_le hlength
  exact claimTask_of_quiet hcancel hsweep hcandidates

/-- A claim of one run, where there is one and nothing to cancel or to fail. -/
theorem claimTask_one {worker : String} {timeout : ℤ}
    (hdue : (s.tasks.rows.filter (fun t => !t.state.terminal)).filterM
      (cancellationDue pg now) = .ok [])
    (hexpired : s.runs.rows.filter (fun r => r.Expired now) = [])
    (hclaimed : s.runs.rows.filter (fun r => (r.state = .pending ∨ r.state = .sleeping)
      ∧ (s.tasks.get? r.taskId).any (fun t => !t.state.terminal)
      ∧ r.availableAt ≤ (now : WithTop Time)) = [r]) :
  claimTask pg s now worker timeout 1
    = .ok (markClaimed now (if worker = "" then "worker" else worker)
        (if 0 < timeout then some (now + seconds timeout) else none) s r, [r.runId])
  := claimTask_all hdue hexpired hclaimed (List.pairwise_singleton _ r) le_rfl

/-- At a time, no claim of any size takes a run. -/
def Exhausted (pg : Postgres) (s : QueueState) (now : Time) : Prop :=
  ∀ (worker : String) (timeout qty : ℤ) (s' : QueueState) (claimed : List Uuid),
    claimTask pg s now worker timeout qty = .ok (s', claimed) → claimed = []

/-- A quiet queue is exhausted exactly when there is no run to take and failing an expired
run leaves none. -/
theorem exhausted_iff_of_quiet (hs : s.life.Consistent) (hquiet : Quiet pg s now) :
  Exhausted pg s now
    ↔ (∀ r, ¬ Claimable s now r) ∧ ∀ r ∈ s.runs.rows, r.Expired now → ¬ RetriedAtOnce pg s now r
  := by
  have hexpired : ∀ limit, (∀ r ∈ expiredRuns pg s now limit,
      r ∈ s.runs.rows ∧ r.state = .running) := by
    intro limit r hr
    obtain ⟨hrow, hexpired⟩ := mem_expiredRuns hr
    exact ⟨hrow, hexpired.1⟩
  have hnodup : ∀ limit, (expiredRuns pg s now limit).Nodup := by
    intro limit
    apply List.Nodup.sublist (List.take_sublist limit _)
    apply (List.mergeSort_perm _ _).nodup_iff.mpr
    exact (List.Nodup.of_map _ s.runs.nodup).filter _
  constructor
  · intro h
    -- a claim that sweeps every expired run
    let qty : ℤ := s.runs.rows.length
    obtain ⟨s', hsweep⟩ := sweep_isOk hs hquiet (hexpired (max qty 1).toNat) (hnodup _)
    have hclaim : claimTask pg s now "" 0 qty = _ :=
      claimTask_of_sweep (cancelCandidates_of_quiet hquiet) hsweep
    have hnone := List.map_eq_nil_iff.mp (h _ _ _ _ _ hclaim)
    rw [claimCandidates_eq_nil (by omega)] at hnone
    have hclaimable := (sweeps_sweep hs (hexpired _) (hnodup _) hsweep).claimable
    constructor
    · intro r hr
      obtain ⟨r', hr'⟩ := hclaimable.mpr (.inl ⟨r, hr⟩)
      exact hnone r' hr'
    · intro r hr hexp hretried
      have hmem : r ∈ expiredRuns pg s now (max qty 1).toNat := by
        rw [expiredRuns, List.take_of_length_le, List.mem_mergeSort, List.mem_filter]
        · exact ⟨hr, decide_eq_true hexp⟩
        · rw [List.length_mergeSort]
          have hle := List.length_filter_le
            (fun r : RunRow => decide (r.state = .running ∧ (r.claimExpiresAt.any (· ≤ now)) = true))
            s.runs.rows
          omega
      obtain ⟨r', hr'⟩ := hclaimable.mpr (.inr ⟨r, hmem, hretried⟩)
      exact hnone r' hr'
  · rintro ⟨hnone, hexp⟩ worker timeout qty s' claimed hclaim
    obtain ⟨due, s₁, s₂, hdue, hcancelled, hsweep, rfl, -⟩ := claimTask_eq_ok hclaim
    rw [cancelCandidates_of_quiet hquiet] at hdue
    obtain rfl := Except.ok.inj hdue
    obtain rfl := Except.ok.inj hcancelled
    rw [List.map_eq_nil_iff, claimCandidates_eq_nil (by omega)]
    intro r hr
    rcases (sweeps_sweep hs (hexpired _) (hnodup _) hsweep).claimable.mp ⟨r, hr⟩
      with ⟨r', hr'⟩ | ⟨r', hr', hretried⟩
    · exact hnone r' hr'
    · obtain ⟨hrow, hexp'⟩ := mem_expiredRuns hr'
      exact hexp r' hrow hexp' hretried

/-- After a claim that took nothing, nothing can be taken exactly when none of the overdue
runs beyond those it failed would leave a run that is due at once. -/
theorem exhausted_iff_of_claim {worker : String} {timeout qty : ℤ} (hs : s.life.Consistent)
    (hclaim : claimTask pg s now worker timeout qty = .ok (s', [])) :
  Exhausted pg s' now
    ↔ ∀ r ∈ (overdueRuns pg s now).drop (max qty 1).toNat, ¬ RetriedAtOnce pg s now r
  := by
  obtain ⟨due, s₁, s₂, hdue, hcancelled, hsweep, hnone, hs'⟩ := claimTask_eq_ok hclaim
  have hempty := List.map_eq_nil_iff.mp hnone.symm
  rw [hempty] at hs'
  obtain rfl : s' = s₂ := hs'
  have hcancel := cancelled_foldlM hs hcancelled
  have hquiet := quiet_of_cancelled hdue hcancel
  have hrows : ∀ r ∈ expiredRuns pg s₁ now (max qty 1).toNat,
      r ∈ s₁.runs.rows ∧ r.state = .running := by
    intro r hr
    obtain ⟨hrow, hexpired⟩ := mem_expiredRuns hr
    exact ⟨hrow, hexpired.1⟩
  rw [expiredRuns_cancelled hs hdue hcancel] at hsweep hrows
  have hsweeps := sweeps_sweep hcancel.consistent hrows
    ((nodup_overdueRuns pg s now).sublist (List.take_sublist _ _)) hsweep
  rw [exhausted_iff_of_quiet hsweeps.consistent (hsweeps.quiet hquiet)]
  have hleft : ∀ r, (r ∈ s'.runs.rows ∧ r.Expired now)
      ↔ r ∈ (overdueRuns pg s now).drop (max qty 1).toNat := by
    intro r
    rw [mem_drop_overdueRuns, mem_overdueRuns hs hdue hcancel]
    constructor
    · rintro ⟨hr, hexpired⟩
      obtain ⟨hrow, hnot⟩ := (hsweeps.running r hexpired.1).mp hr
      exact ⟨⟨hrow, hexpired⟩, hnot⟩
    · rintro ⟨⟨hrow, hexpired⟩, hnot⟩
      exact ⟨(hsweeps.running r hexpired.1).mpr ⟨hrow, hnot⟩, hexpired⟩
  have htask : ∀ r ∈ s'.runs.rows, r.Expired now →
      s'.tasks.get? r.taskId = s.tasks.get? r.taskId := by
    intro r hr hexpired
    obtain ⟨hrow, -⟩ := (hsweeps.running r hexpired.1).mp hr
    rw [hsweeps.tasks r hr hexpired.1]
    apply hcancel.others
    intro hid
    obtain ⟨t, ht, hlive, -⟩ := task_of_active hcancel.consistent hrow
      (active_of_failing (.inl hexpired.1))
    rw [hcancel.ended _ hid t ht] at hlive
    cases hlive
  constructor
  · rintro ⟨-, hexp⟩ r hr hretried
    obtain ⟨hrow, hexpired⟩ := (hleft r).mpr hr
    exact hexp r hrow hexpired ((RetriedAtOnce.congr (htask r hrow hexpired)).mpr hretried)
  · intro hexp
    use (claimCandidates_eq_nil (by omega)).mp hempty
    intro r hrow hexpired hretried
    exact hexp r ((hleft r).mp ⟨hrow, hexpired⟩)
      ((RetriedAtOnce.congr (htask r hrow hexpired)).mp hretried)

end

end DjangoAbsurd.Engine
