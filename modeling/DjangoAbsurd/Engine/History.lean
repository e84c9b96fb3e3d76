import DjangoAbsurd.Engine.Consistency

/-!
# The history of tasks and runs

A change makes something of each run (`Change.run`) and of each task (`Change.task`) on its
own and may add runs (`Change.added`). So the history of one task is the history of its row
and of the list of its runs, which only grows at the end until a cleanup takes the task.
-/

namespace DjangoAbsurd.Engine

/-- What a task was spawned with. -/
def TaskRow.origin (t : TaskRow) : Uuid × String × Json × Time × Option String :=
  (t.taskId, t.taskName, t.params, t.enqueueAt, t.idempotencyKey)

/-- What two rows of one origin have in common. -/
theorem TaskRow.eq_of_origin {t t' : TaskRow} (h : t'.origin = t.origin) :
  t'.taskId = t.taskId ∧ t'.taskName = t.taskName ∧ t'.params = t.params
    ∧ t'.idempotencyKey = t.idempotencyKey
  := by
  simp only [TaskRow.origin, Prod.mk.injEq] at h
  obtain ⟨hid, hname, hparams, -, hkey⟩ := h
  exact ⟨hid, hname, hparams, hkey⟩

namespace Change

/-- What a change makes of a run. -/
def run (c : Change) (r : RunRow) : RunRow :=
  match c with
  | .claim now worker claimUntil r₀ =>
      if r.runId = r₀.runId then (RunRow.claim now worker claimUntil).apply r else r
  | .park r₀ e => if r.runId = r₀.runId then e.apply r else r
  | .wakeRun now payload r₀ => if r.runId = r₀.runId then (RunRow.wake now payload).apply r else r
  | .adjust r₀ e => if r.runId = r₀.runId then e.apply r else r
  | .complete now r₀ payload =>
      if r.runId = r₀.runId then (RunRow.complete now payload).apply r else r
  | .failForGood now r₀ reason | .failCancelled now r₀ reason | .failRetried now r₀ reason _ =>
      if r.runId = r₀.runId then (RunRow.fail now reason).apply r else r
  | .cancel _ id => if r.taskId = id ∧ r.Active then RunRow.cancel.apply r else r
  | .draw _ | .spawn _ _ | .wakeTask _ | .retry _ _ _ | .delete _ => r

/-- What a change makes of a task. -/
def task (k : Lifecycle) (c : Change) (t : TaskRow) : TaskRow :=
  match c with
  | .claim now _ _ r => if t.taskId = r.taskId then (TaskRow.claim now r).apply t else t
  | .park r _ => if t.taskId = r.taskId then (TaskRow.withState .sleeping).apply t else t
  | .wakeTask id => if t.taskId = id then (TaskRow.withState .pending).apply t else t
  | .complete _ r payload =>
      if t.taskId = r.taskId then (TaskRow.complete r.runId payload).apply t else t
  | .failForGood _ r _ =>
      if t.taskId = r.taskId then (TaskRow.settle .failed r.attempt r.runId none).apply t else t
  | .failCancelled now r _ =>
      if t.taskId = r.taskId then
        (TaskRow.settle .cancelled r.attempt r.runId (some now)).apply t
      else t
  | .failRetried now r _ available =>
      if t.taskId = r.taskId then
        (TaskRow.settle (retriedState now available) (r.attempt + 1) ⟨k.drawn⟩ none).apply t
      else t
  | .cancel now id => if t.taskId = id then (TaskRow.cancel now).apply t else t
  | .retry _ t₀ maxAttempts =>
      if t.taskId = t₀.taskId then
        (TaskRow.retry (t₀.attempts + 1) maxAttempts ⟨k.drawn⟩).apply t
      else t
  | .draw _ | .spawn _ _ | .wakeRun _ _ _ | .adjust _ _ | .delete _ => t

/-- The runs a change adds. -/
def added (k : Lifecycle) : Change → List RunRow
  | .spawn now t => [newRun ⟨t.taskId.index + 1⟩ t.taskId 1 .pending now now]
  | .failRetried now r _ available =>
      [newRun ⟨k.drawn⟩ r.taskId (r.attempt + 1) (retriedState now available) available now]
  | .retry now t _ => [newRun ⟨k.drawn⟩ t.taskId (t.attempts + 1) .pending now now]
  | _ => []

/-- The change does not delete a task. -/
def Spares (id : Uuid) : Change → Prop
  | .delete batch => id ∉ batch
  | _ => True

variable {k : Lifecycle} {c : Change}

@[simp]
theorem runId_run (c : Change) (r : RunRow) :
  (c.run r).runId = r.runId
  := by
  cases c <;> simp only [run] <;> try split
  all_goals first | rfl | apply Keyed.Edit.key_apply

@[simp]
theorem taskId_run (c : Change) (r : RunRow) :
  (c.run r).taskId = r.taskId
  := by
  cases c <;> simp only [run] <;> try split
  all_goals first | rfl | apply RunEdit.taskId_apply

/-! ### The rows after a change -/

/-- A run after a change is what the change made of a run, or one it added. -/
theorem mem_runs_apply {r' : RunRow} (h : r' ∈ (c.apply k).runs.rows) :
  (∃ r ∈ k.runs.rows, c.run r = r') ∨ r' ∈ c.added k
  := by
  cases c with
  | draw drawn | wakeTask id => exact .inl ⟨r', h, rfl⟩
  | spawn now t =>
      rcases Keyed.Table.mem_put.mp h with rfl | ⟨hr, -⟩
      · right
        apply List.mem_singleton_self
      · exact .inl ⟨r', hr, rfl⟩
  | claim _ _ _ r₀ | park r₀ _ | wakeRun _ _ r₀ | adjust r₀ _ | complete _ r₀ _
  | failForGood _ r₀ _ | failCancelled _ r₀ _ | cancel now id =>
      obtain ⟨r, hr, rfl⟩ := Keyed.Table.mem_update.mp h
      left
      use r, hr
      simp [run]
  | failRetried now r₀ reason available =>
      rcases Keyed.Table.mem_put.mp h with rfl | ⟨hr, -⟩
      · right
        apply List.mem_singleton_self
      · obtain ⟨r₁, hr₁, rfl⟩ := Keyed.Table.mem_update.mp hr
        left
        use r₁, hr₁
        simp [run]
  | retry now t maxAttempts =>
      rcases Keyed.Table.mem_put.mp h with rfl | ⟨hr, -⟩
      · right
        apply List.mem_singleton_self
      · exact .inl ⟨r', hr, rfl⟩
  | delete batch => exact .inl ⟨r', (Keyed.Table.mem_delete.mp h).1, rfl⟩

/-- A change keeps the ids drawn. -/
theorem drawn_le_apply (hc : c.Allowed k) :
  k.drawn ≤ (c.apply k).drawn
  := by
  cases c with
  | draw drawn => exact hc
  | spawn now t => exact Nat.le_add_right _ _
  | failRetried | retry => exact Nat.le_succ _
  | _ => exact le_rfl

/-- The runs a change adds are new, have not started and have no worker. -/
theorem added_fresh (hc : c.Allowed k) {r : RunRow} (hr : r ∈ c.added k) :
  k.drawn ≤ r.runId.index ∧ r.startedAt = none ∧ r.claimedBy = none
  := by
  cases c with
  | spawn now t =>
      obtain rfl := List.mem_singleton.mp hr
      refine ⟨?_, rfl, rfl⟩
      simp only [newRun, hc.1.taskId]
      exact Nat.le_succ _
  | failRetried | retry =>
      obtain rfl := List.mem_singleton.mp hr
      exact ⟨le_rfl, rfl, rfl⟩
  | _ => cases hr

/-- A run put in anew comes after the runs of its task. -/
theorem runsOf_put {k j : Lifecycle} {n : RunRow} (hruns : j.runs = k.runs.put n)
    (hfresh : ∀ r ∈ k.runs.rows, r.runId ≠ n.runId) (id : Uuid) :
  j.runsOf id = k.runsOf id ++ [n].filter (fun r => r.taskId = id)
  := by
  have hinsert := Lifecycle.runsOf_insertRun hfresh id
  rw [Lifecycle.runsOf, hruns]
  apply hinsert.trans
  by_cases hid : n.taskId = id <;> simp [hid]

/-- The runs of a task after a change that spares it. -/
theorem runsOf_apply (h : k.Consistent) (hc : c.Allowed k) {id : Uuid} (hs : c.Spares id) :
  (c.apply k).runsOf id
    = (k.runsOf id).map c.run ++ (c.added k).filter (fun r => r.taskId = id)
  := by
  have hfresh : ∀ r ∈ c.added k, ∀ r' ∈ k.runs.rows, (c.run r').runId ≠ r.runId := by
    intro r hr r' hr' heq
    have hdrawn := h.runDrawn r' hr'
    rw [← runId_run c, heq] at hdrawn
    exact absurd (added_fresh hc hr).1 (Nat.not_le.mpr hdrawn)
  have hsame : (∀ r, c.run r = r) → (k.runsOf id).map c.run = k.runsOf id := fun hrun =>
    List.map_id'' hrun _
  cases c with
  | draw | wakeTask =>
      rw [hsame (fun _ => rfl)]
      exact (List.append_nil _).symm
  | spawn now t =>
      rw [runsOf_put (k := k) rfl (hfresh _ (List.mem_singleton_self _)),
        hsame (fun _ => rfl)]
      rfl
  | claim _ _ _ r₀ | park r₀ _ | wakeRun _ _ r₀ | adjust r₀ _ | complete _ r₀ _
  | failForGood _ r₀ _ | failCancelled _ r₀ _ | cancel _ r₀ =>
      apply (k.runsOf_updateRuns _ _ id).trans
      simp [run, added]
  | failRetried now r₀ reason available =>
      rw [runsOf_put (k := k.updateRun r₀.runId (RunRow.fail now reason)) rfl]
      · apply congrArg (· ++ _)
        apply (k.runsOf_updateRuns _ _ id).trans
        simp [run]
      · intro r hr
        obtain ⟨r₁, hr₁, rfl⟩ := Keyed.Table.mem_update.mp hr
        have hne := hfresh _ (List.mem_singleton_self _) r₁ hr₁
        simpa [run] using hne
  | retry now t maxAttempts =>
      rw [runsOf_put (k := k) rfl (hfresh _ (List.mem_singleton_self _)),
        hsame (fun _ => rfl)]
      rfl
  | delete batch =>
      rw [hsame (fun _ => rfl)]
      simp only [apply, added, Lifecycle.runsOf, Lifecycle.delete, Keyed.Table.delete,
        List.filter_filter, List.filter_nil, List.append_nil]
      apply List.filter_congr
      intro r _
      by_cases hid : r.taskId = id
      · simp [hid, show id ∉ batch from hs]
      · simp [hid]

/-- A task after a change is what the change made of a task, or it is spawned by it. -/
theorem mem_tasks_apply {t' : TaskRow} (h : t' ∈ (c.apply k).tasks.rows) :
  (∃ t ∈ k.tasks.rows, c.task k t = t') ∨ ∃ now, c = .spawn now t'
  := by
  cases c with
  | draw | wakeRun | adjust => exact .inl ⟨t', h, rfl⟩
  | spawn now t =>
      rcases Keyed.Table.mem_put.mp h with rfl | ⟨ht, -⟩
      · exact .inr ⟨now, rfl⟩
      · exact .inl ⟨t', ht, rfl⟩
  | delete batch => exact .inl ⟨t', (Keyed.Table.mem_delete.mp h).1, rfl⟩
  | _ =>
      obtain ⟨t, ht, rfl⟩ := Keyed.Table.mem_update.mp h
      left
      use t, ht
      simp [task]

/-- The row of a task after a change that spares it. -/
theorem get?_tasks_apply (h : k.Consistent) (hc : c.Allowed k) {id : Uuid} (hs : c.Spares id)
    {t : TaskRow} (ht : k.tasks.get? id = some t) :
  (c.apply k).tasks.get? id = some (c.task k t)
  := by
  have hupdate : ∀ {id' : Uuid} {e : Keyed.Edit TaskRow.taskId},
      (k.tasks.update (fun t => t.taskId = id') e).get? id
        = some (if t.taskId = id' then e.apply t else t) := by
    intro id' e
    rw [Keyed.Table.get?_update, ht]
    simp
  cases c with
  | draw | wakeRun | adjust => exact ht
  | spawn now t' =>
      have hne : id ≠ t'.taskId := by
        rintro rfl
        have hdrawn := h.taskDrawn t (Keyed.Table.mem_of_get? ht)
        rw [Keyed.Table.key_of_get? ht, hc.1.taskId] at hdrawn
        exact absurd hdrawn (Nat.lt_irrefl _)
      apply Eq.trans (Keyed.Table.get?_put_of_ne _ hne) ht
  | delete batch =>
      apply (Keyed.Table.get?_delete _ _ _).trans
      rw [ht, Option.filter_some]
      simp [Keyed.Table.key_of_get? ht, show id ∉ batch from hs, task]
  | _ => exact hupdate

/-! ### What stays -/

/-- A change leaves what a task was spawned with as it is. -/
theorem origin_task (k : Lifecycle) (c : Change) (t : TaskRow) :
  (c.task k t).origin = t.origin
  := by
  cases c <;> simp only [task] <;> try split
  all_goals rfl

/-- A change leaves a run that has ended as it is. -/
theorem run_of_ended (hc : c.Allowed k) {r : RunRow} (hr : r ∈ k.runs.rows) (ha : ¬ r.Active) :
  (c.run r).state = r.state ∧ (c.run r).claimedBy = r.claimedBy ∧ (c.run r).times = r.times
  := by
  have hother : ∀ r₀ ∈ k.runs.rows, r₀.Active → r.runId ≠ r₀.runId := by
    intro r₀ hr₀ ha₀ hid
    rw [Keyed.Table.eq_of_key_eq hr hr₀ hid] at ha
    exact ha ha₀
  cases c with
  | draw | spawn | wakeTask | retry | delete => exact ⟨rfl, rfl, rfl⟩
  | claim _ _ _ r₀ | wakeRun _ _ r₀ =>
      rw [run, if_neg (hother r₀ hc.1 (active_of_waiting hc.2))]
      exact ⟨rfl, rfl, rfl⟩
  | park r₀ e =>
      rw [run, if_neg (hother r₀ hc.1 (active_of_running hc.2.1))]
      exact ⟨rfl, rfl, rfl⟩
  | adjust r₀ e =>
      rw [run]
      split
      · exact ⟨hc.2.state r, hc.2.claimedBy r, hc.2.times r⟩
      · exact ⟨rfl, rfl, rfl⟩
  | complete _ r₀ _ =>
      rw [run, if_neg (hother r₀ hc.1 (active_of_running hc.2))]
      exact ⟨rfl, rfl, rfl⟩
  | failForGood _ r₀ _ | failCancelled _ r₀ _ | failRetried _ r₀ _ _ =>
      rw [run, if_neg (hother r₀ hc.1 (active_of_failing hc.2))]
      exact ⟨rfl, rfl, rfl⟩
  | cancel now id =>
      rw [run, if_neg (fun hactive => ha hactive.2)]
      exact ⟨rfl, rfl, rfl⟩

/-- A change leaves the start of a run as it is, or the run is claimed. -/
theorem startedAt_run (hc : c.Allowed k) (r : RunRow) :
  (c.run r).startedAt = r.startedAt
    ∨ ∃ now worker claimUntil r₀, c = .claim now worker claimUntil r₀ ∧ r.runId = r₀.runId
      ∧ (c.run r).startedAt = some now
  := by
  have hkept : ∀ {e : RunEdit}, (e.apply r).times = r.times → (e.apply r).startedAt = r.startedAt :=
    fun htimes => (Prod.mk.inj htimes).1
  cases c with
  | draw | spawn | wakeTask | retry | delete => exact .inl rfl
  | claim now worker claimUntil r₀ =>
      rw [run]
      split
      · rename_i hid
        exact .inr ⟨now, worker, claimUntil, r₀, rfl, hid, rfl⟩
      · exact .inl rfl
  | park r₀ e =>
      rw [run]
      split
      · exact .inl (hkept (hc.2.2.times r))
      · exact .inl rfl
  | adjust r₀ e =>
      rw [run]
      split
      · exact .inl (hkept (hc.2.times r))
      · exact .inl rfl
  | _ =>
      rw [run]
      split <;> exact .inl rfl

/-- A run that has started stays started. -/
theorem started_run (hc : c.Allowed k) {r : RunRow} (hr : r.startedAt ≠ none) :
  (c.run r).startedAt ≠ none
  := by
  rcases startedAt_run hc r with hsame | ⟨now, -, -, -, -, -, hnow⟩
  · rwa [hsame]
  · rw [hnow]
    exact Option.some_ne_none now

/-- A change leaves the first start of a task as it is, or a run of the task is claimed. -/
theorem firstStartedAt_task (k : Lifecycle) (c : Change) (t : TaskRow) :
  (c.task k t).firstStartedAt = t.firstStartedAt
    ∨ ∃ now worker claimUntil r₀, c = .claim now worker claimUntil r₀ ∧ t.taskId = r₀.taskId
      ∧ (c.task k t).firstStartedAt = t.firstStartedAt.or (some now)
  := by
  cases c with
  | draw | spawn | wakeRun | adjust | delete => exact .inl rfl
  | claim now worker claimUntil r₀ =>
      rw [task]
      split
      · rename_i hid
        exact .inr ⟨now, worker, claimUntil, r₀, rfl, hid, rfl⟩
      · exact .inl rfl
  | _ =>
      rw [task]
      split <;> exact .inl rfl

end Change

/-! ### Runs that have ended -/

/-- Wherever a run that has ended is still there, it is as it was. -/
theorem ended_run {k k' : Lifecycle} {cs : List Change} {r : RunRow} (h : k.Consistent)
    (hr : r ∈ k.runs.rows) (ha : ¬ r.Active) (hrun : lifecycle.run k cs = some k') :
  ∀ r' ∈ k'.runs.rows, r'.runId = r.runId →
    r'.state = r.state ∧ r'.claimedBy = r.claimedBy ∧ r'.times = r.times
  := by
  let Kept (k : Lifecycle) : Prop := r.runId.index < k.drawn ∧ ∀ r' ∈ k.runs.rows,
    r'.runId = r.runId → r'.state = r.state ∧ r'.claimedBy = r.claimedBy ∧ r'.times = r.times
  have hkept : Kept k := by
    use h.runDrawn r hr
    intro r' hr' hid
    rw [Keyed.Table.eq_of_key_eq hr' hr hid]
    exact ⟨rfl, rfl, rfl⟩
  apply (Machine.invariant (I := Kept) _ hkept hrun).2
  rintro k₁ c k₂ ⟨hdrawn, hkept⟩ hs
  obtain ⟨hc, rfl⟩ := step_lifecycle.mp hs
  use hdrawn.trans_le (Change.drawn_le_apply hc)
  intro r' hr' hid
  rcases Change.mem_runs_apply hr' with ⟨r₁, hr₁, rfl⟩ | hadded
  · rw [Change.runId_run] at hid
    obtain ⟨hstate, hworker, htimes⟩ := hkept r₁ hr₁ hid
    have ha₁ : ¬ r₁.Active := by rwa [RunRow.Active, hstate]
    obtain ⟨hstate', hworker', htimes'⟩ := Change.run_of_ended hc hr₁ ha₁
    exact ⟨hstate'.trans hstate, hworker'.trans hworker, htimes'.trans htimes⟩
  · have hnew := (Change.added_fresh hc hadded).1
    rw [hid] at hnew
    exact absurd hdrawn (Nat.not_lt.mpr hnew)

/-! ### What tasks were spawned with -/

/-- Wherever a task is still there, it has what it was spawned with. -/
theorem origin_run {k k' : Lifecycle} {cs : List Change} {t : TaskRow} (h : k.Consistent)
    (ht : t ∈ k.tasks.rows) (hrun : lifecycle.run k cs = some k') :
  ∀ t' ∈ k'.tasks.rows, t'.taskId = t.taskId → t'.origin = t.origin
  := by
  let Kept (k : Lifecycle) : Prop := t.taskId.index < k.drawn
    ∧ ∀ t' ∈ k.tasks.rows, t'.taskId = t.taskId → t'.origin = t.origin
  have hkept : Kept k := by
    use h.taskDrawn t ht
    intro t' ht' hid
    rw [Keyed.Table.eq_of_key_eq ht' ht hid]
  apply (Machine.invariant (I := Kept) _ hkept hrun).2
  rintro k₁ c k₂ ⟨hdrawn, hkept⟩ hs
  obtain ⟨hc, rfl⟩ := step_lifecycle.mp hs
  use hdrawn.trans_le (Change.drawn_le_apply hc)
  intro t' ht' hid
  rcases Change.mem_tasks_apply ht' with ⟨t₁, ht₁, rfl⟩ | ⟨now, rfl⟩
  · have horigin := Change.origin_task k₁ c t₁
    have hid₁ : t₁.taskId = t.taskId := (TaskRow.eq_of_origin horigin).1.symm.trans hid
    exact horigin.trans (hkept t₁ ht₁ hid₁)
  · rw [← hid, hc.1.taskId] at hdrawn
    exact absurd hdrawn (Nat.lt_irrefl _)

/-- A spawn that creates a task puts in its row. -/
theorem spawnTask_created {pg : Postgres} {s s' : QueueState} {now : Time} {name : String}
    {params options : Json} {spawned : Spawned}
    (hs : spawnTask pg s now name params options = .ok (s', spawned))
    (hcreated : spawned.created = true) :
  ∃ t ∈ s'.tasks.rows, t.taskId = spawned.taskId ∧ t.taskName = name ∧ t.params = params
    ∧ t.idempotencyKey = textMember options "idempotency_key"
  := by
  obtain ⟨read, hread, ⟨hexisting, -⟩ | ⟨-, rfl, rfl⟩⟩ := spawnTask_eq_ok hs
  · rw [findExisting] at hexisting
    split at hexisting
    · rw [(findKey_eq_ok hexisting).2] at hcreated
      cases hcreated
    · cases hexisting
  · exact ⟨_, Keyed.Table.mem_put.mpr (.inl rfl), rfl, rfl, rfl, hread⟩

/-! ### Calls -/

section

variable {pg : Postgres} {s s' : QueueState} {l : Label} {id : Uuid}

/-- A call that spares a task makes changes that spare it. -/
theorem spares_of_makes {c : Change} (hs : Spares id l) (hl : l.Makes c) :
  c.Spares id
  := by
  cases c with
  | delete batch =>
      obtain ⟨now, ttlSeconds, limit, rfl⟩ := hl
      exact hs
  | _ => exact trivial

/-- A property of lifecycles that every change a call may make preserves is preserved by
the call. -/
theorem preserved_step {I : Lifecycle → Prop} (h : s.life.Consistent)
    (hstep : ∀ k c, l.Makes c → k.Consistent → c.Allowed k → I k → I (c.apply k))
    (hI : I s.life) (hs : step pg s l = some s') :
  I s'.life
  := by
  apply ((refines_step hs).invariant (I := fun k => k.Consistent ∧ I k) _ ⟨h, hI⟩).2
  rintro k c hmake hc ⟨hk, hI⟩
  exact ⟨hk.step (step_lifecycle.mpr ⟨hc, rfl⟩), hstep k c hmake hk hc hI⟩

/-- The row of a task is there, with what it was spawned with, after a call that spares
it. -/
theorem row_step {t : TaskRow} (h : s.life.Consistent) (ht : s.tasks.get? id = some t)
    (hspares : Spares id l) (hs : step pg s l = some s') :
  ∃ t', s'.tasks.get? id = some t' ∧ t'.origin = t.origin
  := by
  apply preserved_step (I := fun k => ∃ t', k.tasks.get? id = some t' ∧ t'.origin = t.origin)
    h _ ⟨t, ht, rfl⟩ hs
  rintro k c hmake hk hc ⟨t', ht', horigin⟩
  have hrow' := Change.get?_tasks_apply hk hc (spares_of_makes hspares hmake) ht'
  exact ⟨_, hrow', (Change.origin_task k c t').trans horigin⟩

/-- The row of a task is there, with what it was spawned with, after any calls that spare
it. -/
theorem row_run {ls : List Label} {t : TaskRow} (h : s.life.Consistent)
    (ht : s.tasks.get? id = some t)
    (hspared : (machine pg).Along (fun _ l => Spares id l) s ls)
    (hrun : (machine pg).run s ls = some s') :
  ∃ t', s'.tasks.get? id = some t' ∧ t'.origin = t.origin
  := by
  apply (Machine.invariant_along (I := fun s' => s'.life.Consistent
    ∧ ∃ t', s'.tasks.get? id = some t' ∧ t'.origin = t.origin) _ hspared ⟨h, t, ht, rfl⟩ hrun).2
  rintro s₁ l s₂ hspares ⟨h₁, t₁, ht₁, horigin⟩ hs
  constructor
  · obtain ⟨cs, hcs, -⟩ := refines_step hs
    exact consistent_run h₁ hcs
  · obtain ⟨t₂, ht₂, horigin₂⟩ := row_step h₁ ht₁ hspares hs
    exact ⟨t₂, ht₂, horigin₂.trans horigin⟩

end

end DjangoAbsurd.Engine
