import DjangoAbsurd.Engine.Refinement

/-!
# A task follows its runs

In every lifecycle that changes lead to, the row of a task says of its last run what that
run says of itself: a task that is not terminal has an active last run and no other active
run, a completed or failed task has a completed or failed last run, and a task has started
when one of its runs has. A change touches one task and its runs, so it is enough to look at
these (`Consistent.touch`).
-/

namespace DjangoAbsurd.Engine

/-! ### The runs of a task -/

/-- The edit of a task that changes nothing. -/
def TaskRow.same : Keyed.Edit TaskRow.taskId := ⟨id, fun _ => rfl⟩

namespace Lifecycle

theorem updateTask_same (k : Lifecycle) (id : Uuid) :
  k.updateTask id TaskRow.same = k
  := by
  rw [updateTask, Keyed.Table.update_id _ _ (fun _ => rfl)]

theorem updateRuns_false (k : Lifecycle) (e : RunEdit) :
  k.updateRuns (fun _ => false) e = k
  := by
  rw [updateRuns, Keyed.Table.update_false]

/-- The runs of a task. -/
def runsOf (k : Lifecycle) (id : Uuid) : List RunRow :=
  k.runs.rows.filter (fun r => r.taskId = id)

theorem mem_runsOf {k : Lifecycle} {id : Uuid} {r : RunRow} :
  r ∈ k.runsOf id ↔ r ∈ k.runs.rows ∧ r.taskId = id
  := by
  simp [runsOf]

theorem nodup_runsOf (k : Lifecycle) (id : Uuid) :
  ((k.runsOf id).map RunRow.runId).Nodup
  := k.runs.nodup.sublist (List.Sublist.map RunRow.runId List.filter_sublist)

@[simp]
theorem runsOf_updateTask (k : Lifecycle) (id id' : Uuid) (e : Keyed.Edit TaskRow.taskId) :
  (k.updateTask id e).runsOf id' = k.runsOf id'
  := rfl

/-- An edit of runs edits the runs of every task. -/
theorem runsOf_updateRuns (k : Lifecycle) (p : RunRow → Bool) (e : RunEdit) (id : Uuid) :
  (k.updateRuns p e).runsOf id = (k.runsOf id).map (fun r => if p r then e.apply r else r)
  := by
  have htask : ∀ r : RunRow, (if p r then e.apply r else r).taskId = r.taskId := by
    intro r
    split
    · apply e.taskId_apply
    · rfl
  simp only [runsOf, updateRuns, Keyed.Table.update, List.filter_map]
  congr 1
  apply List.filter_congr
  intro r _
  simp [htask]

/-- An edit of runs of another task leaves the runs of a task as they are. -/
theorem runsOf_updateRuns_of_ne {k : Lifecycle} {p : RunRow → Bool} {e : RunEdit} {id id' : Uuid}
    (hp : ∀ r ∈ k.runs.rows, p r = true → r.taskId = id) (hne : id' ≠ id) :
  (k.updateRuns p e).runsOf id' = k.runsOf id'
  := by
  rw [runsOf_updateRuns]
  conv_rhs => rw [← List.map_id (k.runsOf id')]
  apply List.map_congr_left
  intro r hr
  obtain ⟨hrows, htask⟩ := mem_runsOf.mp hr
  rw [if_neg]
  · rfl
  · intro hpr
    apply hne
    rw [← htask, hp r hrows hpr]

/-- A new run comes after the other runs of its task. -/
theorem runsOf_insertRun {k : Lifecycle} {r : RunRow}
    (hfresh : ∀ r' ∈ k.runs.rows, r'.runId ≠ r.runId) (id : Uuid) :
  (k.insertRun r).runsOf id = k.runsOf id ++ if r.taskId = id then [r] else []
  := by
  have hnone : r.runId ∉ k.runs.rows.map RunRow.runId := by
    intro hmem
    obtain ⟨r', hr', heq⟩ := List.mem_map.mp hmem
    exact hfresh r' hr' heq
  simp only [runsOf, insertRun, Keyed.Table.put, if_neg hnone, List.filter_append]
  split <;> simp_all

end Lifecycle

/-! ### A task and its runs -/

/-- The state of a run, its worker and its times fit together. -/
structure RunRow.Timed (r : RunRow) : Prop where
  completed : r.completedAt ≠ none ↔ r.state = .completed
  failed : r.failedAt ≠ none ↔ r.state = .failed
  claimed : r.claimedBy ≠ none → r.startedAt ≠ none
  running : r.state = .running → r.claimedBy ≠ none
  idle : r.state = .pending ∨ r.state = .sleeping ∨ r.state = .cancelled → r.claimedBy = none

/-- The row of a task agrees with its last run. -/
structure TaskRow.Agrees (t : TaskRow) (r : RunRow) : Prop where
  last : t.lastAttemptRun = some r.runId
  live : t.state.terminal = false ↔ r.Active
  running : t.state = .running ↔ r.state = .running
  completed : t.state = .completed ↔ r.state = .completed
  failed : t.state = .failed → r.state = .failed
  cancelled : t.cancelledAt ≠ none ↔ t.state = .cancelled

/-- A task follows its runs. -/
structure TaskRow.Follows (t : TaskRow) (rs : List RunRow) : Prop where
  timed : ∀ r ∈ rs, r.Timed
  active : ∀ r ∈ rs, r.Active → t.lastAttemptRun = some r.runId
  last : ∃ r ∈ rs, t.Agrees r
  started : t.firstStartedAt ≠ none ↔ ∃ r ∈ rs, r.startedAt ≠ none
  completed : ∀ r ∈ rs, r.state = .completed → t.state = .completed

/-! ### Edits of a run in time -/

theorem active_of_waiting {r : RunRow} (h : r.state = .pending ∨ r.state = .sleeping) :
  r.Active
  := by
  rcases h with h | h
  all_goals
    rw [RunRow.Active, h]
    rfl

theorem active_of_failing {r : RunRow} (h : r.state = .running ∨ r.state = .sleeping) :
  r.Active
  := by
  rcases h with h | h
  · exact active_of_running h
  · exact active_of_waiting (.inr h)

theorem timed_newRun (runId taskId : Uuid) (attempt : ℤ) {state : TaskState}
    (h : state = .pending ∨ state = .sleeping) (availableAt now : Time) :
  (newRun runId taskId attempt state availableAt now).Timed
  := by
  rcases h with rfl | rfl
  all_goals constructor <;> simp [newRun]

namespace RunRow.Timed

variable {r : RunRow}

/-- An active run has neither completed nor failed. -/
theorem not_ended (h : r.Timed) (ha : r.Active) :
  r.completedAt = none ∧ r.failedAt = none
  := by
  constructor
  · by_contra hne
    rw [RunRow.Active, h.completed.mp hne] at ha
    cases ha
  · by_contra hne
    rw [RunRow.Active, h.failed.mp hne] at ha
    cases ha

theorem claim (h : r.Timed) (ha : r.Active) (now : Time) (worker : String)
    (claimUntil : Option Time) :
  ((RunRow.claim now worker claimUntil).apply r).Timed
  := by
  obtain ⟨hcompleted, hfailed⟩ := h.not_ended ha
  constructor <;> simp [RunRow.claim, hcompleted, hfailed]

theorem park (h : r.Timed) (ha : r.Active) {e : RunEdit} (he : e.Parks) :
  (e.apply r).Timed
  := by
  obtain ⟨hcompleted, hfailed⟩ := h.not_ended ha
  obtain ⟨-, hcompleted', hfailed'⟩ := by simpa [RunRow.times] using he.times r
  constructor <;> simp [he.state, he.claimedBy, hcompleted, hcompleted', hfailed, hfailed']

theorem wake (h : r.Timed) (ha : r.Active) (now : Time) (payload : Json) :
  ((RunRow.wake now payload).apply r).Timed
  := by
  obtain ⟨hcompleted, hfailed⟩ := h.not_ended ha
  constructor <;> simp [RunRow.wake, hcompleted, hfailed]

theorem complete (h : r.Timed) (ha : r.Active) (now : Time) (payload : Option Json) :
  ((RunRow.complete now payload).apply r).Timed
  := by
  obtain ⟨-, hfailed⟩ := h.not_ended ha
  constructor <;> simp [RunRow.complete, hfailed]
  exact h.claimed

theorem fail (h : r.Timed) (ha : r.Active) (now : Time) (reason : Json) :
  ((RunRow.fail now reason).apply r).Timed
  := by
  obtain ⟨hcompleted, -⟩ := h.not_ended ha
  constructor <;> simp [RunRow.fail, hcompleted]
  exact h.claimed

theorem cancel (h : r.Timed) (ha : r.Active) :
  (RunRow.cancel.apply r).Timed
  := by
  obtain ⟨hcompleted, hfailed⟩ := h.not_ended ha
  constructor <;> simp [RunRow.cancel, hcompleted, hfailed]

end RunRow.Timed

/-- A state that is not terminal is none of the terminal ones. -/
theorem ne_of_live {state : TaskState} (h : state.terminal = false) :
  state ≠ .completed ∧ state ≠ .failed ∧ state ≠ .cancelled
  := by
  cases state <;> simp_all [TaskState.terminal]

/-- A task that is not terminal agrees with an active run. -/
theorem agrees_of_live {t : TaskRow} {r : RunRow} (hlast : t.lastAttemptRun = some r.runId)
    (ht : t.state.terminal = false) (hr : r.Active) (hcancelled : t.cancelledAt = none)
    (hrunning : t.state = .running ↔ r.state = .running) :
  t.Agrees r
  := by
  obtain ⟨htc, htf, htx⟩ := ne_of_live ht
  obtain ⟨hrc, -, -⟩ := ne_of_live hr
  constructor
  · exact hlast
  · exact ⟨fun _ => hr, fun _ => ht⟩
  · exact hrunning
  · simp [htc, hrc]
  · simp [htf]
  · simp [hcancelled, htx]

/-- A task that agrees with an active run is neither terminal nor cancelled. -/
theorem TaskRow.Agrees.of_active {t : TaskRow} {r : RunRow} (h : t.Agrees r) (ha : r.Active) :
  t.state.terminal = false ∧ t.cancelledAt = none
  := by
  have hlive := h.live.mpr ha
  use hlive
  by_contra hne
  exact (ne_of_live hlive).2.2 (h.cancelled.mp hne)

/-! ### A task that follows its runs -/

namespace TaskRow.Follows

variable {t : TaskRow} {rs : List RunRow} {r : RunRow}

/-- The run a task ended with is its last run. -/
theorem agrees_of_last (h : t.Follows rs) (hnodup : (rs.map RunRow.runId).Nodup) (hr : r ∈ rs)
    (hlast : t.lastAttemptRun = some r.runId) :
  t.Agrees r
  := by
  obtain ⟨r', hr', hagrees⟩ := h.last
  have hid : r'.runId = r.runId := Option.some.inj (hagrees.last.symm.trans hlast)
  rwa [List.inj_on_of_nodup_map hnodup hr' hr hid] at hagrees

/-- An active run is the last run. -/
theorem agrees_of_active (h : t.Follows rs) (hnodup : (rs.map RunRow.runId).Nodup)
    (hr : r ∈ rs) (ha : r.Active) :
  t.Agrees r
  := h.agrees_of_last hnodup hr (h.active r hr ha)

/-- A terminal task has no active run. -/
theorem not_active (h : t.Follows rs) (hnodup : (rs.map RunRow.runId).Nodup)
    (hterminal : t.state.terminal = true) (hr : r ∈ rs) :
  ¬ r.Active
  := by
  intro ha
  have hlive := (h.agrees_of_active hnodup hr ha).live.mpr ha
  rw [hlive] at hterminal
  cases hterminal

/-- A task with an active run has no completed run. -/
theorem not_completed (h : t.Follows rs) (hnodup : (rs.map RunRow.runId).Nodup) (hr : r ∈ rs)
    (ha : r.Active) :
  ∀ x ∈ rs, x.state ≠ .completed
  := by
  intro x hx hdone
  obtain ⟨hlive, -⟩ := (h.agrees_of_active hnodup hr ha).of_active ha
  exact (ne_of_live hlive).1 (h.completed x hx hdone)

/-- An active run of the task changes, and the task with it. -/
theorem edit (h : t.Follows rs) (hnodup : (rs.map RunRow.runId).Nodup) (hr : r ∈ rs)
    (ha : r.Active) {e : RunEdit} {e' : Keyed.Edit TaskRow.taskId} (htimed : (e.apply r).Timed)
    (hagrees : (e'.apply t).Agrees (e.apply r))
    (hstarted : (e.apply r).startedAt ≠ none ∧ (e'.apply t).firstStartedAt ≠ none
      ∨ (e.apply r).startedAt = r.startedAt ∧ (e'.apply t).firstStartedAt = t.firstStartedAt) :
  (e'.apply t).Follows (rs.map (fun x => if x.runId = r.runId then e.apply x else x))
  := by
  have hlast := h.active r hr ha
  have hself : (if r.runId = r.runId then e.apply r else r) = e.apply r := if_pos rfl
  have hother : ∀ x ∈ rs, x.runId ≠ r.runId → ¬ x.Active := by
    intro x hx hne hx'
    apply hne
    exact Option.some.inj ((h.active x hx hx').symm.trans hlast)
  have hpick : ∀ x ∈ rs, x.runId = r.runId → x = r := fun x hx hid =>
    List.inj_on_of_nodup_map hnodup hx hr hid
  constructor
  · intro x hx
    obtain ⟨y, hy, rfl⟩ := List.mem_map.mp hx
    split
    · rename_i hid
      rw [hpick y hy hid]
      exact htimed
    · exact h.timed y hy
  · intro x hx hactive
    obtain ⟨y, hy, rfl⟩ := List.mem_map.mp hx
    split at hactive
    · rename_i hid
      rw [if_pos hid, hpick y hy hid]
      exact hagrees.last
    · rename_i hid
      exact absurd hactive (hother y hy hid)
  · exact ⟨_, List.mem_map.mpr ⟨r, hr, hself⟩, hagrees⟩
  · rcases hstarted with ⟨hrun, htask⟩ | ⟨hrun, htask⟩
    · constructor
      · exact fun _ => ⟨_, List.mem_map.mpr ⟨r, hr, hself⟩, hrun⟩
      · exact fun _ => htask
    · rw [htask, h.started]
      constructor
      · rintro ⟨x, hx, hx'⟩
        refine ⟨_, List.mem_map_of_mem hx, ?_⟩
        split
        · rename_i hid
          rw [hpick x hx hid] at hx' ⊢
          rwa [hrun]
        · exact hx'
      · rintro ⟨x, hx, hx'⟩
        obtain ⟨y, hy, rfl⟩ := List.mem_map.mp hx
        split at hx'
        · rename_i hid
          rw [hpick y hy hid, hrun] at hx'
          exact ⟨r, hr, hx'⟩
        · exact ⟨y, hy, hx'⟩
  · intro x hx hcompleted
    obtain ⟨y, hy, rfl⟩ := List.mem_map.mp hx
    split at hcompleted
    · rename_i hid
      rw [hpick y hy hid] at hcompleted
      exact hagrees.completed.mpr hcompleted
    · exact absurd hcompleted (h.not_completed hnodup hr ha y hy)

/-- A task with no active run left gets another run. -/
theorem renew {t' : TaskRow} {n : RunRow} (htimed : ∀ r ∈ rs, r.Timed)
    (hnone : ∀ r ∈ rs, ¬ r.Active) (hcompleted : ∀ r ∈ rs, r.state ≠ .completed)
    (hstarted : t'.firstStartedAt ≠ none ↔ ∃ r ∈ rs, r.startedAt ≠ none) (hn : n.Timed)
    (hstart : n.startedAt = none) (hagrees : t'.Agrees n) :
  t'.Follows (rs ++ [n])
  := by
  constructor
  · intro r hr
    rcases List.mem_append.mp hr with hr | hr
    · exact htimed r hr
    · obtain rfl := List.mem_singleton.mp hr
      exact hn
  · intro r hr ha
    rcases List.mem_append.mp hr with hr | hr
    · exact absurd ha (hnone r hr)
    · obtain rfl := List.mem_singleton.mp hr
      exact hagrees.last
  · exact ⟨n, List.mem_append_right rs (List.mem_singleton_self n), hagrees⟩
  · rw [hstarted]
    constructor
    · rintro ⟨r, hr, hr'⟩
      exact ⟨r, List.mem_append_left _ hr, hr'⟩
    · rintro ⟨r, hr, hr'⟩
      rcases List.mem_append.mp hr with hr | hr
      · exact ⟨r, hr, hr'⟩
      · obtain rfl := List.mem_singleton.mp hr
        exact absurd hstart hr'
  · intro r hr hdone
    rcases List.mem_append.mp hr with hr | hr
    · exact absurd hdone (hcompleted r hr)
    · obtain rfl := List.mem_singleton.mp hr
      exact hagrees.completed.mpr hdone

/-- The runs of the task change and keep when they started, and no active run is left. -/
theorem close (h : t.Follows rs) {f : RunRow → RunRow} {e' : Keyed.Edit TaskRow.taskId}
    (htimed : ∀ r ∈ rs, (f r).Timed) (hnone : ∀ r ∈ rs, ¬ (f r).Active)
    (hstart : ∀ r ∈ rs, (f r).startedAt = r.startedAt)
    (hstarted : (e'.apply t).firstStartedAt = t.firstStartedAt)
    (hcompleted : ∀ r ∈ rs, (f r).state ≠ .completed)
    (hagrees : ∀ r ∈ rs, t.Agrees r → (e'.apply t).Agrees (f r)) :
  (e'.apply t).Follows (rs.map f)
  := by
  constructor
  · intro r hr
    obtain ⟨y, hy, rfl⟩ := List.mem_map.mp hr
    exact htimed y hy
  · intro r hr ha
    obtain ⟨y, hy, rfl⟩ := List.mem_map.mp hr
    exact absurd ha (hnone y hy)
  · obtain ⟨r, hr, hlast⟩ := h.last
    exact ⟨f r, List.mem_map_of_mem hr, hagrees r hr hlast⟩
  · rw [hstarted, h.started]
    constructor
    · rintro ⟨r, hr, hr'⟩
      exact ⟨f r, List.mem_map_of_mem hr, by rwa [hstart r hr]⟩
    · rintro ⟨r, hr, hr'⟩
      obtain ⟨y, hy, rfl⟩ := List.mem_map.mp hr
      exact ⟨y, hy, by rwa [hstart y hy] at hr'⟩
  · intro r hr hdone
    obtain ⟨y, hy, rfl⟩ := List.mem_map.mp hr
    exact absurd hdone (hcompleted y hy)

/-- A run keeps its state, its worker and its times. -/
theorem keep (h : t.Follows rs) {id : Uuid} {e : RunEdit} (he : e.Keeps) :
  t.Follows (rs.map (fun x => if x.runId = id then e.apply x else x))
  := by
  have hrunId : ∀ x : RunRow, (if x.runId = id then e.apply x else x).runId = x.runId := by
    intro x
    split
    · apply e.key_apply
    · rfl
  have hstate : ∀ x : RunRow, (if x.runId = id then e.apply x else x).state = x.state := by
    intro x
    split
    · apply he.state
    · rfl
  have hworker : ∀ x : RunRow, (if x.runId = id then e.apply x else x).claimedBy = x.claimedBy := by
    intro x
    split
    · apply he.claimedBy
    · rfl
  have htimes : ∀ x : RunRow, (if x.runId = id then e.apply x else x).times = x.times := by
    intro x
    split
    · apply he.times
    · rfl
  constructor
  · intro r hr
    obtain ⟨y, hy, rfl⟩ := List.mem_map.mp hr
    obtain ⟨hstarted, hcompleted, hfailed⟩ := by simpa [RunRow.times] using htimes y
    have hy' := h.timed y hy
    constructor
    · rw [hcompleted, hstate, hy'.completed]
    · rw [hfailed, hstate, hy'.failed]
    · rw [hworker, hstarted]
      exact hy'.claimed
    · rw [hstate, hworker]
      exact hy'.running
    · rw [hstate, hworker]
      exact hy'.idle
  · intro r hr ha
    obtain ⟨y, hy, rfl⟩ := List.mem_map.mp hr
    rw [hrunId]
    apply h.active y hy
    rwa [RunRow.Active, hstate] at ha
  · obtain ⟨r, hr, hlast, hlive, hrunning, hcompleted, hfailed, hcancelled⟩ := h.last
    refine ⟨_, List.mem_map_of_mem hr, ?_⟩
    constructor
    · rw [hrunId, hlast]
    · rw [RunRow.Active, hstate, hlive, RunRow.Active]
    · rwa [hstate]
    · rwa [hstate]
    · rwa [hstate]
    · exact hcancelled
  · rw [h.started]
    constructor
    · rintro ⟨r, hr, hr'⟩
      refine ⟨_, List.mem_map_of_mem hr, ?_⟩
      obtain ⟨hstarted, -⟩ := by simpa [RunRow.times] using htimes r
      rwa [hstarted]
    · rintro ⟨r, hr, hr'⟩
      obtain ⟨y, hy, rfl⟩ := List.mem_map.mp hr
      obtain ⟨hstarted, -⟩ := by simpa [RunRow.times] using htimes y
      exact ⟨y, hy, by rwa [hstarted] at hr'⟩
  · intro r hr hdone
    obtain ⟨y, hy, rfl⟩ := List.mem_map.mp hr
    rw [hstate] at hdone
    exact h.completed y hy hdone

/-- The task of a waiting run is put back to waiting. -/
theorem wait (h : t.Follows rs) (hnodup : (rs.map RunRow.runId).Nodup) (hr : r ∈ rs)
    (hstate : r.state = .pending) :
  ((TaskRow.withState .pending).apply t).Follows rs
  := by
  have ha := active_of_waiting (.inl hstate)
  have hagrees := h.agrees_of_active hnodup hr ha
  constructor
  · exact h.timed
  · exact h.active
  · use r, hr
    apply agrees_of_live
    · exact hagrees.last
    · rfl
    · exact ha
    · exact (hagrees.of_active ha).2
    · rw [hstate]
      simp [TaskRow.withState]
  · exact h.started
  · intro x hx hdone
    exact absurd hdone (h.not_completed hnodup hr ha x hx)

end TaskRow.Follows

/-! ### Every lifecycle is consistent -/

/-- The ids in use were drawn, every run is a task's, and every task follows its runs. -/
structure Lifecycle.Consistent (k : Lifecycle) : Prop where
  taskDrawn : ∀ t ∈ k.tasks.rows, t.taskId.index < k.drawn
  runDrawn : ∀ r ∈ k.runs.rows, r.runId.index < k.drawn
  owned : ∀ r ∈ k.runs.rows, ∃ t ∈ k.tasks.rows, t.taskId = r.taskId
  follows : ∀ t ∈ k.tasks.rows, t.Follows (k.runsOf t.taskId)

namespace Lifecycle.Consistent

variable {k : Lifecycle}

theorem create (storage : StorageMode) :
  Consistent (.create storage)
  := by
  constructor <;> simp [Lifecycle.create, QueueState.life, QueueState.create]

/-- Runs of one task change, and the task with them. -/
theorem touch (h : k.Consistent) {p : RunRow → Bool} {e : RunEdit} {id : Uuid}
    {e' : Keyed.Edit TaskRow.taskId} (hp : ∀ r ∈ k.runs.rows, p r = true → r.taskId = id)
    (hview : ∀ t ∈ k.tasks.rows, t.taskId = id → t.Follows (k.runsOf id) →
      (e'.apply t).Follows ((k.runsOf id).map (fun r => if p r then e.apply r else r))) :
  ((k.updateRuns p e).updateTask id e').Consistent
  := by
  constructor
  · intro t ht
    obtain ⟨t₀, ht₀, rfl⟩ := Keyed.Table.mem_update.mp ht
    have hdrawn := h.taskDrawn t₀ ht₀
    split
    · rwa [e'.key_apply]
    · exact hdrawn
  · intro r hr
    obtain ⟨r₀, hr₀, rfl⟩ := Keyed.Table.mem_update.mp hr
    have hdrawn := h.runDrawn r₀ hr₀
    split
    · rwa [e.key_apply]
    · exact hdrawn
  · intro r hr
    obtain ⟨r₀, hr₀, rfl⟩ := Keyed.Table.mem_update.mp hr
    obtain ⟨t, ht, hid⟩ := h.owned r₀ hr₀
    refine ⟨_, Keyed.Table.mem_update.mpr ⟨t, ht, rfl⟩, ?_⟩
    have htask : (if p r₀ then e.apply r₀ else r₀).taskId = r₀.taskId := by
      split
      · apply e.taskId_apply
      · rfl
    rw [htask, ← hid]
    split
    · apply e'.key_apply
    · rfl
  · intro t ht
    obtain ⟨t₀, ht₀, rfl⟩ := Keyed.Table.mem_update.mp ht
    have hfollows := h.follows t₀ ht₀
    rw [runsOf_updateTask]
    split
    · rename_i hid
      obtain rfl := of_decide_eq_true hid
      rw [e'.key_apply, runsOf_updateRuns]
      exact hview t₀ ht₀ rfl hfollows
    · rename_i hid
      rw [runsOf_updateRuns_of_ne hp (by simpa using hid)]
      exact hfollows

/-- An active run changes, and its task with it. -/
theorem touchRun (h : k.Consistent) {r : RunRow} (hr : r ∈ k.runs.rows) (ha : r.Active)
    {e : RunEdit} {e' : Keyed.Edit TaskRow.taskId} (htimed : r.Timed → (e.apply r).Timed)
    (hagrees : ∀ t : TaskRow, t.Agrees r → (e'.apply t).Agrees (e.apply r))
    (hstarted : ∀ t : TaskRow, (e.apply r).startedAt ≠ none ∧ (e'.apply t).firstStartedAt ≠ none
      ∨ (e.apply r).startedAt = r.startedAt ∧ (e'.apply t).firstStartedAt = t.firstStartedAt) :
  ((k.updateRun r.runId e).updateTask r.taskId e').Consistent
  := by
  apply h.touch
  · intro r' hr' hid
    rw [Keyed.Table.eq_of_key_eq hr' hr (of_decide_eq_true hid)]
  · intro t _ _ hfollows
    have hmem : r ∈ k.runsOf r.taskId := mem_runsOf.mpr ⟨hr, rfl⟩
    have hnodup := k.nodup_runsOf r.taskId
    have hedit := hfollows.edit hnodup hmem ha (htimed (hfollows.timed r hmem))
      (hagrees t (hfollows.agrees_of_active hnodup hmem ha)) (hstarted t)
    simpa only [decide_eq_true_eq] using hedit

/-- Runs of one task change, the task with them, and the task gets another run. -/
theorem renewRun (h : k.Consistent) {p : RunRow → Bool} {e : RunEdit}
    {u : Keyed.Edit TaskRow.taskId} {n : RunRow} (hn : n.runId = ⟨k.drawn⟩)
    (hp : ∀ r ∈ k.runs.rows, p r = true → r.taskId = n.taskId)
    (howned : ∃ t ∈ k.tasks.rows, t.taskId = n.taskId)
    (hview : ∀ t ∈ k.tasks.rows, t.taskId = n.taskId → t.Follows (k.runsOf n.taskId) →
      (u.apply t).Follows
        ((k.runsOf n.taskId).map (fun r => if p r then e.apply r else r) ++ [n])) :
  (({ (k.updateRuns p e).updateTask n.taskId u with drawn := k.drawn + 1 }).insertRun n).Consistent
  := by
  have hrunId : ∀ r : RunRow, (if p r then e.apply r else r).runId = r.runId := by
    intro r
    split
    · apply e.key_apply
    · rfl
  have htask : ∀ r : RunRow, (if p r then e.apply r else r).taskId = r.taskId := by
    intro r
    split
    · apply e.taskId_apply
    · rfl
  have hfresh : ∀ r ∈ (k.updateRuns p e).runs.rows, r.runId ≠ n.runId := by
    intro r hr heq
    obtain ⟨r₀, hr₀, rfl⟩ := Keyed.Table.mem_update.mp hr
    have hdrawn := h.runDrawn r₀ hr₀
    rw [← hrunId, heq, hn] at hdrawn
    exact absurd hdrawn (Nat.lt_irrefl _)
  have hruns : ∀ id, Lifecycle.runsOf (Lifecycle.insertRun
      { (k.updateRuns p e).updateTask n.taskId u with drawn := k.drawn + 1 } n) id
        = (k.updateRuns p e).runsOf id ++ if n.taskId = id then [n] else [] :=
    runsOf_insertRun hfresh
  constructor
  · intro t ht
    obtain ⟨t₀, ht₀, rfl⟩ := Keyed.Table.mem_update.mp ht
    have hdrawn := Nat.lt_succ_of_lt (h.taskDrawn t₀ ht₀)
    split
    · rwa [u.key_apply]
    · exact hdrawn
  · intro r hr
    rcases Keyed.Table.mem_put.mp hr with rfl | ⟨hr, -⟩
    · rw [hn]
      exact Nat.lt_succ_self _
    · obtain ⟨r₀, hr₀, rfl⟩ := Keyed.Table.mem_update.mp hr
      rw [hrunId]
      exact Nat.lt_succ_of_lt (h.runDrawn r₀ hr₀)
  · intro r hr
    have hold : ∃ t ∈ k.tasks.rows, t.taskId = r.taskId := by
      rcases Keyed.Table.mem_put.mp hr with rfl | ⟨hr, -⟩
      · exact howned
      · obtain ⟨r₀, hr₀, rfl⟩ := Keyed.Table.mem_update.mp hr
        rw [htask]
        exact h.owned r₀ hr₀
    obtain ⟨t, ht, hid⟩ := hold
    refine ⟨_, Keyed.Table.mem_update.mpr ⟨t, ht, rfl⟩, ?_⟩
    rw [← hid]
    split
    · apply u.key_apply
    · rfl
  · intro t ht
    obtain ⟨t₀, ht₀, rfl⟩ := Keyed.Table.mem_update.mp ht
    have hfollows := h.follows t₀ ht₀
    rw [hruns]
    split
    · rename_i hid
      have hid := of_decide_eq_true hid
      rw [u.key_apply, runsOf_updateRuns, if_pos hid.symm, hid]
      rw [hid] at hfollows
      exact hview t₀ ht₀ hid hfollows
    · rename_i hid
      have hid : t₀.taskId ≠ n.taskId := by simpa using hid
      rw [runsOf_updateRuns_of_ne hp hid, if_neg (Ne.symm hid), List.append_nil]
      exact hfollows

/-- A task is spawned with its first run. -/
theorem spawn (h : k.Consistent) (now : Time) {t : TaskRow} (ht : t.Fresh k.drawn) :
  (k.insertTask now t).Consistent
  := by
  have hid : t.taskId = ⟨k.drawn⟩ := ht.taskId
  have hrun : (newRun ⟨t.taskId.index + 1⟩ t.taskId 1 .pending now now).runId = ⟨k.drawn + 1⟩ := by
    rw [newRun, hid]
  have hfreshTask : ∀ t' ∈ k.tasks.rows, t'.taskId ≠ t.taskId := by
    intro t' ht' heq
    have hdrawn := h.taskDrawn t' ht'
    rw [heq, hid] at hdrawn
    exact absurd hdrawn (Nat.lt_irrefl _)
  have hfreshRun : ∀ r ∈ k.runs.rows,
      r.runId ≠ (newRun ⟨t.taskId.index + 1⟩ t.taskId 1 .pending now now).runId := by
    intro r hr heq
    have hdrawn := h.runDrawn r hr
    rw [heq, hrun] at hdrawn
    exact absurd (Nat.lt_of_succ_lt hdrawn) (Nat.lt_irrefl _)
  have hruns : ∀ id, (k.insertTask now t).runsOf id
      = k.runsOf id ++ if t.taskId = id
        then [newRun ⟨t.taskId.index + 1⟩ t.taskId 1 .pending now now] else [] :=
    runsOf_insertRun hfreshRun
  constructor
  · intro t' ht'
    rcases Keyed.Table.mem_put.mp ht' with rfl | ⟨ht', -⟩
    · rw [hid]
      exact Nat.lt_add_of_pos_right (by decide)
    · exact Nat.lt_add_right 2 (h.taskDrawn t' ht')
  · intro r hr
    rcases Keyed.Table.mem_put.mp hr with rfl | ⟨hr, -⟩
    · rw [hrun]
      exact Nat.lt_succ_self _
    · exact Nat.lt_add_right 2 (h.runDrawn r hr)
  · intro r hr
    rcases Keyed.Table.mem_put.mp hr with rfl | ⟨hr, -⟩
    · exact ⟨t, Keyed.Table.mem_put.mpr (.inl rfl), rfl⟩
    · obtain ⟨t', ht', heq⟩ := h.owned r hr
      exact ⟨t', Keyed.Table.mem_put.mpr (.inr ⟨ht', hfreshTask t' ht'⟩), heq⟩
  · intro t' ht'
    rw [hruns]
    rcases Keyed.Table.mem_put.mp ht' with rfl | ⟨ht', -⟩
    · have hnone : k.runsOf t'.taskId = [] := by
        apply List.filter_eq_nil_iff.mpr
        intro r hr heq
        obtain ⟨t, ht, hown⟩ := h.owned r hr
        exact hfreshTask t ht (hown.trans (of_decide_eq_true heq))
      rw [hnone, if_pos rfl, List.nil_append]
      have hnone : ∀ P : RunRow → Prop, ∀ r ∈ ([] : List RunRow), P r := fun _ _ hr =>
        absurd hr List.not_mem_nil
      apply TaskRow.Follows.renew (hnone _) (hnone _) (hnone _) (by simp [ht.firstStartedAt])
        (by constructor <;> simp [newRun]) rfl
      apply agrees_of_live
      · rw [ht.lastAttemptRun, hrun]
      · rw [ht.state]
        rfl
      · rfl
      · exact ht.cancelledAt
      · rw [ht.state]
        simp [newRun]
    · rw [if_neg (Ne.symm (hfreshTask t' ht')), List.append_nil]
      exact h.follows t' ht'

/-- Tasks are deleted with their runs. -/
theorem delete (h : k.Consistent) (batch : List Uuid) :
  (k.delete batch).Consistent
  := by
  constructor
  · intro t ht
    exact h.taskDrawn t (Keyed.Table.mem_delete.mp ht).1
  · intro r hr
    exact h.runDrawn r (Keyed.Table.mem_delete.mp hr).1
  · intro r hr
    obtain ⟨hr, hbatch⟩ := Keyed.Table.mem_delete.mp hr
    obtain ⟨t, ht, hid⟩ := h.owned r hr
    exact ⟨t, Keyed.Table.mem_delete.mpr ⟨ht, by rwa [hid]⟩, hid⟩
  · intro t ht
    obtain ⟨ht, hbatch⟩ := Keyed.Table.mem_delete.mp ht
    have hruns : (k.delete batch).runsOf t.taskId = k.runsOf t.taskId := by
      simp only [Lifecycle.runsOf, Lifecycle.delete, Keyed.Table.delete, List.filter_filter]
      apply List.filter_congr
      intro r _
      by_cases hid : r.taskId = t.taskId
      · simp [hid, hbatch] at hbatch ⊢
      · simp [hid]
    rw [hruns]
    exact h.follows t ht

/-- One run changes, and keeps its state, its worker and its times. -/
theorem adjust (h : k.Consistent) {r : RunRow} (hr : r ∈ k.runs.rows) {e : RunEdit}
    (he : e.Keeps) :
  (k.updateRun r.runId e).Consistent
  := by
  have htouch : ((k.updateRun r.runId e).updateTask r.taskId TaskRow.same).Consistent := by
    apply h.touch
    · intro r' hr' hid
      rw [Keyed.Table.eq_of_key_eq hr' hr (of_decide_eq_true hid)]
    · intro t _ _ hfollows
      show t.Follows _
      simpa only [decide_eq_true_eq] using hfollows.keep he
  rwa [updateTask_same] at htouch

/-- A waiting run wakes. -/
theorem wakeRun (h : k.Consistent) (now : Time) (payload : Json) {r : RunRow}
    (hr : r ∈ k.runs.rows) (ha : r.Active) (hstate : r.state ≠ .running) :
  (k.updateRun r.runId (RunRow.wake now payload)).Consistent
  := by
  have htouch : ((k.updateRun r.runId (RunRow.wake now payload)).updateTask r.taskId
      TaskRow.same).Consistent := by
    apply h.touchRun hr ha
    · exact fun htimed => htimed.wake ha now payload
    · intro t hagrees
      obtain ⟨hlive, hcancelled⟩ := hagrees.of_active ha
      exact agrees_of_live hagrees.last hlive rfl hcancelled
        (by simp [TaskRow.same, hagrees.running, hstate, RunRow.wake])
    · exact fun t => .inr ⟨rfl, rfl⟩
  rwa [updateTask_same] at htouch

/-- The task of a waiting run waits. -/
theorem wakeTask (h : k.Consistent) {r : RunRow} (hr : r ∈ k.runs.rows)
    (hstate : r.state = .pending) :
  (k.updateTask r.taskId (TaskRow.withState .pending)).Consistent
  := by
  have htouch : ((k.updateRuns (fun _ => false) RunRow.cancel).updateTask r.taskId
      (TaskRow.withState .pending)).Consistent := by
    apply h.touch
    · exact fun _ _ hfalse => absurd hfalse Bool.false_ne_true
    · intro t _ _ hfollows
      have hwait := hfollows.wait (k.nodup_runsOf r.taskId) (mem_runsOf.mpr ⟨hr, rfl⟩) hstate
      simpa using hwait
  rwa [updateRuns_false] at htouch

/-- A waiting run is claimed. -/
theorem claim (h : k.Consistent) (now : Time) (worker : String) (claimUntil : Option Time)
    {r : RunRow} (hr : r ∈ k.runs.rows) (ha : r.Active) :
  ((k.updateRun r.runId (RunRow.claim now worker claimUntil)).updateTask r.taskId
    (TaskRow.claim now r)).Consistent
  := by
  apply h.touchRun hr ha
  · exact fun htimed => htimed.claim ha now worker claimUntil
  · intro t hagrees
    obtain ⟨-, hcancelled⟩ := hagrees.of_active ha
    exact agrees_of_live rfl rfl rfl hcancelled ⟨fun _ => rfl, fun _ => rfl⟩
  · intro t
    left
    simp [RunRow.claim, TaskRow.claim]

/-- A running run is parked. -/
theorem park (h : k.Consistent) {r : RunRow} {e : RunEdit} (hr : r ∈ k.runs.rows)
    (ha : r.Active) (he : e.Parks) :
  ((k.updateRun r.runId e).updateTask r.taskId (TaskRow.withState .sleeping)).Consistent
  := by
  obtain ⟨hstarted, hcompleted, hfailed⟩ := by simpa [RunRow.times] using he.times r
  apply h.touchRun hr ha
  · intro htimed
    exact htimed.park ha he
  · intro t hagrees
    obtain ⟨-, hcancelled⟩ := hagrees.of_active ha
    apply agrees_of_live
    · rw [e.key_apply]
      exact hagrees.last
    · rfl
    · rw [RunRow.Active, he.state]
      rfl
    · exact hcancelled
    · simp [TaskRow.withState, he.state]
  · exact fun t => .inr ⟨hstarted, rfl⟩

/-- An active run is completed with its task. -/
theorem complete (h : k.Consistent) (now : Time) (payload : Option Json) {r : RunRow}
    (hr : r ∈ k.runs.rows) (ha : r.Active) :
  ((k.updateRun r.runId (RunRow.complete now payload)).updateTask r.taskId
    (TaskRow.complete r.runId payload)).Consistent
  := by
  apply h.touchRun hr ha
  · exact fun htimed => htimed.complete ha now payload
  · intro t hagrees
    obtain ⟨-, hcancelled⟩ := hagrees.of_active ha
    constructor <;> simp [TaskRow.complete, RunRow.complete, RunRow.Active, TaskState.terminal,
      hcancelled]
  · exact fun t => .inr ⟨rfl, rfl⟩

/-- An active run fails and its task ends. -/
theorem fail (h : k.Consistent) (now : Time) (reason : Json) {r : RunRow}
    (hr : r ∈ k.runs.rows) (ha : r.Active) {state : TaskState} {cancelledAt : Option Time}
    (hstate : state = .failed ∧ cancelledAt = none ∨ state = .cancelled ∧ cancelledAt ≠ none) :
  ((k.updateRun r.runId (RunRow.fail now reason)).updateTask r.taskId
    (TaskRow.settle state r.attempt r.runId cancelledAt)).Consistent
  := by
  apply h.touchRun hr ha
  · exact fun htimed => htimed.fail ha now reason
  · intro t hagrees
    obtain ⟨-, hcancelled⟩ := hagrees.of_active ha
    rcases hstate with ⟨rfl, rfl⟩ | ⟨rfl, hset⟩
    · constructor <;> simp [TaskRow.settle, RunRow.fail, RunRow.Active, TaskState.terminal,
        hcancelled]
    · constructor <;> simp [TaskRow.settle, RunRow.fail, RunRow.Active, TaskState.terminal,
        hcancelled, hset]
  · exact fun t => .inr ⟨rfl, rfl⟩

/-- An active run fails and its task gets another run. -/
theorem failRetried (h : k.Consistent) (now : Time) (reason : Json) (available : Time)
    {r : RunRow} (hr : r ∈ k.runs.rows) (ha : r.Active) :
  ((Change.failRetried now r reason available).apply k).Consistent
  := by
  have hself : ∀ r' ∈ k.runs.rows, r'.runId = r.runId → r' = r := fun r' hr' hid =>
    Keyed.Table.eq_of_key_eq hr' hr hid
  apply h.renewRun (n := newRun ⟨k.drawn⟩ r.taskId (r.attempt + 1) (retriedState now available)
    available now) rfl
  · intro r' hr' hid
    rw [hself r' hr' (of_decide_eq_true hid)]
    rfl
  · exact h.owned r hr
  · intro t ht hid hfollows
    have hmem : r ∈ k.runsOf r.taskId := mem_runsOf.mpr ⟨hr, rfl⟩
    have hagrees := hfollows.agrees_of_active (k.nodup_runsOf r.taskId) hmem ha
    obtain ⟨-, hcancelled⟩ := hagrees.of_active ha
    have hother : ∀ r' ∈ k.runsOf r.taskId, r'.Active → r' = r := by
      intro r' hr' ha'
      apply hself r' (mem_runsOf.mp hr').1
      exact Option.some.inj ((hfollows.active r' hr' ha').symm.trans hagrees.last)
    apply TaskRow.Follows.renew
    · intro x hx
      obtain ⟨y, hy, rfl⟩ := List.mem_map.mp hx
      split
      · rename_i hid'
        rw [hself y (mem_runsOf.mp hy).1 (of_decide_eq_true hid')]
        exact (hfollows.timed r hmem).fail ha now reason
      · exact hfollows.timed y hy
    · intro x hx hactive
      obtain ⟨y, hy, rfl⟩ := List.mem_map.mp hx
      split at hactive
      · cases hactive
      · rename_i hid'
        apply hid'
        rw [hother y hy hactive]
        simp
    · intro x hx
      obtain ⟨y, hy, rfl⟩ := List.mem_map.mp hx
      split
      · exact TaskState.noConfusion
      · exact hfollows.not_completed (k.nodup_runsOf r.taskId) hmem ha y hy
    · apply hfollows.started.trans
      constructor
      · rintro ⟨y, hy, hstarted⟩
        refine ⟨_, List.mem_map_of_mem hy, ?_⟩
        split <;> exact hstarted
      · rintro ⟨x, hx, hstarted⟩
        obtain ⟨y, hy, rfl⟩ := List.mem_map.mp hx
        use y, hy
        split at hstarted <;> exact hstarted
    · exact timed_newRun _ _ _ (by rw [retriedState]; split <;> simp) _ _
    · rfl
    · have hlive : (retriedState now available).terminal = false := by
        rw [retriedState]
        split <;> rfl
      apply agrees_of_live
      · rfl
      · exact hlive
      · exact hlive
      · simp [TaskRow.settle, hcancelled]
      · rfl

/-- A failed task gets another run. -/
theorem retry (h : k.Consistent) (now : Time) {t : TaskRow} (maxAttempts : ℤ)
    (ht : t ∈ k.tasks.rows) (hfailed : t.state = .failed) :
  ((Change.retry now t maxAttempts).apply k).Consistent
  := by
  have hrenew := h.renewRun (p := fun _ => false) (e := RunRow.cancel)
    (u := TaskRow.retry (t.attempts + 1) maxAttempts ⟨k.drawn⟩)
    (n := newRun ⟨k.drawn⟩ t.taskId (t.attempts + 1) .pending now now) rfl
    (fun _ _ hfalse => absurd hfalse Bool.false_ne_true) ⟨t, ht, rfl⟩
  rw [updateRuns_false] at hrenew
  apply hrenew
  intro t' ht' hid hfollows
  obtain rfl := Keyed.Table.eq_of_key_eq ht' ht hid
  simp only [Bool.false_eq_true, if_false, List.map_id']
  apply TaskRow.Follows.renew hfollows.timed
  · intro r hr
    apply hfollows.not_active (k.nodup_runsOf t'.taskId) _ hr
    rw [hfailed]
    rfl
  · intro r hr hdone
    have hcompleted := hfollows.completed r hr hdone
    rw [hfailed] at hcompleted
    cases hcompleted
  · exact hfollows.started
  · exact timed_newRun _ _ _ (.inl rfl) _ _
  · rfl
  · apply agrees_of_live
    · rfl
    · rfl
    · rfl
    · rfl
    · simp [TaskRow.retry, newRun]

/-- A task is cancelled with its active runs. -/
theorem cancel (h : k.Consistent) (now : Time) {t : TaskRow} (ht : t ∈ k.tasks.rows)
    (hlive : t.state.terminal = false) :
  ((Change.cancel now t.taskId).apply k).Consistent
  := by
  have htouch : ((k.updateRuns (fun r => r.taskId = t.taskId ∧ r.Active)
      RunRow.cancel).updateTask t.taskId (TaskRow.cancel now)).Consistent := by
    apply h.touch
    · intro r _ hr
      exact (of_decide_eq_true hr).1
    · intro t' ht' hid hfollows
      obtain rfl := Keyed.Table.eq_of_key_eq ht' ht hid
      apply hfollows.close
      · intro r hr
        split
        · rename_i hr'
          exact (hfollows.timed r hr).cancel (of_decide_eq_true hr').2
        · exact hfollows.timed r hr
      · intro r hr hactive
        split at hactive
        · cases hactive
        · rename_i hr'
          exact hr' (decide_eq_true ⟨(mem_runsOf.mp hr).2, hactive⟩)
      · intro r _
        split <;> rfl
      · rfl
      · intro r hr
        split
        · exact TaskState.noConfusion
        · intro hdone
          exact (ne_of_live hlive).1 (hfollows.completed r hr hdone)
      · intro r hr hagrees
        rw [if_pos (decide_eq_true ⟨(mem_runsOf.mp hr).2, hagrees.live.mp hlive⟩)]
        have hlast := hagrees.last
        constructor <;> simp [TaskRow.cancel, RunRow.cancel, RunRow.Active, TaskState.terminal, hlast]
  exact htouch

/-- Every change keeps a lifecycle consistent. -/
theorem step {k' : Lifecycle} {c : Change} (h : k.Consistent) (hs : lifecycle.step k c = some k') :
  k'.Consistent
  := by
  obtain ⟨hallowed, rfl⟩ := step_lifecycle.mp hs
  cases c with
  | draw drawn =>
      constructor
      · exact fun t ht => (h.taskDrawn t ht).trans_le hallowed
      · exact fun r hr => (h.runDrawn r hr).trans_le hallowed
      · exact h.owned
      · exact h.follows
  | spawn now t => exact h.spawn now hallowed.1
  | claim now worker claimUntil r =>
      exact h.claim now worker claimUntil hallowed.1 (active_of_waiting hallowed.2)
  | park r e =>
      obtain ⟨hr, hstate, he⟩ := hallowed
      exact h.park hr (active_of_running hstate) he
  | wakeRun now payload r =>
      obtain ⟨hr, hstate⟩ := hallowed
      apply h.wakeRun now payload hr (active_of_waiting hstate)
      intro hrunning
      rw [hrunning] at hstate
      rcases hstate with hstate | hstate <;> cases hstate
  | wakeTask id =>
      obtain ⟨r, hr, rfl, hstate⟩ := hallowed
      exact h.wakeTask hr hstate
  | adjust r e => exact h.adjust hallowed.1 hallowed.2
  | complete now r payload => exact h.complete now payload hallowed.1 (active_of_running hallowed.2)
  | failForGood now r reason =>
      exact h.fail now reason hallowed.1 (active_of_failing hallowed.2) (.inl ⟨rfl, rfl⟩)
  | failCancelled now r reason =>
      apply h.fail now reason hallowed.1 (active_of_failing hallowed.2)
      right
      simp
  | failRetried now r reason available =>
      exact h.failRetried now reason available hallowed.1 (active_of_failing hallowed.2)
  | cancel now id =>
      obtain ⟨t, ht, rfl, hlive⟩ := hallowed
      exact h.cancel now ht hlive
  | retry now t maxAttempts => exact h.retry now maxAttempts hallowed.1 hallowed.2
  | delete batch => exact h.delete batch

end Lifecycle.Consistent

/-- Every run of changes keeps a lifecycle consistent. -/
theorem consistent_run {k k' : Lifecycle} {cs : List Change} (h : k.Consistent)
    (hrun : lifecycle.run k cs = some k') :
  k'.Consistent
  := Machine.invariant (I := Lifecycle.Consistent) (fun _ _ _ hk hs => hk.step hs) h hrun

/-- Every queue that calls lead to is consistent. -/
theorem consistent_of_reachable {pg : Postgres} {s : QueueState} (h : Reachable pg s) :
  s.life.Consistent
  := by
  obtain ⟨storage, cs, hrun⟩ := reachable_life h
  exact consistent_run (.create storage) hrun

end DjangoAbsurd.Engine
