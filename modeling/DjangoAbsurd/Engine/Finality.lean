import DjangoAbsurd.Engine.History
import DjangoAbsurd.Engine.Sweep

/-!
# Tasks that are over

Without a retry a terminal task stays as it is, and `absurd.fail_run` makes no run after the
last attempt of a task. So a task is over once it is terminal, and also once its last attempt
runs and nobody is left who may complete or suspend that run: `Closing` says that it is over
in one of these ways. No change completes such a task or claims a run of it.
-/

namespace DjangoAbsurd.Engine

/-- `absurd.fail_run` makes no attempt after this one. -/
def LastAttempt (maxAttempts : Option ℤ) (attempt : ℤ) : Prop :=
  maxAttempts.any (fun n => decide (n < attempt + 1)) = true

namespace Change

variable {k : Lifecycle} {c : Change} {t : TaskRow} {r : RunRow}

/-- Whoever completes or suspends a run is among those who hold it, and no task is
retried. -/
def By (held : Uuid → Prop) : Change → Prop
  | .park r _ | .complete _ r _ => held r.runId
  | .retry _ _ _ => False
  | _ => True

/-- A terminal task has no active run. -/
theorem taskId_ne_of_terminal (h : k.Consistent) (ht : t ∈ k.tasks.rows)
    (hterminal : t.state.terminal = true) (hr : r ∈ k.runs.rows) (ha : r.Active) :
  t.taskId ≠ r.taskId
  := by
  intro hid
  obtain ⟨t', ht', hlive, -⟩ := task_of_active h hr ha
  rw [← hid, Keyed.Table.get?_of_mem ht] at ht'
  rw [← Option.some.inj ht', hterminal] at hlive
  cases hlive

/-- A change that is no retry leaves a terminal task as it is. -/
theorem task_of_terminal {held : Uuid → Prop} (h : k.Consistent) (hc : c.Allowed k)
    (hby : c.By held) (ht : t ∈ k.tasks.rows) (hterminal : t.state.terminal = true) :
  c.task k t = t
  := by
  have hne := fun {r : RunRow} => taskId_ne_of_terminal (r := r) h ht hterminal
  cases c with
  | draw | spawn | wakeRun | adjust | delete => rfl
  | claim _ _ _ r => exact if_neg (hne hc.1 (active_of_waiting hc.2))
  | park r e => exact if_neg (hne hc.1 (active_of_running hc.2.1))
  | wakeTask id =>
      obtain ⟨r, hr, rfl, hstate⟩ := hc
      exact if_neg (hne hr (active_of_waiting (.inl hstate)))
  | complete _ r _ => exact if_neg (hne hc.1 (active_of_running hc.2))
  | failForGood _ r _ | failCancelled _ r _ | failRetried _ r _ _ =>
      exact if_neg (hne hc.1 (active_of_failing hc.2))
  | cancel now id =>
      obtain ⟨t', ht', rfl, hlive⟩ := hc
      apply if_neg
      intro hid
      rw [← Keyed.Table.eq_of_key_eq ht ht' hid, hterminal] at hlive
      cases hlive
  | retry => exact hby.elim

/-- A change that is no retry leaves the attempts a task may have as they are. -/
theorem maxAttempts_task {held : Uuid → Prop} (hby : c.By held) (t : TaskRow) :
  (c.task k t).maxAttempts = t.maxAttempts
  := by
  cases c with
  | retry => exact hby.elim
  | _ =>
      simp only [task]
      try split
      all_goals rfl

/-- What changes may do to the attempt of a run. -/
theorem attempt_run (hc : c.Numbered) (r : RunRow) :
  (c.run r).attempt = r.attempt
  := by
  cases c with
  | park r₀ e | adjust r₀ e =>
      rw [run]
      split
      · apply hc
      · rfl
  | _ =>
      simp only [run]
      try split
      all_goals rfl

/-- A change completes a task when it completes a run of it. -/
theorem completed_task (h : (c.task k t).state = .completed) :
  t.state = .completed ∨ ∃ now r payload, c = .complete now r payload ∧ t.taskId = r.taskId
  := by
  cases c with
  | draw | spawn | wakeRun | adjust | delete => exact .inl h
  | complete now r payload =>
      rw [task] at h
      split at h
      · rename_i hid
        exact .inr ⟨now, r, payload, rfl, hid⟩
      · exact .inl h
  | failRetried now r reason available =>
      rw [task] at h
      split at h
      · have hlive := terminal_retriedState now available
        rw [show retriedState now available = .completed from h] at hlive
        cases hlive
      · exact .inl h
  | _ =>
      rw [task] at h
      split at h
      · cases h
      · exact .inl h

/-- A last attempt that a change ends leaves its task terminal. -/
theorem terminal_of_ending (hc : c.Allowed k) (hleft : c.AttemptsLeft k) (ht : t ∈ k.tasks.rows)
    (hr : r ∈ k.runs.rows) (hid : t.taskId = r.taskId) (hlast : LastAttempt t.maxAttempts r.attempt)
    (ha : r.Active) (hended : ¬ (c.run r).Active) :
  (c.task k t).state.terminal = true
  := by
  have hother : ∀ {r₀ : RunRow}, r₀ ∈ k.runs.rows → r.runId = r₀.runId → t.taskId = r₀.taskId := by
    intro r₀ hr₀ hrun
    rw [hid, Keyed.Table.eq_of_key_eq hr hr₀ hrun]
  cases c with
  | draw | spawn | wakeTask | retry | delete => exact absurd ha hended
  | claim | wakeRun =>
      rw [run] at hended
      split at hended
      · exact absurd rfl hended
      · exact absurd ha hended
  | park r₀ e =>
      rw [run] at hended
      split at hended
      · rw [RunRow.Active, hc.2.2.state] at hended
        exact absurd rfl hended
      · exact absurd ha hended
  | adjust r₀ e =>
      rw [run] at hended
      split at hended
      · rw [RunRow.Active, hc.2.state] at hended
        exact absurd ha hended
      · exact absurd ha hended
  | complete _ r₀ _ | failForGood _ r₀ _ | failCancelled _ r₀ _ =>
      rw [run] at hended
      split at hended
      · rename_i hrun
        rw [task, if_pos (hother hc.1 hrun)]
        rfl
      · exact absurd ha hended
  | failRetried _ r₀ _ _ =>
      rw [run] at hended
      split at hended
      · rename_i hrun
        rw [AttemptsLeft, ← hother hc.1 hrun, Keyed.Table.get?_of_mem ht, Option.bind_some,
          ← Keyed.Table.eq_of_key_eq hr hc.1 hrun] at hleft
        rw [LastAttempt, hleft] at hlast
        cases hlast
      · exact absurd ha hended
  | cancel _ id =>
      rw [run] at hended
      split at hended
      · rename_i hcancelled
        rw [task, if_pos (hid.trans hcancelled.1)]
        rfl
      · exact absurd ha hended

end Change

/-! ### Last attempts that have ended -/

/-- The tasks whose last attempt has ended are terminal. -/
def Lifecycle.Spent (k : Lifecycle) : Prop :=
  ∀ r ∈ k.runs.rows, ¬ r.Active → ∀ t ∈ k.tasks.rows, t.taskId = r.taskId →
    LastAttempt t.maxAttempts r.attempt → t.state.terminal = true

theorem spent_create (storage : StorageMode) :
  (Lifecycle.create storage).Spent
  := fun _ hr => absurd hr List.not_mem_nil

section

variable {k : Lifecycle} {c : Change} {held : Uuid → Prop} {id : Uuid}

/-- The runs a change adds are active. -/
theorem active_of_added {r : RunRow} (hr : r ∈ c.added k) :
  r.Active
  := by
  cases c with
  | spawn | retry =>
      obtain rfl := List.mem_singleton.mp hr
      rfl
  | failRetried now r₀ reason available =>
      obtain rfl := List.mem_singleton.mp hr
      exact terminal_retriedState now available
  | _ => cases hr

/-- A task that is spawned has no run yet. -/
theorem taskId_ne_of_spawned {now : Time} {t : TaskRow} (h : k.Consistent)
    (hc : (Change.spawn now t).Allowed k) {r : RunRow} (hr : r ∈ k.runs.rows) :
  t.taskId ≠ r.taskId
  := by
  intro hid
  obtain ⟨t', ht', hid'⟩ := h.owned r hr
  have hdrawn := h.taskDrawn t' ht'
  rw [hid', ← hid, hc.1.taskId] at hdrawn
  exact absurd hdrawn (lt_irrefl _)

theorem spent_apply (h : k.Consistent) (hc : c.Allowed k) (hnumbered : c.Numbered)
    (hleft : c.AttemptsLeft k) (hby : c.By held) (hspent : k.Spent) :
  (c.apply k).Spent
  := by
  intro r' hr' hended t' ht' hid hlast
  rcases Change.mem_runs_apply hr' with ⟨r, hr, rfl⟩ | hadded
  · rw [Change.taskId_run] at hid
    rw [Change.attempt_run hnumbered] at hlast
    rcases Change.mem_tasks_apply ht' with ⟨t, ht, rfl⟩ | ⟨now, rfl⟩
    · rw [(TaskRow.eq_of_origin (Change.origin_task k c t)).1] at hid
      rw [Change.maxAttempts_task hby] at hlast
      by_cases ha : r.Active
      · exact Change.terminal_of_ending hc hleft ht hr hid hlast ha hended
      · have hterminal := hspent r hr ha t ht hid hlast
        rwa [Change.task_of_terminal h hc hby ht hterminal]
    · exact absurd hid (taskId_ne_of_spawned h hc hr)
  · exact absurd (active_of_added hadded) hended

/-! ### Tasks that are over -/

/-- The task is terminal, or its last attempt runs and nobody holds that run. -/
def Lifecycle.Closing (k : Lifecycle) (held : Uuid → Prop) (id : Uuid) : Prop :=
  id.index < k.drawn ∧ ∀ t ∈ k.tasks.rows, t.taskId = id →
    t.state.terminal = true ∨ ∃ r ∈ k.runs.rows, r.taskId = id ∧ r.state = .running
      ∧ LastAttempt t.maxAttempts r.attempt ∧ ¬ held r.runId

/-- The task is completed. -/
def Lifecycle.Completed (k : Lifecycle) (id : Uuid) : Prop :=
  ∃ t ∈ k.tasks.rows, t.taskId = id ∧ t.state = .completed

/-- A run of a change's lifecycle after it. -/
theorem run_mem_apply (h : k.Consistent) (hc : c.Allowed k) {r : RunRow} (hr : r ∈ k.runs.rows)
    (hspares : c.Spares r.taskId) :
  c.run r ∈ (c.apply k).runs.rows
  := by
  have hmem : c.run r ∈ (c.apply k).runsOf r.taskId := by
    rw [Change.runsOf_apply h hc hspares]
    apply List.mem_append_left
    apply List.mem_map_of_mem
    exact Lifecycle.mem_runsOf.mpr ⟨hr, rfl⟩
  exact (Lifecycle.mem_runsOf.mp hmem).1

/-- A change that a task survives spares it. -/
theorem spares_of_mem {t : TaskRow} (ht : t ∈ (c.apply k).tasks.rows) :
  c.Spares t.taskId
  := by
  cases c with
  | delete batch =>
      have hkept : t.taskId ∉ batch := by simpa using (Keyed.Table.mem_delete.mp ht).2
      exact hkept
  | _ => exact trivial

/-- A change leaves a running run that nobody holds running, or ends it. -/
theorem running_or_ended (hc : c.Allowed k) (hby : c.By held) {r : RunRow} (hr : r ∈ k.runs.rows)
    (hrunning : r.state = .running) (hfree : ¬ held r.runId) :
  (c.run r).state = .running ∨ ¬ (c.run r).Active
  := by
  have hsame : ∀ {r₀ : RunRow}, r₀ ∈ k.runs.rows → r.runId = r₀.runId → r = r₀ :=
    fun hr₀ hrun => Keyed.Table.eq_of_key_eq hr hr₀ hrun
  cases c with
  | draw | spawn | wakeTask | retry | delete => exact .inl hrunning
  | claim _ _ _ r₀ =>
      rw [Change.run]
      split
      · exact .inl rfl
      · exact .inl hrunning
  | wakeRun _ _ r₀ =>
      rw [Change.run]
      split
      · rename_i hrun
        rw [hsame hc.1 hrun] at hrunning
        rcases hc.2 with hwaits | hwaits
        all_goals
          rw [hrunning] at hwaits
          cases hwaits
      · exact .inl hrunning
  | park r₀ e =>
      rw [Change.run]
      split
      · rename_i hrun
        rw [hrun] at hfree
        exact absurd hby hfree
      · exact .inl hrunning
  | adjust r₀ e =>
      rw [Change.run]
      split
      · exact .inl ((hc.2.state r).trans hrunning)
      · exact .inl hrunning
  | complete _ r₀ _ | failForGood _ r₀ _ | failCancelled _ r₀ _ | failRetried _ r₀ _ _ =>
      rw [Change.run]
      split
      · right
        rintro ⟨⟩
      · exact .inl hrunning
  | cancel _ id =>
      rw [Change.run]
      split
      · right
        rintro ⟨⟩
      · exact .inl hrunning

/-- A task that is over stays over. -/
theorem closing_apply (h : k.Consistent) (hc : c.Allowed k) (hnumbered : c.Numbered)
    (hleft : c.AttemptsLeft k) (hby : c.By held) (hclosing : k.Closing held id) :
  (c.apply k).Closing held id
  := by
  use hclosing.1.trans_le (Change.drawn_le_apply hc)
  intro t' ht' hid
  rcases Change.mem_tasks_apply ht' with ⟨t, ht, rfl⟩ | ⟨now, rfl⟩
  · have hid' : t.taskId = id := (TaskRow.eq_of_origin (Change.origin_task k c t)).1.symm.trans hid
    rcases hclosing.2 t ht hid' with hterminal | ⟨r, hr, hrun, hrunning, hlast, hfree⟩
    · left
      rwa [Change.task_of_terminal h hc hby ht hterminal]
    · rcases running_or_ended hc hby hr hrunning hfree with hrunning' | hended
      · right
        have hspares : c.Spares r.taskId := by
          rw [hrun, ← hid]
          exact spares_of_mem ht'
        refine ⟨_, run_mem_apply h hc hr hspares, ?_, hrunning', ?_, ?_⟩
        · rw [Change.taskId_run, hrun]
        · rwa [Change.maxAttempts_task hby, Change.attempt_run hnumbered]
        · rwa [Change.runId_run]
      · left
        exact Change.terminal_of_ending hc hleft ht hr (hid'.trans hrun.symm) hlast
          (active_of_running hrunning) hended
  · have hdrawn := hclosing.1
    rw [← hid, hc.1.taskId] at hdrawn
    exact absurd hdrawn (lt_irrefl _)

/-- A task that is over is not completed any more. -/
theorem completed_of_closing (h : k.Consistent) (hc : c.Allowed k) (hby : c.By held)
    (hclosing : k.Closing held id) (hcompleted : (c.apply k).Completed id) :
  k.Completed id
  := by
  obtain ⟨t', ht', hid, hstate⟩ := hcompleted
  rcases Change.mem_tasks_apply ht' with ⟨t, ht, rfl⟩ | ⟨now, rfl⟩
  · have hid' : t.taskId = id := (TaskRow.eq_of_origin (Change.origin_task k c t)).1.symm.trans hid
    rcases Change.completed_task hstate with hdone | ⟨now, r, payload, rfl, hown⟩
    · exact ⟨t, ht, hid', hdone⟩
    · exfalso
      have ha : r.Active := active_of_running hc.2
      rcases hclosing.2 t ht hid' with hterminal | ⟨r', hr', hrun, hrunning, -, hfree⟩
      · exact Change.taskId_ne_of_terminal h ht hterminal hc.1 ha hown
      · rw [eq_of_active h hc.1 hr' ha (active_of_running hrunning)
          (hrun.trans (hid'.symm.trans hown))] at hfree
        exact hfree hby
  · have hfresh := hc.1.state
    rw [hstate] at hfresh
    cases hfresh

/-- No run of a task that is over waits for a worker. -/
theorem taskId_ne_of_closing (h : k.Consistent) (hclosing : k.Closing held id) {r : RunRow}
    (hr : r ∈ k.runs.rows) (hwaits : r.state = .pending ∨ r.state = .sleeping) :
  r.taskId ≠ id
  := by
  rintro rfl
  have ha := active_of_waiting hwaits
  obtain ⟨t, ht, hlive, -⟩ := task_of_active h hr ha
  rcases hclosing.2 t (Keyed.Table.mem_of_get? ht) (Keyed.Table.key_of_get? ht)
    with hterminal | ⟨r', hr', hrun, hrunning, -, -⟩
  · rw [hterminal] at hlive
    cases hlive
  · rw [← eq_of_active h hr hr' ha (active_of_running hrunning) hrun, hrunning] at hwaits
    rcases hwaits with hwaits | hwaits <;> cases hwaits

end

end DjangoAbsurd.Engine
