import DjangoAbsurd.Engine.Integrity
import DjangoAbsurd.Library.Turns

/-!
# Cleaning up

Every task that is over has a moment it ended, and a cleanup takes the tasks that ended first.
So the tasks that ended before some moment are gone once cleanups have had room for as many of
them as there were, whatever else happens to the queue in between.
-/

namespace DjangoAbsurd.Engine

/-- The moment a terminal task of a lifecycle ended. -/
def Lifecycle.endedAt (k : Lifecycle) (t : TaskRow) : Option Time :=
  let run := t.lastAttemptRun.bind k.runs.get?
  match t.state with
  | .completed => run.bind RunRow.completedAt
  | .failed => run.bind RunRow.failedAt
  | .cancelled => t.cancelledAt
  | _ => none

theorem terminalAt_eq (s : QueueState) (t : TaskRow) :
  terminalAt s t = s.life.endedAt t
  := rfl

/-- The tasks of a lifecycle that ended before a moment. -/
def Lifecycle.old (k : Lifecycle) (cutoff : Time) : List TaskRow :=
  k.tasks.rows.filter (fun t => t.state.terminal ∧ (k.endedAt t).any (· < cutoff))

/-- How many tasks a call has room to clean up. -/
def Label.room : Label → ℕ
  | .cleanupTasks _ _ limit _ => limit
  | _ => 0

/-- The call ends no task before the moment, and cleans up those that did. -/
def Label.NotBefore (cutoff : Time) : Label → Prop
  | .complete now _ _ | .fail now _ _ _ | .cancel now _ | .claim now _ _ _ => cutoff ≤ now
  | .cleanupTasks now ttlSeconds _ _ => cutoff ≤ now - seconds ttlSeconds
  | _ => True

/-- The change ends no task before the moment. -/
def Change.NotBefore (cutoff : Time) : Change → Prop
  | .complete now _ _ | .failForGood now _ _ | .failCancelled now _ _ | .cancel now _ => cutoff ≤ now
  | _ => True

section

variable {pg : Postgres} {s s' : QueueState} {k : Lifecycle} {c : Change} {l : Label} {ls : List Label}
  {t : TaskRow} {r : RunRow} {cutoff x : Time}

theorem mem_old :
  t ∈ k.old cutoff ↔ t ∈ k.tasks.rows ∧ t.state.terminal = true ∧ ∃ x, k.endedAt t = some x ∧ x < cutoff
  := by
  simp only [Lifecycle.old, List.mem_filter, decide_eq_true_eq, Option.any_eq_true]

theorem nodup_old (k : Lifecycle) (cutoff : Time) :
  (k.old cutoff).Nodup
  := (List.Nodup.of_map _ k.tasks.nodup).filter _

/-! ### When a task ended -/

/-- The last run of a task. -/
theorem exists_last (hk : k.Consistent) (ht : t ∈ k.tasks.rows) :
  ∃ r ∈ k.runs.rows, r.taskId = t.taskId ∧ t.Agrees r ∧ r.Timed
    ∧ t.lastAttemptRun.bind k.runs.get? = some r
  := by
  obtain ⟨r, hr, hagrees⟩ := (hk.follows t ht).last
  obtain ⟨hrow, hid⟩ := Lifecycle.mem_runsOf.mp hr
  refine ⟨r, hrow, hid, hagrees, (hk.follows t ht).timed r hr, ?_⟩
  rw [hagrees.last]
  exact Keyed.Table.get?_of_mem hrow

/-- Every task that is over has ended at some moment. -/
theorem endedAt_of_terminal (hk : k.Consistent) (ht : t ∈ k.tasks.rows)
    (hterminal : t.state.terminal = true) :
  ∃ x, k.endedAt t = some x
  := by
  obtain ⟨r, hr, -, hagrees, htimed, hlast⟩ := exists_last hk ht
  cases hstate : t.state with
  | completed =>
      obtain ⟨x, hx⟩ := Option.ne_none_iff_exists'.mp (htimed.completed.mpr (hagrees.completed.mp hstate))
      use x
      simpa [Lifecycle.endedAt, hstate, hlast] using hx
  | failed =>
      obtain ⟨x, hx⟩ := Option.ne_none_iff_exists'.mp (htimed.failed.mpr (hagrees.failed hstate))
      use x
      simpa [Lifecycle.endedAt, hstate, hlast] using hx
  | cancelled =>
      obtain ⟨x, hx⟩ := Option.ne_none_iff_exists'.mp (hagrees.cancelled.mpr hstate)
      use x
      simpa [Lifecycle.endedAt, hstate] using hx
  | pending | running | sleeping =>
      rw [hstate] at hterminal
      cases hterminal

/-- A run of a lifecycle after a change that spares its task. -/
theorem get?_runs_apply (hk : k.Consistent) (hc : c.Allowed k) (hr : r ∈ k.runs.rows)
    (hspares : c.Spares r.taskId) :
  (c.apply k).runs.get? r.runId = some (c.run r)
  := by
  have hget := Keyed.Table.get?_of_mem (run_mem_apply hk hc hr hspares)
  rwa [Change.runId_run] at hget

/-- A task that is over and stays as it is ended when it did. -/
theorem endedAt_apply (hk : k.Consistent) (hc : c.Allowed k) (ht : t ∈ k.tasks.rows)
    (hterminal : t.state.terminal = true) (ht' : t ∈ (c.apply k).tasks.rows) :
  (c.apply k).endedAt t = k.endedAt t
  := by
  obtain ⟨r, hr, hid, hagrees, -, hlast⟩ := exists_last hk ht
  have hended : ¬ r.Active := by
    rw [← hagrees.live, hterminal]
    exact Bool.noConfusion
  have hrun := get?_runs_apply hk hc hr (hid ▸ spares_of_mem ht')
  obtain ⟨-, -, htimes⟩ := Change.run_of_ended hc hr hended
  obtain ⟨-, hcompleted, hfailed⟩ : _ ∧ (c.run r).completedAt = r.completedAt
      ∧ (c.run r).failedAt = r.failedAt := by simpa [RunRow.times] using htimes
  have hlast' : t.lastAttemptRun.bind (c.apply k).runs.get? = some (c.run r) := by
    rw [hagrees.last]
    exact hrun
  rw [Lifecycle.endedAt, Lifecycle.endedAt, hlast, hlast']
  simp only [Option.bind_some, hcompleted, hfailed]

/-- The run a change completes or fails, and the moment it does. -/
theorem endedAt_of_run (hk : k.Consistent) (hc : c.Allowed k) (hr : r ∈ k.runs.rows)
    (hspares : c.Spares r.taskId) {t' : TaskRow} (hlast : t'.lastAttemptRun = some r.runId)
    (hended : t'.state = .completed ∧ (c.run r).completedAt = some x
      ∨ t'.state = .failed ∧ (c.run r).failedAt = some x) :
  (c.apply k).endedAt t' = some x
  := by
  have hrun := get?_runs_apply hk hc hr hspares
  rw [Lifecycle.endedAt, hlast]
  rcases hended with ⟨hstate, hx⟩ | ⟨hstate, hx⟩
  all_goals
    rw [hstate]
    simpa only [Option.bind_some, hrun] using hx

/-- A change that ends a task ends it at the moment of its clock. -/
theorem endedAt_of_ending (hk : k.Consistent) (hc : c.Allowed k) (hlater : c.NotBefore cutoff)
    (ht : t ∈ k.tasks.rows) (hlive : t.state.terminal = false)
    (hterminal : (c.task k t).state.terminal = true) :
  ∃ x, (c.apply k).endedAt (c.task k t) = some x ∧ cutoff ≤ x
  := by
  obtain ⟨r, -, -, hagrees, -, -⟩ := exists_last hk ht
  have hnone : t.cancelledAt = none := (hagrees.of_active (hagrees.live.mp hlive)).2
  have hkept : ∀ {t' : TaskRow}, t' = t → t'.state.terminal = true → False := by
    rintro t' rfl hterminal
    rw [hlive] at hterminal
    cases hterminal
  cases c with
  | draw | spawn | wakeRun | adjust | delete => exact (hkept rfl hterminal).elim
  | claim | park | wakeTask | retry =>
      rw [Change.task] at hterminal
      split at hterminal
      · cases hterminal
      · exact (hkept rfl hterminal).elim
  | failRetried now r reason available =>
      rw [Change.task] at hterminal
      split at hterminal
      · exact absurd hterminal (Bool.eq_false_iff.mp (terminal_retriedState now available))
      · exact (hkept rfl hterminal).elim
  | complete now r payload =>
      by_cases hid : t.taskId = r.taskId
      · refine ⟨now, endedAt_of_run hk hc hc.1 trivial ?_ (.inl ⟨?_, ?_⟩), hlater⟩
        · rw [Change.task, if_pos hid]
          rfl
        · rw [Change.task, if_pos hid]
          rfl
        · rw [Change.run, if_pos rfl]
          rfl
      · exact (hkept (if_neg hid) hterminal).elim
  | failForGood now r reason =>
      by_cases hid : t.taskId = r.taskId
      · refine ⟨now, endedAt_of_run hk hc hc.1 trivial ?_ (.inr ⟨?_, ?_⟩), hlater⟩
        · rw [Change.task, if_pos hid]
          rfl
        · rw [Change.task, if_pos hid]
          rfl
        · rw [Change.run, if_pos rfl]
          rfl
      · exact (hkept (if_neg hid) hterminal).elim
  | failCancelled now r reason =>
      by_cases hid : t.taskId = r.taskId
      · refine ⟨now, ?_, hlater⟩
        rw [Change.task, if_pos hid]
        simp [Lifecycle.endedAt, TaskRow.settle, hnone]
      · exact (hkept (if_neg hid) hterminal).elim
  | cancel now id =>
      by_cases hid : t.taskId = id
      · refine ⟨now, ?_, hlater⟩
        rw [Change.task, if_pos hid]
        simp [Lifecycle.endedAt, TaskRow.cancel, hnone]
      · exact (hkept (if_neg hid) hterminal).elim

/-- A terminal task stays as it is, or is retried. -/
theorem task_eq_of_terminal (hk : k.Consistent) (hc : c.Allowed k) (ht : t ∈ k.tasks.rows)
    (hterminal : t.state.terminal = true) (hterminal' : (c.task k t).state.terminal = true) :
  c.task k t = t
  := by
  cases c with
  | retry now t₀ n =>
      rw [Change.task] at hterminal'
      split at hterminal'
      · cases hterminal'
      · rename_i hid
        exact if_neg hid
  | _ =>
      exact Change.task_of_terminal hk hc (show Change.By (fun _ => True) _ from trivial) ht hterminal

/-- The tasks that ended before a moment did so before the change. -/
theorem old_apply (hk : k.Consistent) (hc : c.Allowed k) (hlater : c.NotBefore cutoff) {t' : TaskRow}
    (h : t' ∈ (c.apply k).old cutoff) :
  t' ∈ k.old cutoff
  := by
  obtain ⟨ht', hterminal, x, hx, hlt⟩ := mem_old.mp h
  rcases Change.mem_tasks_apply ht' with ⟨t, ht, rfl⟩ | ⟨now, rfl⟩
  · cases hstate : t.state.terminal with
    | false =>
        obtain ⟨y, hy, hle⟩ := endedAt_of_ending hk hc hlater ht hstate hterminal
        rw [hx] at hy
        cases hy
        exact absurd hlt (not_lt.mpr hle)
    | true =>
        have hsame := task_eq_of_terminal hk hc ht hstate hterminal
        rw [hsame] at ht' hx ⊢
        rw [endedAt_apply hk hc ht hstate ht'] at hx
        exact mem_old.mpr ⟨ht, hstate, x, hx, hlt⟩
  · rw [hc.1.state] at hterminal
    cases hterminal

/-! ### Cleanups -/

/-- The tasks a cleanup may take and takes. -/
def QueueState.taken (s : QueueState) (cutoff : Time) (batch : List Uuid) : List TaskRow :=
  (s.tasks.rows.filter (cleanable s cutoff)).filter (fun t => t.taskId ∈ batch)

theorem nodup_taken (s : QueueState) (cutoff : Time) (batch : List Uuid) :
  (s.taken cutoff batch).Nodup
  := ((List.Nodup.of_map _ s.tasks.nodup).filter _).filter _

/-- A cleanup takes as many tasks as its batch has. -/
theorem length_taken {limit : ℕ} {batch : List Uuid} (hbatch : IsCleanupBatch s cutoff limit batch) :
  (s.taken cutoff batch).length = batch.length
  := by
  have hids : ((s.taken cutoff batch).map TaskRow.taskId).Nodup :=
    s.tasks.nodup.sublist (List.Sublist.map _ (List.filter_sublist.trans List.filter_sublist))
  rw [← List.length_map TaskRow.taskId]
  apply Nat.le_antisymm
  · apply (List.subperm_of_subset hids _).length_le
    intro id hid
    obtain ⟨t, ht, rfl⟩ := List.mem_map.mp hid
    exact of_decide_eq_true (List.mem_filter.mp ht).2
  · apply (List.subperm_of_subset hbatch.1 _).length_le
    intro id hid
    obtain ⟨t, ht, rfl⟩ := List.mem_map.mp (hbatch.2.1 id hid)
    exact List.mem_map_of_mem (List.mem_filter.mpr ⟨ht, decide_eq_true hid⟩)

/-- A cleanup that leaves a task it may take has no room for it. -/
theorem limit_le_taken {limit : ℕ} {batch : List Uuid} (hbatch : IsCleanupBatch s cutoff limit batch)
    (ht : t ∈ s.tasks.rows.filter (cleanable s cutoff)) (hnot : t.taskId ∉ batch) :
  limit ≤ (s.taken cutoff batch).length
  := by
  have hfresh : t ∉ s.taken cutoff batch :=
    fun hmem => hnot (of_decide_eq_true (List.mem_filter.mp hmem).2)
  have hmore : (t :: s.taken cutoff batch).length
      ≤ (s.tasks.rows.filter (cleanable s cutoff)).length := by
    apply (List.subperm_of_subset (List.nodup_cons.mpr ⟨hfresh, nodup_taken s cutoff batch⟩) _).length_le
    intro t' ht'
    rcases List.mem_cons.mp ht' with rfl | ht'
    · exact ht
    · exact (List.mem_filter.mp ht').1
  have hlength := hbatch.2.2.1
  rw [← length_taken hbatch] at hlength
  rw [List.length_cons] at hmore
  omega

/-- A cleanup takes the tasks that ended before a moment first. -/
theorem old_cleanup {limit : ℕ} {batch : List Uuid} {cutoff' : Time} (hcutoff : cutoff ≤ cutoff')
    (hbatch : IsCleanupBatch s cutoff' limit batch) (hk : s.life.Consistent) :
  ((s.life.delete batch).old cutoff).length ≤ (s.life.old cutoff).length - limit
  := by
  have hallowed : (Change.delete batch).Allowed s.life := trivial
  have hkept : ∀ t ∈ (s.life.delete batch).old cutoff, t ∈ s.life.old cutoff ∧ t.taskId ∉ batch := by
    intro t ht
    have hspared : t.taskId ∉ batch := spares_of_mem (c := .delete batch) (mem_old.mp ht).1
    exact ⟨old_apply hk hallowed trivial ht, hspared⟩
  have heligible : ∀ t ∈ s.life.old cutoff, t ∈ s.tasks.rows.filter (cleanable s cutoff') := by
    intro t ht
    obtain ⟨ht, hterminal, x, hx, hlt⟩ := mem_old.mp ht
    apply List.mem_filter.mpr
    refine ⟨ht, decide_eq_true ⟨hterminal, ?_⟩⟩
    rw [terminalAt_eq, hx]
    exact decide_eq_true (hlt.trans_le hcutoff)
  by_cases hnone : (s.life.delete batch).old cutoff = []
  · rw [hnone]
    exact Nat.zero_le _
  · obtain ⟨t', ht'⟩ := List.exists_mem_of_ne_nil _ hnone
    obtain ⟨hold', hnot'⟩ := hkept t' ht'
    obtain ⟨-, -, x', hx', hlt'⟩ := mem_old.mp hold'
    -- a task that ended before the moment was left, so every task taken ended before it
    have htaken : ∀ t ∈ s.taken cutoff' batch, t ∈ s.life.old cutoff := by
      intro t ht
      obtain ⟨ht, hin⟩ := List.mem_filter.mp ht
      have hle := hbatch.2.2.2 t ht (of_decide_eq_true hin) t' (heligible t' hold') hnot'
      obtain ⟨hrow, hclean⟩ := List.mem_filter.mp ht
      obtain ⟨hterminal, hended⟩ := of_decide_eq_true hclean
      obtain ⟨x, hx, -⟩ := (Option.any_eq_true ..).mp hended
      refine mem_old.mpr ⟨hrow, hterminal, x, hx, ?_⟩
      rw [hx, terminalAt_eq, hx'] at hle
      exact lt_of_le_of_lt hle hlt'
    have hjoined := (nodup_old (s.life.delete batch) cutoff).append (nodup_taken s cutoff' batch)
      (fun t ht hmem => (hkept t ht).2 (of_decide_eq_true (List.mem_filter.mp hmem).2))
    have hsubset : (s.life.delete batch).old cutoff ++ s.taken cutoff' batch ⊆ s.life.old cutoff := by
      intro t ht
      rcases List.mem_append.mp ht with ht | ht
      · exact (hkept t ht).1
      · exact htaken t ht
    have hle := (List.subperm_of_subset hjoined hsubset).length_le
    have hroom := limit_le_taken hbatch (heligible t' hold') hnot'
    rw [List.length_append] at hle
    omega

/-- There is a batch for every cleanup. -/
theorem exists_batch (s : QueueState) (cutoff : Time) (limit : ℕ) :
  ∃ batch, IsCleanupBatch s cutoff limit batch
  := by
  let before (t t' : TaskRow) : Bool := (terminalAt s t).getD 0 ≤ (terminalAt s t').getD 0
  have htrans : ∀ t₁ t₂ t₃, before t₁ t₂ → before t₂ t₃ → before t₁ t₃ := by
    intro t₁ t₂ t₃ h h'
    exact decide_eq_true ((of_decide_eq_true h).trans (of_decide_eq_true h'))
  have htotal : ∀ t₁ t₂, before t₁ t₂ || before t₂ t₁ := by
    intro t₁ t₂
    rw [Bool.or_eq_true]
    exact (Int.le_total _ _).imp decide_eq_true decide_eq_true
  let eligible := s.tasks.rows.filter (cleanable s cutoff)
  have hperm := List.mergeSort_perm eligible before
  have hids : (eligible.map TaskRow.taskId).Nodup :=
    s.tasks.nodup.sublist (List.Sublist.map _ List.filter_sublist)
  have hsorted : ((eligible.mergeSort before).map TaskRow.taskId).Nodup :=
    (hperm.map _).nodup_iff.mpr hids
  use ((eligible.mergeSort before).take limit).map TaskRow.taskId
  refine ⟨hsorted.sublist (List.Sublist.map _ (List.take_sublist _ _)), ?_, ?_, ?_⟩
  · intro id hid
    obtain ⟨t, ht, rfl⟩ := List.mem_map.mp hid
    exact List.mem_map_of_mem (List.mem_mergeSort.mp (List.mem_of_mem_take ht))
  · rw [List.length_map, List.length_take, List.length_mergeSort]
  · intro t ht hin t' ht' hnot
    have hout : t' ∉ (eligible.mergeSort before).take limit :=
      fun hmem => hnot (List.mem_map_of_mem hmem)
    obtain ⟨t₁, ht₁, hid⟩ := List.mem_map.mp hin
    have hmem₁ : t₁ ∈ eligible := List.mem_mergeSort.mp (List.mem_of_mem_take ht₁)
    obtain rfl := Keyed.Table.eq_of_key_eq (List.mem_filter.mp hmem₁).1 (List.mem_filter.mp ht).1 hid
    exact of_decide_eq_true ((Turns.take_of_not_mem htrans htotal ht' hout).2 t₁ ht₁)

/-! ### Runs of calls -/

/-- The changes of a call that ends no task before a moment do not either. -/
theorem notBefore_of_makes (hl : l.NotBefore cutoff) (hmakes : l.Makes c) :
  c.NotBefore cutoff
  := by
  cases c with
  | complete now r payload =>
      obtain rfl := hmakes
      exact hl
  | failForGood now r reason | failCancelled now r reason =>
      rcases hmakes with ⟨_, rfl⟩ | ⟨_, _, _, rfl⟩
      all_goals exact hl
  | cancel now id =>
      rcases hmakes with rfl | ⟨_, _, _, rfl⟩
      all_goals exact hl
  | _ => trivial

/-- A call takes as many of the tasks that ended before a moment as it has room for. -/
theorem old_step (hs : s.life.Consistent) (hl : l.NotBefore cutoff) (hstep : step pg s l = some s') :
  (s'.life.old cutoff).length ≤ (s.life.old cutoff).length - l.room
  := by
  by_cases hclean : ∃ now ttlSeconds limit batch, l = .cleanupTasks now ttlSeconds limit batch
  · obtain ⟨now, ttlSeconds, limit, batch, rfl⟩ := hclean
    replace hstep := (step_eq_some.mp hstep).2
    rw [call, cleanupTasks] at hstep
    split at hstep
    · rename_i hbatch
      cases hstep
      exact old_cleanup hl hbatch.2 hs
    · cases hstep
  · have hroom : l.room = 0 := by
      cases l with
      | cleanupTasks now ttlSeconds limit batch =>
          exact absurd ⟨now, ttlSeconds, limit, batch, rfl⟩ hclean
      | _ => rfl
    have hsubset : s'.life.old cutoff ⊆ s.life.old cutoff := by
      apply preserved_step (I := fun k => k.old cutoff ⊆ s.life.old cutoff) hs _ (fun _ h => h) hstep
      intro k c hmakes hk hc hsub t ht
      exact hsub (old_apply hk hc (notBefore_of_makes hl hmakes) ht)
    rw [hroom]
    exact (List.subperm_of_subset (nodup_old s'.life cutoff) hsubset).length_le

/-- Whatever calls are made, the tasks that ended before a moment they do not go back to are gone
once cleanups have had room for them: then every task that is over ended later. A cleanup is
never refused for want of a batch. -/
theorem old_collected (h : Reachable pg s) (hlater : ∀ l ∈ ls, l.NotBefore cutoff)
    (hrun : (machine pg).run s ls = some s')
    (hroom : (s.life.old cutoff).length ≤ (ls.map Label.room).sum) :
  (∀ t ∈ s'.tasks.rows, t.state.terminal = true → ∃ x, terminalAt s' t = some x ∧ cutoff ≤ x)
    ∧ ∀ now ttlSeconds limit, 0 ≤ ttlSeconds →
      ∃ batch s'', step pg s' (.cleanupTasks now ttlSeconds limit batch) = some s''
  := by
  have hs := consistent_of_reachable h
  have hs' := consistent_of_reachable (h.run hrun)
  have hle : (s'.life.old cutoff).length ≤ (s.life.old cutoff).length - (ls.map Label.room).sum := by
    apply Machine.measure_le (fun s : QueueState => (s.life.old cutoff).length) Label.room
      (I := fun s => s.life.Consistent) _ hs hlater hrun
    intro s l s' hl hs hstep
    exact ⟨(refines_step hstep).consistent hs, old_step hs hl hstep⟩
  have hnone : s'.life.old cutoff = [] := List.eq_nil_of_length_eq_zero (by omega)
  constructor
  · intro t ht hterminal
    obtain ⟨x, hx⟩ := endedAt_of_terminal hs' ht hterminal
    use x, hx
    by_contra hlt
    have hmem : t ∈ s'.life.old cutoff := mem_old.mpr ⟨ht, hterminal, x, hx, not_le.mp hlt⟩
    rw [hnone] at hmem
    exact List.not_mem_nil hmem
  · intro now ttlSeconds limit httl
    obtain ⟨batch, hbatch⟩ := exists_batch s' (now - seconds ttlSeconds) limit
    exact ⟨batch, _, step_eq_some.mpr ⟨trivial, if_pos ⟨httl, hbatch⟩⟩⟩

theorem orderShipped_collected :
  ∃ batch s, step plainPostgres (deleteTasks orderShipped [⟨0⟩]) (.cleanupTasks 6000000 1 10 batch)
    = some s
  := by
  have hship : (machine plainPostgres).run orderClaimed shipCalls = some orderShipped := rfl
  have hrun : (machine plainPostgres).run orderShipped [.cleanupTasks 5000000 1 10 [⟨0⟩]]
      = some (deleteTasks orderShipped [⟨0⟩]) := rfl
  have hlater : ∀ l ∈ [Label.cleanupTasks 5000000 1 10 [⟨0⟩]], l.NotBefore 4000000 := by
    intro l hl
    rw [List.mem_singleton.mp hl]
    exact Int.le_refl _
  exact (old_collected (reachable_orderClaimed.run hship) hlater hrun (by decide)).2 _ _ _ (by decide)

end

end DjangoAbsurd.Engine
