import DjangoAbsurd.Engine.Events

/-!
# The attempts of a task are counted

The runs of a task are its attempts one to `attempts`, in that order, the last of them is the
one the task names, no other may still run, and there are never more of them than the task
allows. This holds of every queue (`counts_of_reachable`), across retries, expired claims and
`absurd.retry_task`.
-/

namespace DjangoAbsurd.Engine

/-- The runs of a task are its attempts, in order and within its budget. -/
structure TaskRow.Counts (t : TaskRow) (rs : List RunRow) : Prop where
  numbered : rs.map RunRow.attempt = (List.range rs.length).map (fun i : ℕ => (i + 1 : ℤ))
  attempts : t.attempts = rs.length
  last : t.lastAttemptRun = rs.getLast?.map RunRow.runId
  budget : ∀ n, t.maxAttempts = some n → t.attempts ≤ n

namespace TaskRow.Counts

variable {t t' : TaskRow} {rs : List RunRow} {r n : RunRow} {f : RunRow → RunRow}

/-- The number of an attempt is its place. -/
theorem attempt_getElem (h : t.Counts rs) {i : ℕ} (hi : i < rs.length) :
  rs[i].attempt = i + 1
  := by
  have hget := congrArg (fun l => l[i]?) h.numbered
  simpa [hi] using hget

theorem attempt_le (h : t.Counts rs) (hr : r ∈ rs) :
  r.attempt ≤ t.attempts
  := by
  obtain ⟨i, hi, rfl⟩ := List.getElem_of_mem hr
  rw [h.attempt_getElem hi, h.attempts]
  omega

/-- The last run is the last attempt. -/
theorem attempt_last (h : t.Counts rs) (hr : rs.getLast? = some r) :
  r.attempt = t.attempts
  := by
  have hne : rs ≠ [] := by
    rintro rfl
    cases hr
  have hpos := List.length_pos_iff.mpr hne
  rw [List.getLast?_eq_getElem?, List.getElem?_eq_getElem (by omega)] at hr
  obtain rfl := Option.some.inj hr
  rw [h.attempt_getElem, h.attempts]
  omega

/-- A task whose attempts, last run and budget stay keeps count of runs whose numbers stay. -/
theorem keep (h : t.Counts rs) (hid : ∀ r, (f r).runId = r.runId)
    (hattempt : ∀ r, (f r).attempt = r.attempt) (hattempts : t'.attempts = t.attempts)
    (hlast : t'.lastAttemptRun = t.lastAttemptRun) (hmax : t'.maxAttempts = t.maxAttempts) :
  t'.Counts (rs.map f)
  := by
  constructor
  · rw [List.map_map, List.length_map, ← h.numbered]
    exact List.map_congr_left (fun r _ => hattempt r)
  · rw [hattempts, h.attempts, List.length_map]
  · rw [hlast, h.last, List.getLast?_map, Option.map_map]
    congr
    funext r
    exact (hid r).symm
  · rw [hmax, hattempts]
    exact h.budget

/-- A task with one more attempt keeps count of its runs and the new one. -/
theorem next (h : t.Counts rs) (hattempt : ∀ r, (f r).attempt = r.attempt)
    (hnew : n.attempt = t.attempts + 1) (hattempts : t'.attempts = t.attempts + 1)
    (hlast : t'.lastAttemptRun = some n.runId)
    (hbudget : ∀ m, t'.maxAttempts = some m → t.attempts + 1 ≤ m) :
  t'.Counts (rs.map f ++ [n])
  := by
  constructor
  · rw [List.length_append, List.length_map, List.length_singleton, List.range_succ, List.map_append,
      List.map_append, List.map_map, ← h.numbered, List.map_singleton, List.map_singleton, hnew,
      h.attempts]
    congr 1
    exact List.map_congr_left (fun r _ => hattempt r)
  · rw [hattempts, h.attempts]
    simp
  · rw [hlast, List.getLast?_append_of_ne_nil _ (List.cons_ne_nil _ _), List.getLast?_singleton]
    rfl
  · rw [hattempts]
    exact hbudget

/-- The run the task names is the last. -/
theorem eq_last (h : t.Counts rs) (hnodup : (rs.map RunRow.runId).Nodup) (hr : r ∈ rs)
    (hlast : t.lastAttemptRun = some r.runId) :
  rs.getLast? = some r
  := by
  rw [h.last] at hlast
  obtain ⟨r', hr', hid⟩ := Option.map_eq_some_iff.mp hlast
  rw [hr', List.inj_on_of_nodup_map hnodup (List.mem_of_getLast? hr') hr hid]

end TaskRow.Counts

/-! ### Counts under changes -/

/-- Every task counts its runs. -/
def Lifecycle.Counted (k : Lifecycle) : Prop := ∀ t ∈ k.tasks.rows, t.Counts (k.runsOf t.taskId)

/-- A change within the budgets of the tasks. -/
def Change.Budgeted (k : Lifecycle) : Change → Prop
  | .spawn _ t => t.attempts = 1 ∧ ∀ n, t.maxAttempts = some n → 1 ≤ n
  | .failRetried now r reason available => (Change.failRetried now r reason available).AttemptsLeft k
  | .retry _ t n => t.attempts < n
  | c => c.Numbered

/-- The task keeps count of its runs through the change. -/
def Change.KeepsCount (k : Lifecycle) (c : Change) (t : TaskRow) : Prop :=
  (c.task k t).Counts
    ((k.runsOf t.taskId).map c.run ++ (c.added k).filter (fun r => r.taskId = t.taskId))

section

variable {k : Lifecycle} {c : Change} {t : TaskRow} {r n : RunRow} {now : Time}

theorem Change.Budgeted.numbered (h : c.Budgeted k) :
  c.Numbered
  := by
  cases c with
  | park | adjust => exact h
  | _ => exact trivial

/-- An active run of a task is its last attempt. -/
theorem last_of_active (h : k.Counted) (hk : k.Consistent) (ht : t ∈ k.tasks.rows)
    (hr : r ∈ k.runsOf t.taskId) (ha : r.Active) :
  t.lastAttemptRun = some r.runId ∧ r.attempt = t.attempts
  := by
  have hlast := (hk.follows t ht).active r hr ha
  use hlast
  exact (h t ht).attempt_last ((h t ht).eq_last (Lifecycle.nodup_runsOf k _) hr hlast)

/-- A change that adds no run of the task, and leaves its attempts, its last run and its budget. -/
theorem keepsCount_of_same (h : k.Counted) (hnumbered : c.Numbered) (ht : t ∈ k.tasks.rows)
    (hadded : (c.added k).filter (fun r => r.taskId = t.taskId) = [])
    (hattempts : (c.task k t).attempts = t.attempts)
    (hlast : (c.task k t).lastAttemptRun = t.lastAttemptRun)
    (hmax : (c.task k t).maxAttempts = t.maxAttempts) :
  c.KeepsCount k t
  := by
  rw [Change.KeepsCount, hadded, List.append_nil]
  exact (h t ht).keep (Change.runId_run c) (Change.attempt_run hnumbered) hattempts hlast hmax

/-- A change that names an active run again as the last one of its task. -/
theorem keepsCount_of_again (h : k.Counted) (hk : k.Consistent) (hnumbered : c.Numbered)
    (ht : t ∈ k.tasks.rows) (hr : r ∈ k.runs.rows) (ha : r.Active) (e : Keyed.Edit TaskRow.taskId)
    (htask : c.task k t = if t.taskId = r.taskId then e.apply t else t) (hadded : c.added k = [])
    (hattempts : r.attempt = t.attempts → (e.apply t).attempts = t.attempts)
    (hlast : (e.apply t).lastAttemptRun = some r.runId)
    (hmax : (e.apply t).maxAttempts = t.maxAttempts) :
  c.KeepsCount k t
  := by
  have hnone : (c.added k).filter (fun r => r.taskId = t.taskId) = [] := by
    rw [hadded, List.filter_nil]
  by_cases hown : t.taskId = r.taskId
  · obtain ⟨hnamed, hattempt⟩ :=
      last_of_active h hk ht (Lifecycle.mem_runsOf.mpr ⟨hr, hown.symm⟩) ha
    apply keepsCount_of_same h hnumbered ht hnone
    all_goals rw [htask, if_pos hown]
    · exact hattempts hattempt
    · rw [hlast, hnamed]
    · exact hmax
  · apply keepsCount_of_same h hnumbered ht hnone
    all_goals rw [htask, if_neg hown]

/-- A change that adds the next attempt of the task, within its budget. -/
theorem keepsCount_of_next (h : k.Counted) (hnumbered : c.Numbered) (ht : t ∈ k.tasks.rows)
    (hadded : c.added k = [n]) (hown : n.taskId = t.taskId) (hnew : n.attempt = t.attempts + 1)
    (hattempts : (c.task k t).attempts = t.attempts + 1)
    (hlast : (c.task k t).lastAttemptRun = some n.runId)
    (hbudget : ∀ m, (c.task k t).maxAttempts = some m → t.attempts + 1 ≤ m) :
  c.KeepsCount k t
  := by
  have hone : (c.added k).filter (fun r => r.taskId = t.taskId) = [n] := by
    rw [hadded, List.filter_cons, if_pos (decide_eq_true hown), List.filter_nil]
  rw [Change.KeepsCount, hone]
  exact (h t ht).next (Change.attempt_run hnumbered) hnew hattempts hlast hbudget

theorem keepsCount_failRetried {reason : Json} {available : Time} (h : k.Counted)
    (hk : k.Consistent) (hc : (Change.failRetried now r reason available).Allowed k)
    (hleft : (Change.failRetried now r reason available).AttemptsLeft k) (ht : t ∈ k.tasks.rows) :
  (Change.failRetried now r reason available).KeepsCount k t
  := by
  have hnumbered : (Change.failRetried now r reason available).Numbered := trivial
  by_cases hown : t.taskId = r.taskId
  · obtain ⟨-, hattempt⟩ := last_of_active h hk ht
      (Lifecycle.mem_runsOf.mpr ⟨hc.1, hown.symm⟩) (active_of_failing hc.2)
    have hget : k.tasks.get? r.taskId = some t := hown ▸ Keyed.Table.get?_of_mem ht
    apply keepsCount_of_next h hnumbered ht rfl hown.symm
    · exact congrArg (· + 1) hattempt
    all_goals simp only [Change.task, if_pos hown, TaskRow.settle]
    · omega
    · rfl
    · intro m hm
      rw [Change.AttemptsLeft, hget, Option.bind_some, hm] at hleft
      simpa [hattempt] using hleft
  · apply keepsCount_of_same h hnumbered ht (by simp [Change.added, newRun, Ne.symm hown])
    all_goals simp only [Change.task, if_neg hown]

theorem keepsCount_retry {t₀ : TaskRow} {maxAttempts : ℤ} (h : k.Counted)
    (ht₀ : t₀ ∈ k.tasks.rows) (hleft : t₀.attempts < maxAttempts) (ht : t ∈ k.tasks.rows) :
  (Change.retry now t₀ maxAttempts).KeepsCount k t
  := by
  have hnumbered : (Change.retry now t₀ maxAttempts).Numbered := trivial
  by_cases hown : t.taskId = t₀.taskId
  · obtain rfl : t = t₀ := Keyed.Table.eq_of_key_eq ht ht₀ hown
    apply keepsCount_of_next h hnumbered ht rfl rfl rfl
    all_goals simp only [Change.task, if_true, TaskRow.retry]
    · omega
    · rfl
    · intro m hm
      obtain rfl := Option.some.inj hm
      exact hleft
  · apply keepsCount_of_same h hnumbered ht (by simp [Change.added, newRun, Ne.symm hown])
    all_goals simp only [Change.task, if_neg hown]

/-- A task that is there keeps count of its runs through every change. -/
theorem keepsCount_of_mem (h : k.Counted) (hk : k.Consistent) (hc : c.Allowed k)
    (hb : c.Budgeted k) (ht : t ∈ k.tasks.rows) :
  c.KeepsCount k t
  := by
  have hnumbered := hb.numbered
  cases c with
  | draw | wakeRun | adjust | delete => exact keepsCount_of_same h hnumbered ht rfl rfl rfl rfl
  | spawn now t₀ =>
      apply keepsCount_of_same h hnumbered ht _ rfl rfl rfl
      simp [Change.added, newRun, taskId_ne_of_fresh hk ht hc.1]
  | park r e | wakeTask id | cancel now id =>
      apply keepsCount_of_same h hnumbered ht rfl
      all_goals
        simp only [Change.task]
        split <;> rfl
  | claim now worker claimUntil r =>
      apply keepsCount_of_again h hk hnumbered ht hc.1 (active_of_waiting hc.2)
        (TaskRow.claim now r) rfl rfl _ rfl rfl
      intro hattempt
      exact max_eq_left hattempt.le
  | complete now r payload =>
      apply keepsCount_of_again h hk hnumbered ht hc.1 (active_of_running hc.2)
        (TaskRow.complete r.runId payload) rfl rfl _ rfl rfl
      exact fun _ => rfl
  | failForGood now r reason =>
      apply keepsCount_of_again h hk hnumbered ht hc.1 (active_of_failing hc.2)
        (TaskRow.settle .failed r.attempt r.runId none) rfl rfl _ rfl rfl
      intro hattempt
      exact max_eq_left hattempt.le
  | failCancelled now r reason =>
      apply keepsCount_of_again h hk hnumbered ht hc.1 (active_of_failing hc.2)
        (TaskRow.settle .cancelled r.attempt r.runId (some now)) rfl rfl _ rfl rfl
      intro hattempt
      exact max_eq_left hattempt.le
  | failRetried now r reason available => exact keepsCount_failRetried h hk hc hb ht
  | retry now t₀ n => exact keepsCount_retry h hc.1 hb ht

/-- A task that is spawned counts its first run. -/
theorem counts_spawned (hk : k.Consistent) (hc : (Change.spawn now t).Allowed k)
    (hb : (Change.spawn now t).Budgeted k) :
  t.Counts ((k.runsOf t.taskId).map (Change.spawn now t).run
    ++ ((Change.spawn now t).added k).filter (fun r => r.taskId = t.taskId))
  := by
  have hempty : k.runsOf t.taskId = [] := by
    apply List.eq_nil_iff_forall_not_mem.mpr
    intro r hr
    obtain ⟨hmem, hid⟩ := Lifecycle.mem_runsOf.mp hr
    obtain ⟨t', ht', heq⟩ := hk.owned r hmem
    exact taskId_ne_of_fresh hk ht' hc.1 (hid.symm.trans heq.symm)
  rw [hempty]
  constructor
  · simp [Change.added, newRun]
  · simp [Change.added, newRun, hb.1]
  · rw [hc.1.lastAttemptRun]
    simp [Change.added, newRun, hc.1.taskId]
  · rw [hb.1]
    exact hb.2

theorem counted_apply (h : k.Counted) (hk : k.Consistent) (hc : c.Allowed k) (hb : c.Budgeted k) :
  (c.apply k).Counted
  := by
  intro t' ht'
  rw [Change.runsOf_apply hk hc (spares_of_mem ht')]
  rcases Change.mem_tasks_apply ht' with ⟨t, ht, rfl⟩ | ⟨now, rfl⟩
  · rw [(TaskRow.eq_of_origin (Change.origin_task k c t)).1]
    exact keepsCount_of_mem h hk hc hb ht
  · exact counts_spawned hk hc hb

end

/-! ### Every queue -/

/-- The changes of a move are within the budgets of the tasks. -/
theorem Move.Shows.budgeted {m : Move} {k : Lifecycle} {c : Change} (h : m.Shows k c) :
  c.Budgeted k
  := by
  have hnumbered := h.numbered
  rcases h with ⟨-, -, hchecked⟩ | hquiet
  · cases c with
    | spawn => exact ⟨hchecked.1, hchecked.2.2⟩
    | failRetried => exact hchecked.1
    | retry => exact hchecked
    | _ => exact hnumbered
  · cases c with
    | spawn | failRetried | retry => exact hquiet.elim
    | _ => exact hnumbered

theorem counted_move {s : QueueState} {m : Move} (hallowed : m.Allowed s) (hs : s.life.Consistent)
    (h : s.life.Counted) :
  (m.apply s).life.Counted
  := by
  apply preserved_move (J := Lifecycle.Counted) hs hallowed _ h
  exact fun k c hshows hc hk hcounted => counted_apply hcounted hk hc hshows.budgeted

theorem counted_of_reachable {pg : Postgres} {s : QueueState} (h : Reachable pg s) :
  s.life.Counted
  := by
  apply of_reachable (I := fun s => s.life.Counted) _ _ h
  · exact fun storage t ht => absurd ht List.not_mem_nil
  · exact fun s m hallowed hs hcounted => counted_move hallowed hs hcounted

/-- In every queue, the runs of a task are its attempts one to `attempts` in order, the last is
the one the task names and the only one that may still run, and there are no more of them than
the task allows. -/
theorem attempts_counted {pg : Postgres} {s : QueueState} (h : Reachable pg s) {t : TaskRow}
    (ht : t ∈ s.tasks.rows) :
  t.Counts (s.life.runsOf t.taskId)
    ∧ ∀ r ∈ s.life.runsOf t.taskId, r.Active → r.attempt = t.attempts
  := by
  have hcounted := counted_of_reachable h
  use hcounted t ht
  exact fun r hr ha => (last_of_active hcounted (consistent_of_reachable h) ht hr ha).2

/-- The order that failed once and waits for its second attempt. -/
def orderRetried : QueueState :=
  failRetried orderClaimed 1 ((RunRow.claim 0 "worker" (some (seconds 60))).apply
    (newRun ⟨1⟩ ⟨0⟩ 1 .pending 0 0)) .null 1

theorem orderRetried_counted :
  ∃ t ∈ orderRetried.tasks.rows, t.attempts = 2
  := by
  have hreachable : Reachable plainPostgres orderRetried := by
    have hrun : (machine plainPostgres).run orderClaimed [.fail 1 ⟨1⟩ .null (some 1)]
        = some orderRetried := rfl
    exact reachable_orderClaimed.run hrun
  refine ⟨_, List.mem_singleton_self _, ?_⟩
  exact (attempts_counted hreachable (List.mem_singleton_self _)).1.attempts

end DjangoAbsurd.Engine
