import DjangoAbsurd.Engine.Budget
import DjangoAbsurd.Engine.Cancellation

/-!
# Workers that lost their task

A worker may hold a run for longer than its claim lasts. Another worker's claim then fails that
run and the task goes on with a later attempt. From then on every call of the first worker is
refused (`fenced_forever`), so what it still does cannot mix with what the later attempt does.
-/

namespace DjangoAbsurd.Engine

section

variable {pg : Postgres} {s s' : QueueState} {ls : List Label} {t : TaskRow} {r : RunRow}

/-! ### Attempts that are not the last -/

/-- Every attempt but the last has failed. -/
def Lifecycle.Superseding (k : Lifecycle) : Prop :=
  ∀ t ∈ k.tasks.rows, ∀ r ∈ k.runsOf t.taskId, r.attempt < t.attempts → r.state = .failed

/-- A run with the number of the last attempt is the last run. -/
theorem TaskRow.Counts.last_of_attempt {rs : List RunRow} (h : t.Counts rs) (hr : r ∈ rs)
    (hattempt : r.attempt = t.attempts) :
  rs.getLast? = some r
  := by
  obtain ⟨i, hi, rfl⟩ := List.getElem_of_mem hr
  rw [h.attempt_getElem, h.attempts] at hattempt
  rw [List.getLast?_eq_getElem?, List.getElem?_eq_getElem (by omega)]
  congr
  omega

/-- A change adds one run at most. -/
theorem added_eq {k : Lifecycle} {c : Change} (hr : r ∈ c.added k) :
  c.added k = [r]
  := by
  cases c with
  | spawn | failRetried | retry => exact congrArg (fun n => [n]) (List.mem_singleton.mp hr).symm
  | _ => exact absurd hr List.not_mem_nil

/-- A change that adds a run to a task fails the run that was its last, or retries it after that
run failed. -/
theorem failed_of_added {k : Lifecycle} {c : Change} (hk : k.Consistent) (hc : c.Allowed k)
    (hcounted : k.Counted) (ht : t ∈ k.tasks.rows) (hr : r ∈ k.runsOf t.taskId)
    (hattempt : r.attempt = t.attempts)
    (hadded : (c.added k).filter (fun n => n.taskId = t.taskId) ≠ []) :
  (c.run r).state = .failed
  := by
  have hnodup := Lifecycle.nodup_runsOf k t.taskId
  have hlast := (hcounted t ht).last_of_attempt hr hattempt
  obtain ⟨n, hn⟩ := List.exists_mem_of_ne_nil _ hadded
  obtain ⟨hn, hid⟩ := List.mem_filter.mp hn
  have hid := of_decide_eq_true hid
  cases c with
  | spawn now t₀ =>
      obtain rfl := List.mem_singleton.mp hn
      exact absurd hid (taskId_ne_of_fresh hk ht hc.1)
  | failRetried now r₀ reason available =>
      obtain rfl := List.mem_singleton.mp hn
      have hmem : r₀ ∈ k.runsOf t.taskId := Lifecycle.mem_runsOf.mpr ⟨hc.1, hid⟩
      have ha := active_of_failing hc.2
      have hfailing := (hcounted t ht).eq_last hnodup hmem ((hk.follows t ht).active r₀ hmem ha)
      obtain rfl : r = r₀ := Option.some.inj (hlast.symm.trans hfailing)
      rw [Change.run, if_pos rfl]
      rfl
  | retry now t₀ m =>
      obtain rfl := List.mem_singleton.mp hn
      obtain rfl : t₀ = t := Keyed.Table.eq_of_key_eq hc.1 ht hid
      have hnamed : t₀.lastAttemptRun = some r.runId := by
        rw [(hcounted t₀ ht).last, hlast]
        rfl
      exact ((hk.follows t₀ ht).agrees_of_last hnodup hr hnamed).failed hc.2
  | _ => exact absurd hn List.not_mem_nil

theorem superseding_apply {k : Lifecycle} {c : Change} (hk : k.Consistent) (hc : c.Allowed k)
    (hcounted : k.Counted) (hcounted' : (c.apply k).Counted) (hnumbered : c.Numbered)
    (h : k.Superseding) :
  (c.apply k).Superseding
  := by
  intro t' ht' r' hr' hlt
  have hcounts' := hcounted' t' ht'
  rw [Change.runsOf_apply hk hc (spares_of_mem ht')] at hr' hcounts'
  rcases List.mem_append.mp hr' with hr' | hr'
  · obtain ⟨r, hr, rfl⟩ := List.mem_map.mp hr'
    rw [Change.attempt_run hnumbered] at hlt
    rcases Change.mem_tasks_apply ht' with ⟨t, ht, rfl⟩ | ⟨now, rfl⟩
    · have hid : (c.task k t).taskId = t.taskId := (TaskRow.eq_of_origin (Change.origin_task k c t)).1
      rw [hid] at hr hcounts'
      rcases lt_or_eq_of_le ((hcounted t ht).attempt_le hr) with hearlier | hattempt
      · have hstate := h t ht r hr hearlier
        have hended : ¬ r.Active := not_active_of_ended (.inl hstate)
        rw [(Change.run_of_ended hc (Lifecycle.mem_runsOf.mp hr).1 hended).1, hstate]
      · apply failed_of_added hk hc hcounted ht hr hattempt
        intro hnone
        -- a task that gets no run gets no attempt
        have hattempts' := hcounts'.attempts
        rw [hnone, List.append_nil, List.length_map, ← (hcounted t ht).attempts] at hattempts'
        rw [hattempts', hattempt] at hlt
        exact absurd hlt (lt_irrefl _)
    · obtain ⟨hmem, hid⟩ := Lifecycle.mem_runsOf.mp hr
      exact absurd hid.symm (taskId_ne_of_spawned hk hc hmem)
  · -- a run that was added is the last
    have hadded : (c.added k).filter (fun n => n.taskId = t'.taskId) = [r'] := by
      obtain ⟨hmem, hid⟩ := List.mem_filter.mp hr'
      rw [added_eq hmem, List.filter_singleton, hid]
      rfl
    rw [hadded] at hcounts'
    exact absurd (hcounts'.attempt_last List.getLast?_concat) hlt.ne

theorem superseding_of_reachable (h : Reachable pg s) :
  s.life.Superseding
  := by
  apply And.right
  apply of_reachable (I := fun s => s.life.Counted ∧ s.life.Superseding) _ _ h
  · exact fun storage =>
      ⟨fun t ht => absurd ht List.not_mem_nil, fun t ht => absurd ht List.not_mem_nil⟩
  · rintro s m hallowed hs ⟨hcounted, h⟩
    use counted_move hallowed hs hcounted
    apply And.right
    apply preserved_move (J := fun k => k.Counted ∧ k.Superseding) hs hallowed _ ⟨hcounted, h⟩
    rintro k c hshows hc hk ⟨hcounted, h⟩
    have hcounted' := counted_apply hcounted hk hc hshows.budgeted
    exact ⟨hcounted', superseding_apply hk hc hcounted hcounted' hshows.numbered h⟩

/-! ### Runs that failed -/

/-- A run that has ended stays as it is, whatever is called, until its task is cleaned up. -/
theorem mem_runs_run (h : Reachable pg s) (hr : r ∈ s.runs.rows) (hended : ¬ r.Active)
    (hspares : ∀ l ∈ ls, Spares r.taskId l) (hrun : (machine pg).run s ls = some s') :
  r ∈ s'.runs.rows
  := by
  have hkept : (WaitsSound s' ∧ r ∈ s'.runs.rows) ∧ s'.life.Consistent := by
    apply preserved_along (I := fun s => WaitsSound s ∧ r ∈ s.runs.rows) _
      (consistent_of_reachable h) ⟨waitsSound_of_reachable h, hr⟩ hspares hrun
    rintro s l m hl htakes hallowed hs ⟨hwaits, hr⟩
    use waitsSound_move hallowed hs hwaits
    apply mem_runs_of_ended _ hallowed hs hwaits hr hended
    rintro batch rfl
    exact spares_of_takes hl htakes
  exact hkept.1.2

/-- Nothing can be done with the run, which has failed. -/
structure Fenced (pg : Postgres) (s : QueueState) (r : RunRow) : Prop where
  complete : ∀ now payload, completeRun s now r.runId payload = .error .runAlreadyFailed
  fail : ∀ now reason retryAt, failRun pg s now r.runId reason retryAt = .error .runAlreadyFailed
  schedule : ∀ wakeAt, scheduleRun s r.runId wakeAt = .error .runNotRunning
  extend : ∀ now extendBy, 0 < extendBy →
    extendClaim s now r.runId extendBy = .error .cancelled
      ∨ extendClaim s now r.runId extendBy = .error .runAlreadyFailed
  record : ∀ now id stepName state extendClaimBy, blank stepName = false →
    setTaskCheckpointState s now id stepName state r.runId extendClaimBy = .error .cancelled
      ∨ setTaskCheckpointState s now id stepName state r.runId extendClaimBy
        = .error .runAlreadyFailed
  await : ∀ now id stepName eventName timeout s' suspend payload,
    awaitEvent s now id r.runId stepName eventName timeout = .ok (s', suspend, payload) →
    s' = s ∧ suspend = false
  claim : ∀ now worker timeout qty s' claimed,
    claimTask pg s now worker timeout qty = .ok (s', claimed) → r.runId ∉ claimed

theorem fenced_of_failed (h : Reachable pg s) (hr : r ∈ s.runs.rows) (hfailed : r.state = .failed) :
  Fenced pg s r
  := by
  have hrow : s.runs.get? r.runId = some r := Keyed.Table.get?_of_mem hr
  have hended : ¬ r.Active := not_active_of_ended (.inl hfailed)
  have hrunning : r.state ≠ .running := fun hstate => hended (active_of_running hstate)
  obtain ⟨t, ht, hid⟩ := (consistent_of_reachable h).owned r hr
  have htask : s.tasks.get? r.taskId = some t := hid ▸ Keyed.Table.get?_of_mem ht
  constructor
  case complete =>
    intro now payload
    rw [completeRun, hrow]
    simp [hfailed]
  case fail =>
    intro now reason retryAt
    rw [failRun, hrow]
    simp [hfailed]
  case schedule =>
    intro wakeAt
    rw [scheduleRun, hrow]
    exact if_neg hrunning
  case extend =>
    intro now extendBy hpos
    rw [extendClaim, if_neg (not_le.mpr hpos), hrow]
    dsimp only
    rw [htask]
    by_cases hcancelled : t.state = .cancelled
    · exact .inl (if_pos hcancelled)
    · right
      dsimp only
      rw [if_neg hcancelled, if_pos hfailed]
  case record =>
    intro now id stepName state extendClaimBy hname
    rw [setTaskCheckpointState.eq_def, if_neg (by simp [hname]), hrow]
    dsimp only
    rw [htask]
    by_cases hcancelled : t.state = .cancelled
    · exact .inl (if_pos hcancelled)
    · right
      dsimp only
      rw [if_neg hcancelled, if_pos hfailed]
  case await =>
    intro now id stepName eventName timeout s' suspend payload hawait
    rw [awaitEvent] at hawait
    split at hawait
    · cases hawait
    · split at hawait
      · cases hawait
      · split at hawait
        · cases hawait
          exact ⟨rfl, rfl⟩
        · rw [hrow] at hawait
          dsimp only at hawait
          rw [htask] at hawait
          dsimp only at hawait
          split at hawait
          all_goals cases hawait
  case claim =>
    intro now worker timeout qty s' claimed hclaim hclaimed
    have hs := step_claim hclaim
    have hrun : (machine pg).run s [.claim now worker timeout qty] = some s' :=
      Machine.run_cons.mpr ⟨s', hs, rfl⟩
    have hspares : ∀ l ∈ [Label.claim now worker timeout qty], Spares r.taskId l := by
      intro l hl
      rw [List.mem_singleton.mp hl]
      trivial
    have hr' := mem_runs_run h hr hended hspares hrun
    exact hrunning (running_of_claimed hclaim hr' hclaimed).1

/-- A worker whose run was followed by a later attempt of the task changes nothing any more. The
run stays as it is, whatever is called, until the task is cleaned up, it is not claimed again, and
every call with it is refused, but for an await of a step that was recorded, which reads it. -/
theorem fenced_forever (h : Reachable pg s) (hr : r ∈ s.runs.rows)
    (ht : s.tasks.get? r.taskId = some t) (hlater : r.attempt < t.attempts)
    (hspares : ∀ l ∈ ls, Spares r.taskId l) (hrun : (machine pg).run s ls = some s') :
  r ∈ s'.runs.rows ∧ Fenced pg s' r
  := by
  have hid : t.taskId = r.taskId := Keyed.Table.key_of_get? ht
  have hfailed : r.state = .failed := by
    apply superseding_of_reachable h t (Keyed.Table.mem_of_get? ht) r _ hlater
    exact Lifecycle.mem_runsOf.mpr ⟨hr, hid.symm⟩
  have hr' := mem_runs_run h hr (not_active_of_ended (.inl hfailed)) hspares hrun
  exact ⟨hr', fenced_of_failed (h.run hrun) hr' hfailed⟩

/-- The first attempt of the order, which failed. -/
def failedRun : RunRow :=
  (RunRow.fail 1 .null).apply ((RunRow.claim 0 "worker" (some (seconds 60))).apply
    (newRun ⟨1⟩ ⟨0⟩ 1 .pending 0 0))

theorem orderRetried_fenced :
  ∃ s, (machine plainPostgres).run orderRetried [.emit 2 "paid" none] = some s
    ∧ completeRun s 3 ⟨1⟩ none = .error .runAlreadyFailed
  := by
  refine ⟨_, rfl, ?_⟩
  have hreachable : Reachable plainPostgres orderRetried := by
    have hfail : (machine plainPostgres).run orderClaimed [.fail 1 ⟨1⟩ .null (some 1)]
        = some orderRetried := rfl
    exact reachable_orderClaimed.run hfail
  have hspares : ∀ l ∈ [Label.emit 2 "paid" none], Spares failedRun.taskId l := by
    intro l hl
    rw [List.mem_singleton.mp hl]
    trivial
  have hfenced := fenced_forever (r := failedRun) hreachable List.mem_cons_self rfl (by decide)
    hspares rfl
  exact hfenced.2.complete 3 none

end

end DjangoAbsurd.Engine
