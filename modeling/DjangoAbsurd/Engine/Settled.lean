import DjangoAbsurd.Engine.Integrity
import DjangoAbsurd.Engine.Leases

/-!
# What a task that is over keeps

A completed, failed or cancelled task has no active run, and nobody waits for it. So no call but
a cleanup that takes it, or a retry of the task that failed, touches its row or its runs
(`settled_run`).
-/

namespace DjangoAbsurd.Engine

/-- The change attempts the failed task again. -/
def Change.Reopens (id : Uuid) : Change → Prop
  | .retry _ t _ => t.taskId = id
  | _ => False

/-- The call attempts the failed task again, under its id. -/
def Label.Reopens (id : Uuid) : Label → Prop
  | .retry _ taskId spawnNew _ => taskId = id ∧ spawnNew = false
  | _ => False

section

variable {pg : Postgres} {s s' : QueueState} {l : Label} {ls : List Label} {t : TaskRow}
  {r : RunRow}

/-! ### Runs that have ended -/

/-- A run of another id is not edited. -/
theorem mem_updateRun_of_runId_ne {id : Uuid} (hr : r ∈ s.runs.rows) (hne : r.runId ≠ id)
    (e : RunEdit) :
  r ∈ (s.updateRun id e).runs.rows
  := Keyed.Table.mem_update.mpr ⟨r, hr, if_neg (fun heq => hne (of_decide_eq_true heq))⟩

/-- Extending the claim of a run that has ended changes nothing. -/
theorem extendClaim_of_ended (h : ¬ r.Active) (claimUntil : Time) :
  (RunRow.extendClaim claimUntil).apply r = r
  := by
  apply if_neg
  rintro ⟨hstate, -⟩
  exact h (active_of_running hstate)

/-- A change of the tasks and the runs leaves the runs that have ended. -/
theorem run_eq_of_ended {k : Lifecycle} {c : Change} (hc : c.Allowed k) (hplain : c.Plain)
    (hr : r ∈ k.runs.rows) (ha : ¬ r.Active) :
  c.run r = r
  := by
  have hother : ∀ r₀ ∈ k.runs.rows, r₀.Active → r.runId ≠ r₀.runId := by
    intro r₀ hr₀ ha₀ hid
    rw [Keyed.Table.eq_of_key_eq hr hr₀ hid] at ha
    exact ha ha₀
  cases c with
  | draw | spawn | retry | delete => rfl
  | park | wakeRun | wakeTask | adjust => exact hplain.elim
  | claim _ _ _ r₀ => exact if_neg (hother r₀ hc.1 (active_of_waiting hc.2))
  | complete _ r₀ _ => exact if_neg (hother r₀ hc.1 (active_of_running hc.2))
  | failForGood _ r₀ _ | failCancelled _ r₀ _ | failRetried _ r₀ _ _ =>
      exact if_neg (hother r₀ hc.1 (active_of_failing hc.2))
  | cancel now id => exact if_neg (fun hactive => ha hactive.2)

/-- A move that spares its task leaves a run that has ended. -/
theorem mem_runs_of_ended {m : Move}
    (hspares : ∀ batch, m = .change (.delete batch) → r.taskId ∉ batch) (hallowed : m.Allowed s)
    (hs : s.life.Consistent) (hwaits : WaitsSound s) (hr : r ∈ s.runs.rows) (hended : ¬ r.Active) :
  r ∈ (m.apply s).runs.rows
  := by
  have hne : ∀ {r₀ : RunRow}, r₀ ∈ s.runs.rows → r₀.state = .running → r.runId ≠ r₀.runId := by
    intro r₀ hr₀ hstate hid
    obtain rfl := Keyed.Table.eq_of_key_eq hr hr₀ hid
    exact hended (active_of_running hstate)
  cases m with
  | change c =>
      have hspared : c.Spares r.taskId := Move.Shows.spares (.inl ⟨rfl, hallowed.2⟩) hspares
      have hmem := run_mem_apply hs hallowed.1 hr hspared
      rwa [run_eq_of_ended hallowed.1 hallowed.2.1 hr hended] at hmem
  | sleep r₀ wakeAt => exact mem_updateRun_of_runId_ne hr (hne hallowed.1 hallowed.2) _
  | extend r₀ claimUntil =>
      apply Keyed.Table.mem_update.mpr
      use r, hr
      split
      · exact extendClaim_of_ended hended claimUntil
      · rfl
  | ask r₀ eventName =>
      apply mem_updateRun_of_runId_ne _ (hne hallowed.1 hallowed.2.1)
      rwa [runs_ensureEvent]
  | giveUp r₀ => exact mem_updateRun_of_runId_ne hr (hne hallowed.1 hallowed.2) _
  | wait now r₀ stepName eventName timeoutAt =>
      have hother := hne hallowed.1 hallowed.2.1
      exact mem_updateRun_of_runId_ne (s := { s with waits := _ }) hr hother _
  | emit now eventName payload =>
      apply (mem_runs_emitted hwaits).mpr
      refine ⟨r, hr, if_neg ?_⟩
      rintro ⟨w, hw, -, -, hrun⟩
      exact hended (active_of_sleeping (hwaits.sleeper_of_runId hw hr hrun.symm).state)
  | record | receive | forget => exact hr

/-! ### Changes of other tasks -/

variable {k : Lifecycle} {c : Change}

/-- Only a failed task is attempted again. -/
theorem failed_of_reopens (hc : c.Allowed k) (ht : t ∈ k.tasks.rows) (h : c.Reopens t.taskId) :
  t.state = .failed
  := by
  cases c with
  | retry now t' maxAttempts =>
      rw [← Keyed.Table.eq_of_key_eq hc.1 ht h]
      exact hc.2
  | _ => exact h.elim

/-- A change adds no run to a terminal task it does not attempt again. -/
theorem taskId_ne_of_added (hk : k.Consistent) (hc : c.Allowed k) (ht : t ∈ k.tasks.rows)
    (hterminal : t.state.terminal = true) (hstays : ¬ c.Reopens t.taskId) (hr : r ∈ c.added k) :
  r.taskId ≠ t.taskId
  := by
  cases c with
  | spawn now t' =>
      obtain rfl := List.mem_singleton.mp hr
      exact taskId_ne_of_fresh hk ht hc.1
  | failRetried now r₀ reason available =>
      obtain rfl := List.mem_singleton.mp hr
      exact (Change.taskId_ne_of_terminal hk ht hterminal hc.1 (active_of_failing hc.2)).symm
  | retry now t' n =>
      obtain rfl := List.mem_singleton.mp hr
      exact hstays
  | _ => exact absurd hr List.not_mem_nil

/-- A change leaves the row of a terminal task it does not attempt again. -/
theorem task_eq_of_over (hk : k.Consistent) (hc : c.Allowed k) (ht : t ∈ k.tasks.rows)
    (hterminal : t.state.terminal = true) (hstays : ¬ c.Reopens t.taskId) :
  c.task k t = t
  := by
  by_cases hby : c.By (fun _ => True)
  · exact Change.task_of_terminal hk hc hby ht hterminal
  · cases c with
    | retry now t' n => exact if_neg (fun hid => hstays hid.symm)
    | _ => exact absurd trivial hby

/-- A move that attempts a task again shows it. -/
theorem Move.Shows.not_reopens {m : Move} {id : Uuid} (h : m.Shows k c)
    (hstays : ∀ c, m = .change c → ¬ c.Reopens id) :
  ¬ c.Reopens id
  := by
  rcases h with ⟨hm, -⟩ | hquiet
  · exact hstays c hm
  · cases c with
    | retry => exact hquiet.elim
    | _ => exact not_false

/-- A move that attempts a task again is of a call that does. -/
theorem reopens_of_takes {id : Uuid} (htakes : l.Takes (.change c)) (h : c.Reopens id) :
  l.Reopens id
  := by
  cases c with
  | retry now t' maxAttempts =>
      obtain ⟨maxAttempts, rfl⟩ := htakes
      exact ⟨h, rfl⟩
  | _ => exact h.elim

/-- The moves of a call that spares the task do. -/
theorem spares_of_takes {id : Uuid} (hspares : Spares id l) {batch : List Uuid}
    (htakes : l.Takes (.change (.delete batch))) :
  id ∉ batch
  := by
  obtain ⟨now, ttlSeconds, limit, rfl⟩ := htakes
  exact hspares

/-! ### Moves around a task that is over -/

/-- The row of the task and its runs are in the later queue what they were. -/
structure Halted (t : TaskRow) (s s' : QueueState) : Prop where
  task : s'.tasks.get? t.taskId = some t
  runs : ∀ r : RunRow, r.taskId = t.taskId → (r ∈ s'.runs.rows ↔ r ∈ s.runs.rows)

theorem Halted.trans {s₁ : QueueState} (h : Halted t s s₁) (h' : Halted t s₁ s') :
  Halted t s s'
  := ⟨h'.task, fun r hid => (h'.runs r hid).trans (h.runs r hid)⟩

/-- A move that spares a terminal task and does not attempt it again leaves its row and its
runs. -/
theorem halted_move {m : Move}
    (hspares : ∀ batch, m = .change (.delete batch) → t.taskId ∉ batch)
    (hstays : ∀ c, m = .change c → ¬ c.Reopens t.taskId) (hallowed : m.Allowed s)
    (hs : s.life.Consistent) (hwaits : WaitsSound s) (ht : s.tasks.get? t.taskId = some t)
    (hterminal : t.state.terminal = true) :
  Halted t s (m.apply s)
  := by
  have hmem := Keyed.Table.mem_of_get? ht
  have hkept : ∀ r ∈ s.runs.rows, r.taskId = t.taskId → r ∈ (m.apply s).runs.rows := by
    intro r hr hid
    apply mem_runs_of_ended (hid ▸ hspares) hallowed hs hwaits hr
    exact fun ha => Change.taskId_ne_of_terminal hs hmem hterminal hr ha hid.symm
  -- the task gets no run
  obtain ⟨htask, hnone⟩ : (m.apply s).tasks.get? t.taskId = some t ∧
      ∀ r' ∈ (m.apply s).runs.rows, r'.taskId = t.taskId →
        ∃ r ∈ s.runs.rows, r.runId = r'.runId ∧ r.taskId = t.taskId := by
    apply preserved_move (J := fun k => k.tasks.get? t.taskId = some t ∧
      ∀ r' ∈ k.runs.rows, r'.taskId = t.taskId →
        ∃ r ∈ s.runs.rows, r.runId = r'.runId ∧ r.taskId = t.taskId) hs hallowed
    · rintro k c hshows hc hk ⟨ht, hruns⟩
      have hmem := Keyed.Table.mem_of_get? ht
      have hstays' : ¬ c.Reopens t.taskId := hshows.not_reopens hstays
      constructor
      · rw [Change.get?_tasks_apply hk hc (hshows.spares hspares) ht,
          task_eq_of_over hk hc hmem hterminal hstays']
      · intro r' hr' hid
        rcases Change.mem_runs_apply hr' with ⟨r, hr, rfl⟩ | hadded
        · rw [Change.runId_run]
          rw [Change.taskId_run] at hid
          exact hruns r hr hid
        · exact absurd hid (taskId_ne_of_added hk hc hmem hterminal hstays' hadded)
    · exact ⟨ht, fun r hr hid => ⟨r, hr, rfl, hid⟩⟩
  refine ⟨htask, fun r hid => ⟨?_, fun hr => hkept r hr hid⟩⟩
  intro hr'
  obtain ⟨r₀, hr₀, hrun, hid₀⟩ := hnone r hr' hid
  rwa [← Keyed.Table.eq_of_key_eq (hkept r₀ hr₀ hid₀) hr' hrun]

/-! ### Calls after a task is over -/

/-- The task is over in a queue whose rows fit together. -/
structure IsOver (t : TaskRow) (s : QueueState) : Prop where
  consistent : s.life.Consistent
  waits : WaitsSound s
  task : s.tasks.get? t.taskId = some t
  terminal : t.state.terminal = true

theorem IsOver.of_reachable (h : Reachable pg s) (ht : s.tasks.get? t.taskId = some t)
    (hterminal : t.state.terminal = true) :
  IsOver t s
  := ⟨consistent_of_reachable h, waitsSound_of_reachable h, ht, hterminal⟩

theorem IsOver.mem (h : IsOver t s) :
  t ∈ s.tasks.rows
  := Keyed.Table.mem_of_get? h.task

/-- The runs of the task have ended. -/
theorem IsOver.not_active (h : IsOver t s) (hr : r ∈ s.runs.rows) (hid : r.taskId = t.taskId) :
  ¬ r.Active
  := fun ha => Change.taskId_ne_of_terminal h.consistent h.mem h.terminal hr ha hid.symm

/-- Nobody waits for the task. -/
theorem IsOver.waits_ne (h : IsOver t s) :
  ∀ w ∈ s.waits.rows, w.taskId ≠ t.taskId
  := by
  intro w hw hid
  obtain ⟨r, hr, has⟩ := h.waits.sleeper w hw
  exact h.not_active hr (has.taskId.trans hid) (active_of_sleeping has.state)

/-- The call does not clean the task up, and does not attempt it again when it failed. -/
structure Label.Settles (l : Label) (t : TaskRow) : Prop where
  spares : Spares t.taskId l
  stays : t.state = .failed → ¬ l.Reopens t.taskId

/-- A move of such a call leaves the task over. -/
theorem IsOver.move (h : IsOver t s) (hl : l.Settles t) {m : Move} (htakes : l.Takes m)
    (hallowed : m.Allowed s) :
  IsOver t (m.apply s) ∧ Halted t s (m.apply s)
  := by
  have hhalted : Halted t s (m.apply s) := by
    apply halted_move _ _ hallowed h.consistent h.waits h.task h.terminal
    · rintro batch rfl
      exact spares_of_takes hl.spares htakes
    · rintro c rfl hreopens
      have hfailed := failed_of_reopens hallowed.1 h.mem hreopens
      exact hl.stays hfailed (reopens_of_takes htakes hreopens)
  exact ⟨⟨consistent_move h.consistent hallowed, waitsSound_move hallowed h.consistent h.waits,
    hhalted.task, h.terminal⟩, hhalted⟩

/-- Such a call leaves the task over. -/
theorem IsOver.call (h : IsOver t s) (hl : l.Settles t) (hs : step pg s l = some s') :
  IsOver t s' ∧ Halted t s s'
  := by
  have hmove : ∀ s₁ (m : Move), l.Takes m → m.Allowed s₁ → s₁.life.Consistent →
      IsOver t s₁ ∧ Halted t s s₁ → IsOver t (m.apply s₁) ∧ Halted t s (m.apply s₁) := by
    rintro s₁ m htakes hallowed - ⟨h₁, hhalted⟩
    obtain ⟨h₂, hhalted'⟩ := h₁.move hl htakes hallowed
    exact ⟨h₂, hhalted.trans hhalted'⟩
  exact (preserved_of_moves hmove h.consistent ⟨h, h.task, fun _ _ => Iff.rfl⟩ hs).1

/-- Such calls leave the task over. -/
theorem IsOver.calls (h : IsOver t s) (hls : ∀ l ∈ ls, l.Settles t)
    (hrun : (machine pg).run s ls = some s') :
  IsOver t s' ∧ Halted t s s'
  := by
  have halong : (machine pg).Along (fun _ l => l.Settles t) s ls :=
    Machine.along_of_forall (fun _ l hl => hls l hl)
  apply Machine.invariant_along (I := fun s₁ => IsOver t s₁ ∧ Halted t s s₁) _ halong
    ⟨h, h.task, fun _ _ => Iff.rfl⟩ hrun
  rintro s₁ l s₂ hl ⟨h₁, hhalted⟩ hs
  obtain ⟨h₂, hhalted'⟩ := h₁.call hl hs
  exact ⟨h₂, hhalted.trans hhalted'⟩

/-- A task that did not fail cannot be retried. -/
theorem IsOver.not_retried (h : IsOver t s) (hstate : t.state ≠ .failed) (now : Time)
    (spawnNew : Bool) {maxAttempts : Option ℤ} (hmax : ∀ n, maxAttempts = some n → 1 ≤ n) :
  retryTask pg s now t.taskId spawnNew maxAttempts = .error .taskNotFailed
  := by
  have hpositive : maxAttempts.any (· < 1) = false := by
    cases maxAttempts with
    | none => rfl
    | some n => simpa using hmax n rfl
  rw [retryTask, if_neg (by simp [hpositive]), h.task]
  dsimp only
  rw [if_neg (by simp [hstate])]

end

end DjangoAbsurd.Engine
