import DjangoAbsurd.Engine.Invariant
import DjangoAbsurd.Library.Fallible

/-!
# Every SQL function keeps what it should

One lemma for each SQL function: from a sound queue it leads to a sound queue that has
kept the rows of the completed and cancelled tasks. `evolves_step` collects them; only
a cleanup of tasks is left out, which is sound but deletes rows.
-/

namespace DjangoAbsurd.Engine

variable {pg : Postgres} {done : Uuid → Option Json → Prop} {s s' : QueueState}

theorem active_of_running {r : RunRow} (h : r.state = .running) :
  r.Active
  := by
  rw [RunRow.Active, h]
  rfl

theorem active_of_sleeping {r : RunRow} (h : r.state = .sleeping) :
  r.Active
  := by
  rw [RunRow.Active, h]
  rfl

/-- What holds of one step of a fold holds of the fold. -/
theorem evolves_foldlM {α ε : Type} {f : QueueState → α → Except ε QueueState}
    (hf : ∀ s a s', Sound s → f s a = .ok s' → Evolves done s s') :
    ∀ {as : List α} {s s' : QueueState}, Sound s → as.foldlM f s = .ok s' → Evolves done s s'
  | [], s, s', h, hs => by
      obtain rfl : s = s' := Except.ok.inj hs
      apply Evolves.refl h
  | a :: as, s, s', h, hs => by
      rw [List.foldlM_cons] at hs
      cases hfa : f s a with
      | error e =>
          rw [hfa] at hs
          cases hs
      | ok s₁ =>
          rw [hfa] at hs
          have h₁ := hf s a s₁ h hfa
          apply h₁.trans (evolves_foldlM hf h₁.sound hs)

/-! ### Spawning -/

theorem evolves_insertSpawned (h : Sound s) (now : Time) {t : TaskRow}
    (hid : t.taskId = ⟨s.drawn⟩) (hlive : t.state.terminal = false) :
  Evolves done s (insertSpawned s now t)
  := by
  unfold insertSpawned
  extract_lets s₁
  have hfresh : ∀ t' ∈ s.tasks.rows, t'.taskId ≠ t.taskId := by
    intro t' ht' heq
    have := h.drawn t' ht'
    rw [heq, hid] at this
    exact absurd this (Nat.lt_irrefl _)
  have h₁ : Sound s₁ := h.congr rfl rfl (by simp [s₁])
  have h₂ : Sound (s₁.insertTask t) := by
    apply h₁.insertTask _ hlive
    rw [hid]
    simp [s₁]
  have h₃ : Evolves done s (s₁.insertTask t) := by
    constructor
    · exact h₂
    · intro id' t' ht' hfrozen
      apply Eq.trans (Keyed.Table.get?_put_of_ne _ _) ht'
      rw [← Keyed.Table.key_of_get? ht']
      apply hfresh t' (Keyed.Table.mem_of_get? ht')
    · intro id' t' hid' ht'
      have hne : id' ≠ t.taskId := by
        rintro rfl
        rw [hid] at hid'
        exact absurd hid' (Nat.lt_irrefl _)
      rw [QueueState.insertTask, Keyed.Table.get?_put_of_ne _ hne] at ht'
      exact ⟨t', ht', rfl, fun _ => .inl rfl⟩
    · exact Nat.le_add_right _ _
  refine h₃.insertRun ?_ ?_
  · intro r hr ha
    obtain ⟨t', ht', hid', -⟩ := h.live r hr ha
    rw [← hid']
    apply hfresh t' ht'
  · use t, Keyed.Table.mem_put.mpr (.inl rfl)
    apply And.intro rfl hlive

theorem evolves_spawnTask (h : Sound s) {now : Time} {name : String} {params options : Json}
    {spawned : Spawned} (hs : spawnTask pg s now name params options = .ok (s', spawned)) :
  Evolves done s s'
  := by
  simp only [spawnTask, bind, Except.bind, pure, Except.pure] at hs
  split at hs
  · cases hs
  · split at hs
    · cases hs
    · split at hs
      · cases hs
      · split at hs
        · cases hs
          exact (Evolves.refl h).congr rfl rfl (Nat.le_add_right _ _)
        · cases hs
          apply evolves_insertSpawned h now rfl rfl

/-! ### Cancelling, completing and scheduling -/

/-- Once a run is not active any more, its task has no active run left. -/
theorem ne_of_updateRun (h : Sound s) {r : RunRow} (hr : r ∈ s.runs.rows) (ha : r.Active)
    {e : RunEdit} (he : ∀ r, ¬ (e.apply r).Active) :
  ∀ r' ∈ (s.updateRun r.runId e).runs.rows, r'.Active → r'.taskId ≠ r.taskId
  := by
  intro r' hr' ha' hid
  obtain ⟨r₀, hr₀, rfl⟩ := Keyed.Table.mem_update.mp hr'
  split at ha'
  · apply he r₀ ha'
  · rename_i hne
    rw [if_neg hne] at hid
    apply hne
    rw [h.single r₀ hr₀ r hr ha' ha hid]
    simp

/-- The row of a run is the only one with its id. -/
theorem eq_of_runId_eq {r r' : RunRow} (hr : r ∈ s.runs.rows) (hr' : r' ∈ s.runs.rows)
    (hid : r'.runId = r.runId) :
  r' = r
  := Keyed.Table.eq_of_key_eq hr' hr hid

theorem evolves_markCancelled (h : Sound s) (now : Time) {id : Uuid}
    (hid : ∀ t, s.tasks.get? id = some t → ¬ t.Frozen) :
  Evolves done s (markCancelled s now id)
  := by
  have hruns : Sound (s.updateRuns (fun r => r.taskId = id ∧ r.Active) RunRow.cancel) := by
    apply h.updateRuns
    intro r _ _ ha
    cases ha
  have hnone : ∀ r ∈ (s.updateRuns (fun r => r.taskId = id ∧ r.Active) RunRow.cancel).runs.rows,
      r.Active → r.taskId ≠ id := by
    intro r hr ha
    obtain ⟨r₀, hr₀, rfl⟩ := Keyed.Table.mem_update.mp hr
    split at ha
    · cases ha
    · rename_i hp
      rw [if_neg hp]
      intro hid
      apply hp
      simp [hid, ha]
  have htask := hruns.updateTask (.inr hnone) (e := TaskRow.cancel now)
  have hcancel : ∀ t : TaskRow, t.Continues (done id) ((TaskRow.cancel now).apply t) :=
    fun t => continues_of_ne rfl (fun hstate => by cases hstate)
  have hevolves := Evolves.updateTask (s := s) htask rfl (le_refl _) hid hcancel
  exact hevolves.congr rfl rfl (le_refl _)

theorem evolves_cancelTask (h : Sound s) {now : Time} {id : Uuid}
    (hs : cancelTask s now id = .ok s') :
  Evolves done s s'
  := by
  unfold cancelTask at hs
  split at hs
  · cases hs
  · rename_i t ht
    split at hs
    · obtain rfl := Except.ok.inj hs
      apply Evolves.refl h
    · rename_i hlive
      obtain rfl := Except.ok.inj hs
      apply evolves_markCancelled h
      intro t' ht' hfrozen
      rw [ht] at ht'
      obtain rfl := Option.some.inj ht'
      apply hlive
      apply terminal_of_frozen hfrozen

theorem evolves_markCompleted (h : Sound s) (now : Time) {r : RunRow} (hr : r ∈ s.runs.rows)
    (ha : r.Active) {payload : Option Json} (hdone : done r.taskId payload) :
  Evolves done s (markCompleted s now r payload)
  := by
  have hrun : Sound (s.updateRun r.runId (RunRow.complete now payload)) := by
    apply h.updateRun
    intro r _ _ ha
    cases ha
  have hnone := ne_of_updateRun h hr ha (e := RunRow.complete now payload) (by
    intro r ha
    cases ha)
  have htask := hrun.updateTask (.inr hnone) (e := TaskRow.complete r.runId payload)
  have hevolves := Evolves.updateTask (s := s) htask rfl (le_refl _)
    (fun t ht => not_frozen_of_active h hr ha ht) (fun _ => ⟨rfl, fun _ => .inr hdone⟩)
  exact hevolves.congr rfl rfl (le_refl _)

theorem evolves_completeRun (h : Sound s) {now : Time} {id : Uuid} {payload : Option Json}
    (hdone : ∀ r, s.runs.get? id = some r → done r.taskId payload)
    (hs : completeRun s now id payload = .ok s') :
  Evolves done s s'
  := by
  unfold completeRun at hs
  split at hs
  · cases hs
  · rename_i r hr
    split at hs
    case h_1 hstate =>
      obtain rfl := Except.ok.inj hs
      apply evolves_markCompleted h now (Keyed.Table.mem_of_get? hr) (active_of_running hstate)
        (hdone r hr)
    all_goals cases hs

/-- The run with an id is active and belongs to a task. -/
def ActiveRun (s : QueueState) (runId taskId : Uuid) : Prop :=
  ∃ r ∈ s.runs.rows, r.runId = runId ∧ r.taskId = taskId ∧ r.Active

/-- An active run stays active when runs change to active runs. -/
theorem ActiveRun.updateRun {runId taskId id : Uuid} (h : ActiveRun s runId taskId) {e : RunEdit}
    (he : ∀ r, r.Active → (e.apply r).Active) :
  ActiveRun (s.updateRun id e) runId taskId
  := by
  obtain ⟨r, hr, hrun, htask, ha⟩ := h
  refine ⟨_, Keyed.Table.mem_update.mpr ⟨r, hr, rfl⟩, ?_⟩
  split
  · exact ⟨(e.key_apply r).trans hrun, (e.taskId_apply r).trans htask, he r ha⟩
  · exact ⟨hrun, htask, ha⟩

theorem activeRun_of_get? {id : Uuid} {r : RunRow} (hr : s.runs.get? id = some r)
    (ha : r.Active) :
  ActiveRun s id r.taskId
  := ⟨r, Keyed.Table.mem_of_get? hr, Keyed.Table.key_of_get? hr, rfl, ha⟩

/-- An active run changes and stays active, and its task keeps its name and is left in a
state that is not terminal. -/
theorem evolves_updateActive (h : Sound s) {runId taskId : Uuid}
    (hactive : ActiveRun s runId taskId) (e : RunEdit) {e' : Keyed.Edit TaskRow.taskId}
    (hname : ∀ t, (e'.apply t).taskName = t.taskName)
    (hlive : ∀ t, (e'.apply t).state.terminal = false) :
  Evolves done s ((s.updateRun runId e).updateTask taskId e')
  := by
  obtain ⟨r, hr, rfl, rfl, ha⟩ := hactive
  have hrun : Sound (s.updateRun r.runId e) := by
    apply h.updateRun
    intro r' hr' hid _
    rwa [eq_of_runId_eq hr hr' hid]
  apply Evolves.updateTask (s := s) (hrun.updateTask (.inl hlive)) rfl (le_refl _)
  · intro t ht
    apply not_frozen_of_active h hr ha ht
  · intro t
    apply continues_of_ne (hname t) (ne_completed_of_live (hlive t))

theorem evolves_scheduleRun (h : Sound s) {id : Uuid} {wakeAt : WithTop Time}
    (hs : scheduleRun s id wakeAt = .ok s') :
  Evolves done s s'
  := by
  unfold scheduleRun at hs
  split at hs
  · cases hs
  · rename_i r hr
    split at hs
    · rename_i hstate
      obtain rfl := Except.ok.inj hs
      have hactive := activeRun_of_get? hr (active_of_running hstate)
      rw [← Keyed.Table.key_of_get? hr] at hactive
      exact evolves_updateActive h hactive _ (fun _ => rfl) (fun _ => rfl)
    · cases hs

/-! ### Failing and retrying -/

theorem evolves_markFailed (h : Sound s) (now : Time) {r : RunRow} (hr : r ∈ s.runs.rows)
    (ha : r.Active) (reason : Json) {task : Keyed.Edit TaskRow.taskId}
    (htask : ∀ t : TaskRow, t.Continues (done r.taskId) (task.apply t)) :
  Evolves done s (markFailed s now r reason task)
  := by
  have hrun : Sound (s.updateRun r.runId (RunRow.fail now reason)) := by
    apply h.updateRun
    intro r _ _ ha
    cases ha
  have hnone := ne_of_updateRun h hr ha (e := RunRow.fail now reason) (by
    intro r ha
    cases ha)
  have hupdate := hrun.updateTask (.inr hnone) (e := task)
  have hevolves := Evolves.updateTask (s := s) hupdate rfl (le_refl _)
    (fun t ht => not_frozen_of_active h hr ha ht) htask
  exact hevolves.congr rfl rfl (le_refl _)

theorem continues_settle {done : Option Json → Prop} (t : TaskRow) {state : TaskState}
    (hstate : state ≠ .completed) (attempts : ℤ) (lastAttemptRun : Uuid)
    (cancelledAt : Option Time) :
  t.Continues done ((TaskRow.settle state attempts lastAttemptRun cancelledAt).apply t)
  := continues_of_ne rfl hstate

theorem evolves_failRetried (h : Sound s) (now : Time) {r : RunRow} (hr : r ∈ s.runs.rows)
    (ha : r.Active) (reason : Json) (available : Time) :
  Evolves done s (failRetried s now r reason available)
  := by
  unfold failRetried
  extract_lets state s₁
  have hstate : state.terminal = false := by
    by_cases hlt : now < available <;> simp [state, hlt, TaskState.terminal]
  have hopen : state ≠ .completed := by
    intro hcompleted
    rw [hcompleted] at hstate
    cases hstate
  have h₁ : Evolves done s s₁ :=
    evolves_markFailed h now hr ha reason (fun t => continues_settle t hopen _ _ _)
  have hnone := ne_of_updateRun h hr ha (e := RunRow.fail now reason) (by
    intro r ha
    cases ha)
  have h₂ : Evolves done s { s₁ with drawn := s.drawn + 1 } :=
    h₁.congr rfl rfl (Nat.le_succ _)
  refine h₂.insertRun hnone ?_
  obtain ⟨t, ht, hid, -⟩ := h.live r hr ha
  refine ⟨_, Keyed.Table.mem_update.mpr ⟨t, ht, rfl⟩, ?_⟩
  rw [if_pos (by simpa using hid)]
  exact ⟨hid, hstate⟩

theorem evolves_failRun (h : Sound s) {now : Time} {id : Uuid} {reason : Json}
    {retryAt : Option Time} (hs : failRun pg s now id reason retryAt = .ok s') :
  Evolves done s s'
  := by
  have hfail {r : RunRow} (hr : r ∈ s.runs.rows) (ha : r.Active)
      (hs : failActive pg s now r reason retryAt = .ok s') : Evolves done s s' := by
    simp only [failActive, bind, Except.bind, pure, Except.pure] at hs
    split at hs
    · obtain rfl := Except.ok.inj hs
      apply evolves_markFailed h now hr ha reason (fun t => continues_settle t (by decide) _ _ _)
    · split at hs
      · cases hs
      · split at hs
        · obtain rfl := Except.ok.inj hs
          apply evolves_markFailed h now hr ha reason (fun t => continues_settle t (by decide) _ _ _)
        · split at hs
          · obtain rfl := Except.ok.inj hs
            apply evolves_markFailed h now hr ha reason
              (fun t => continues_settle t (by decide) _ _ _)
          · obtain rfl := Except.ok.inj hs
            apply evolves_failRetried h now hr ha
  unfold failRun at hs
  split at hs
  · cases hs
  · rename_i r hr
    split at hs
    · cases hs
    · cases hs
    · rename_i hstate
      apply hfail (Keyed.Table.mem_of_get? hr) (active_of_running hstate) hs
    · rename_i hstate
      apply hfail (Keyed.Table.mem_of_get? hr) (active_of_sleeping hstate) hs
    · cases hs

theorem evolves_markRetried (h : Sound s) (now : Time) {t : TaskRow}
    (ht : s.tasks.get? t.taskId = some t) (hfailed : t.state = .failed) (maxAttempts : ℤ) :
  Evolves done s (markRetried s now t maxAttempts)
  := by
  unfold markRetried
  extract_lets s₁
  have hlive : ∀ t', ((TaskRow.retry (t.attempts + 1) maxAttempts ⟨s.drawn⟩).apply t').state.terminal
      = false := fun _ => rfl
  have h₁ : Evolves done s s₁ := by
    apply Evolves.updateTask (h.updateTask (.inl hlive)) rfl (le_refl _)
    · intro t' ht' hfrozen
      rw [ht] at ht'
      obtain rfl := Option.some.inj ht'
      rcases hfrozen with hstate | hstate <;> rw [hfailed] at hstate <;> cases hstate
    · intro t'
      exact continues_of_ne rfl (ne_completed_of_live (hlive t'))
  have h₂ : Evolves done s { s₁ with drawn := s.drawn + 1 } :=
    h₁.congr rfl rfl (Nat.le_succ _)
  refine h₂.insertRun ?_ ?_
  · intro r hr ha
    apply h.ne_of_terminal ht _ hr ha
    rw [hfailed]
    rfl
  · refine ⟨_, Keyed.Table.mem_update.mpr ⟨t, Keyed.Table.mem_of_get? ht, rfl⟩, ?_⟩
    simp [newRun, TaskRow.retry, TaskState.terminal]

theorem evolves_retryTask (h : Sound s) {now : Time} {id : Uuid} {spawnNew : Bool}
    {maxAttempts : Option ℤ} {spawned : Spawned}
    (hs : retryTask pg s now id spawnNew maxAttempts = .ok (s', spawned)) :
  Evolves done s s'
  := by
  unfold retryTask at hs
  split at hs
  · cases hs
  · split at hs
    · cases hs
    · rename_i t ht
      split at hs
      · rename_i hfailed
        split at hs
        · apply evolves_spawnTask h hs
        · dsimp only at hs
          split at hs
          · cases hs
          · obtain ⟨rfl, rfl⟩ := Prod.mk.inj (Except.ok.inj hs)
            obtain rfl := Keyed.Table.key_of_get? ht
            apply evolves_markRetried h now ht hfailed
      · cases hs

/-! ### Claiming -/

theorem evolves_markClaimed (h : Sound s) (now : Time) (worker : String)
    (claimUntil : Option Time) {r : RunRow} (hr : ActiveRun s r.runId r.taskId) :
  Evolves done s (markClaimed now worker claimUntil s r)
  := by
  have hupdate : Evolves done s ((s.updateRun r.runId (RunRow.claim now worker claimUntil)).updateTask
      r.taskId (TaskRow.claim now r)) := evolves_updateActive h hr _ (fun _ => rfl) (fun _ => rfl)
  exact hupdate.congr rfl rfl (le_refl _)

theorem evolves_claimRuns (now : Time) (worker : String) (claimUntil : Option Time) :
    ∀ {claimed : List RunRow} {s : QueueState}, Sound s →
      (∀ r ∈ claimed, ActiveRun s r.runId r.taskId) →
      Evolves done s (claimed.foldl (markClaimed now worker claimUntil) s)
  | [], _, h, _ => Evolves.refl h
  | r :: claimed, s, h, hactive => by
      have h₁ : Evolves done s (markClaimed now worker claimUntil s r) :=
        evolves_markClaimed h now worker claimUntil (hactive r List.mem_cons_self)
      apply h₁.trans
      apply evolves_claimRuns now worker claimUntil h₁.sound
      intro r' hr'
      have := hactive r' (List.mem_cons_of_mem r hr')
      exact this.updateRun (e := RunRow.claim now worker claimUntil) (fun _ _ => rfl)

theorem activeRun_of_mem_claimCandidates {now : Time} {limit : ℕ} {r : RunRow}
    (hr : r ∈ claimCandidates pg s now limit) :
  ActiveRun s r.runId r.taskId
  := by
  have hmem := List.mem_mergeSort.mp (List.mem_of_mem_take hr)
  obtain ⟨hrows, hcond⟩ := List.mem_filter.mp hmem
  obtain ⟨hstate, -⟩ := of_decide_eq_true hcond
  refine ⟨r, hrows, rfl, rfl, ?_⟩
  rcases hstate with hstate | hstate <;> rw [RunRow.Active, hstate] <;> rfl

theorem evolves_claimTask (h : Sound s) {now : Time} {worker : String} {timeout qty : ℤ}
    {claimed : List Uuid} (hs : claimTask pg s now worker timeout qty = .ok (s', claimed)) :
  Evolves done s s'
  := by
  simp only [claimTask, bind, Except.bind, pure, Except.pure] at hs
  split at hs
  · cases hs
  · split at hs
    · cases hs
    · rename_i s₁ hcancel
      split at hs
      · cases hs
      · rename_i s₂ hexpire
        cases hs
        have h₁ : Evolves done s s₁ :=
          evolves_foldlM (fun s id s' h hs => evolves_cancelTask h hs) h hcancel
        have h₂ : Evolves done s₁ s₂ :=
          evolves_foldlM (fun s r s' h hs => evolves_failRun h hs) h₁.sound hexpire
        apply (h₁.trans h₂).trans
        apply evolves_claimRuns _ _ _ h₂.sound
        intro r hr
        apply activeRun_of_mem_claimCandidates hr

/-! ### Checkpoints and leases -/

theorem evolves_extend (h : Sound s) (id : Uuid) (claimUntil : Time) :
  Evolves done s (s.updateRun id (RunRow.extendClaim claimUntil))
  := by
  have hrun : Sound (s.updateRun id (RunRow.extendClaim claimUntil)) := by
    apply h.updateRun
    intro r _ _ ha
    simp only [RunRow.extendClaim] at ha
    split at ha
    · exact ha
    · exact ha
  exact Evolves.of_tasks_eq hrun rfl (le_refl _)

theorem evolves_setTaskCheckpointState (h : Sound s) {now : Time} {taskId : Uuid}
    {stepName : String} {state : Option Json} {ownerRun : Uuid} {extendClaimBy : Option ℤ}
    (hs : setTaskCheckpointState s now taskId stepName state ownerRun extendClaimBy = .ok s') :
  Evolves done s s'
  := by
  unfold setTaskCheckpointState at hs
  split at hs
  · cases hs
  · split at hs
    · cases hs
    · split at hs
      · cases hs
      · split at hs
        · cases hs
        · split at hs
          · cases hs
          · extract_lets s₁ attempt? at hs
            have h₁ : Evolves done s s₁ := by
              simp only [s₁]
              split
              · split
                · apply evolves_extend h
                · apply Evolves.refl h
              · apply Evolves.refl h
            split at hs
            · obtain rfl := Except.ok.inj hs
              exact h₁.congr rfl rfl (le_refl _)
            · obtain rfl := Except.ok.inj hs
              exact h₁

theorem evolves_extendClaim (h : Sound s) {now : Time} {id : Uuid} {extendBy : ℤ}
    (hs : extendClaim s now id extendBy = .ok s') :
  Evolves done s s'
  := by
  unfold extendClaim at hs
  repeat' split at hs
  all_goals first | cases hs; done | skip
  obtain rfl := Except.ok.inj hs
  apply evolves_extend h

/-! ### Events -/

theorem sound_ensureEvent (h : Sound s) (eventName : String) :
  Sound (ensureEvent s eventName)
  := by
  unfold ensureEvent
  split
  · exact h
  · exact h.congr rfl rfl (le_refl _)

theorem tasks_ensureEvent (s : QueueState) (eventName : String) :
  (ensureEvent s eventName).tasks = s.tasks
  := by
  unfold ensureEvent
  split <;> rfl

theorem runs_ensureEvent (s : QueueState) (eventName : String) :
  (ensureEvent s eventName).runs = s.runs
  := by
  unfold ensureEvent
  split <;> rfl

theorem drawn_ensureEvent (s : QueueState) (eventName : String) :
  s.drawn ≤ (ensureEvent s eventName).drawn
  := by
  unfold ensureEvent
  split <;> apply le_refl

theorem evolves_markWaiting (h : Sound s) (now : Time) {taskId runId : Uuid}
    (hactive : ActiveRun s runId taskId) (stepName eventName : String)
    (timeoutAt : Option Time) :
  Evolves done s (markWaiting s now taskId runId stepName eventName timeoutAt)
  := by
  unfold markWaiting
  extract_lets s₁
  have h₁ : Sound s₁ := h.congr rfl rfl (le_refl _)
  have hupdate : Evolves done s₁ ((s₁.updateRun runId (RunRow.wait eventName timeoutAt)).updateTask
      taskId (TaskRow.withState .sleeping)) :=
    evolves_updateActive h₁ hactive _ (fun _ => rfl) (fun _ => rfl)
  exact ⟨hupdate.sound, hupdate.keeps, hupdate.traces, hupdate.drawn⟩

theorem evolves_awaitEvent (h : Sound s) {now : Time} {taskId runId : Uuid}
    {stepName eventName : String} {timeout : Option ℤ} {suspend : Bool} {payload : Option Json}
    (htask : ∀ r, s.runs.get? runId = some r → r.taskId = taskId)
    (hs : awaitEvent s now taskId runId stepName eventName timeout
      = .ok (s', suspend, payload)) :
  Evolves done s s'
  := by
  have hsame {s₁ : QueueState} (h₁ : Sound s₁) (e : RunEdit)
      (he : ∀ r, (e.apply r).Active → r.Active) : Sound (s₁.updateRun runId e) := by
    apply h₁.updateRun
    intro r _ _ ha
    apply he r ha
  unfold awaitEvent at hs
  split at hs
  · cases hs
  · split at hs
    · cases hs
    · split at hs
      · cases hs
        apply Evolves.refl h
      · split at hs
        · cases hs
        · rename_i r hr
          split at hs
          · cases hs
          · split at hs
            · cases hs
            · split at hs
              · cases hs
              · rename_i hrunning
                extract_lets s₁ at hs
                have h₀ := sound_ensureEvent h eventName
                have htasks : s₁.tasks = s.tasks := tasks_ensureEvent s eventName
                have hdrawn : s.drawn ≤ s₁.drawn := drawn_ensureEvent s eventName
                have h₁ : Sound s₁ := hsame h₀ RunRow.clearPayload (fun _ ha => ha)
                split at hs
                · cases hs
                  exact (Evolves.of_tasks_eq h₁ htasks hdrawn).congr rfl rfl (le_refl _)
                · split at hs
                  · cases hs
                    exact Evolves.of_tasks_eq (hsame h₁ RunRow.clearWakeEvent (fun _ ha => ha))
                      htasks hdrawn
                  · cases hs
                    have hactive : ActiveRun (ensureEvent s eventName) runId taskId := by
                      have := activeRun_of_get? hr
                        (active_of_running (Decidable.not_not.mp hrunning))
                      rw [htask r hr] at this
                      simpa only [ActiveRun, runs_ensureEvent] using this
                    have hactive₁ : ActiveRun s₁ runId taskId :=
                      hactive.updateRun (e := RunRow.clearPayload) (fun _ ha => ha)
                    apply (Evolves.of_tasks_eq h₁ htasks hdrawn).trans
                    apply evolves_markWaiting h₁ now hactive₁

/-- Waking runs keeps runs active. -/
theorem activeRun_wakeRuns (now : Time) (payload : Json) {runId taskId : Uuid} :
    ∀ {woken : List WaitRow} {s : QueueState}, ActiveRun s runId taskId →
      ActiveRun (woken.foldl (markWoken now payload) s) runId taskId
  | [], _, hactive => hactive
  | w :: woken, s, hactive => by
      have hwoken : ActiveRun (markWoken now payload s w) runId taskId :=
        hactive.updateRun (e := RunRow.wake now payload) (fun _ _ => rfl)
      rw [List.foldl_cons]
      apply activeRun_wakeRuns now payload hwoken

theorem evolves_wakeRuns (now : Time) (payload : Json) :
    ∀ {woken : List WaitRow} {s : QueueState}, Sound s →
      (∀ w ∈ woken, ∃ taskId, ActiveRun s w.runId taskId) →
      Evolves done s (woken.foldl (markWoken now payload) s)
  | [], _, h, _ => Evolves.refl h
  | w :: woken, s, h, hactive => by
      obtain ⟨taskId, r, hr, hrun, htask, ha⟩ := hactive w List.mem_cons_self
      have hupdate : Sound (s.updateRun w.runId (RunRow.wake now payload)) := by
        apply h.updateRun
        intro r' hr' hid _
        rwa [eq_of_runId_eq hr hr' (hid.trans hrun.symm)]
      have h₁ : Evolves done s (markWoken now payload s w) :=
        (Evolves.of_tasks_eq (s := s) hupdate rfl (le_refl _)).congr rfl rfl (le_refl _)
      apply h₁.trans
      apply evolves_wakeRuns now payload h₁.sound
      intro w' hw'
      obtain ⟨taskId', hactive'⟩ := hactive w' (List.mem_cons_of_mem w hw')
      use taskId'
      exact hactive'.updateRun (e := RunRow.wake now payload) (fun _ _ => rfl)

/-- Tasks with an active run become pending. -/
theorem evolves_wakeTasks :
    ∀ {taskIds : List Uuid} {s : QueueState}, Sound s →
      (∀ id ∈ taskIds, ∃ runId, ActiveRun s runId id) →
      Evolves done s (taskIds.foldl (fun s id => s.updateTask id (TaskRow.withState .pending)) s)
  | [], _, h, _ => Evolves.refl h
  | id :: taskIds, s, h, hactive => by
      obtain ⟨runId, r, hr, -, rfl, ha⟩ := hactive id List.mem_cons_self
      have h₁ : Evolves done s (s.updateTask r.taskId (TaskRow.withState .pending)) := by
        have htask : Sound (s.updateTask r.taskId (TaskRow.withState .pending)) :=
          h.updateTask (.inl (fun _ => rfl))
        apply Evolves.updateTask htask rfl (le_refl _)
        · intro t ht
          apply not_frozen_of_active h hr ha ht
        · intro t
          exact continues_of_ne rfl (ne_completed_of_live rfl)
      apply h₁.trans
      apply evolves_wakeTasks h₁.sound
      intro id hid
      apply hactive id (List.mem_cons_of_mem _ hid)

theorem evolves_emitEvent (h : Sound s) {now : Time} {eventName : String}
    {payload : Option Json} (hs : emitEvent s now eventName payload = .ok s') :
  Evolves done s s'
  := by
  unfold emitEvent at hs
  split at hs
  · cases hs
  · split at hs
    · obtain rfl := Except.ok.inj hs
      apply Evolves.refl h
    · extract_lets payload' s₁ s₂ affected woken taskIds s₃ at hs
      obtain rfl := Except.ok.inj hs
      have h₂ : Evolves done s s₂ := (Evolves.refl h).congr rfl rfl (le_refl _)
      have hsleeping : ∀ w ∈ woken, ∃ r, s₂.runs.get? w.runId = some r ∧ r.Active := by
        intro w hw
        obtain ⟨-, hany⟩ := List.mem_filter.mp hw
        obtain ⟨r, hr, hstate⟩ := (Option.any_eq_true ..).mp hany
        use r, hr
        apply active_of_sleeping (of_decide_eq_true hstate)
      have hwoken : ∀ w ∈ woken, ∃ taskId, ActiveRun s₂ w.runId taskId := by
        intro w hw
        obtain ⟨r, hr, ha⟩ := hsleeping w hw
        use r.taskId
        apply activeRun_of_get? hr ha
      have h₃ : Evolves done s₂ (woken.foldl (markWoken now payload') s₂) :=
        evolves_wakeRuns now payload' h₂.sound hwoken
      apply (h₂.trans h₃).trans
      apply evolves_wakeTasks h₃.sound
      intro id hid
      obtain ⟨w, hw, hmap⟩ := List.mem_filterMap.mp hid
      obtain ⟨r, hr, ha⟩ := hsleeping w hw
      rw [hr] at hmap
      obtain rfl := Option.some.inj hmap
      use w.runId
      apply activeRun_wakeRuns
      apply activeRun_of_get? hr ha

/-! ### Every call -/

/-- The call is not a cleanup that takes the task. -/
def Spares (id : Uuid) : Label → Prop
  | .cleanupTasks _ _ _ batch => id ∉ batch
  | _ => True

instance (id : Uuid) (l : Label) : Decidable (Spares id l) := by
  cases l <;> unfold Spares <;> infer_instance

/-- The call completes a run of the task with a payload. -/
def Completes (s : QueueState) (l : Label) (id : Uuid) (payload : Option Json) : Prop :=
  ∃ now r, l = .complete now r.runId payload ∧ s.runs.get? r.runId = some r ∧ r.taskId = id

/-- A call that is not a cleanup of tasks. -/
theorem evolves_step {l : Label} (h : Sound s)
    (hl : ∀ now ttlSeconds limit batch, l ≠ .cleanupTasks now ttlSeconds limit batch)
    (hs : step pg s l = some s') :
  Evolves (Completes s l) s s'
  := by
  obtain ⟨hown, hs⟩ := step_eq_some.mp hs
  cases l with
  | spawn now name params options =>
      obtain ⟨⟨_, spawned⟩, hspawn, rfl⟩ := Except.map_eq_ok (Except.toOption_eq_some.mp hs)
      apply evolves_spawnTask h hspawn
  | claim now worker claimTimeout qty =>
      obtain ⟨⟨_, claimed⟩, hclaim, rfl⟩ := Except.map_eq_ok (Except.toOption_eq_some.mp hs)
      apply evolves_claimTask h hclaim
  | complete now runId payload =>
      apply evolves_completeRun h _ (Except.toOption_eq_some.mp hs)
      intro r hr
      obtain rfl := Keyed.Table.key_of_get? hr
      exact ⟨now, r, rfl, hr, rfl⟩
  | schedule runId wakeAt => apply evolves_scheduleRun h (Except.toOption_eq_some.mp hs)
  | fail now runId reason retryAt => apply evolves_failRun h (Except.toOption_eq_some.mp hs)
  | retry now taskId spawnNew maxAttempts =>
      obtain ⟨⟨_, spawned⟩, hretry, rfl⟩ := Except.map_eq_ok (Except.toOption_eq_some.mp hs)
      apply evolves_retryTask h hretry
  | cancel now taskId => apply evolves_cancelTask h (Except.toOption_eq_some.mp hs)
  | checkpoint now taskId stepName state ownerRun extendClaimBy =>
      apply evolves_setTaskCheckpointState h (Except.toOption_eq_some.mp hs)
  | extend now runId extendBy => apply evolves_extendClaim h (Except.toOption_eq_some.mp hs)
  | await now taskId runId stepName eventName timeout =>
      obtain ⟨⟨_, suspend, payload⟩, hawait, rfl⟩ :=
        Except.map_eq_ok (Except.toOption_eq_some.mp hs)
      apply evolves_awaitEvent h _ hawait
      intro r hr
      rw [AwaitsOwn, hr] at hown
      simpa using hown
  | emit now eventName payload => apply evolves_emitEvent h (Except.toOption_eq_some.mp hs)
  | cleanupTasks now ttlSeconds limit batch => exact absurd rfl (hl now ttlSeconds limit batch)
  | cleanupEvents now ttlSeconds limit batch =>
      simp only [call, cleanupEvents] at hs
      split at hs
      · obtain rfl := Option.some.inj hs
        exact (Evolves.refl h).congr rfl rfl (le_refl _)
      · cases hs

/-- A cleanup deletes the tasks it takes and keeps the rows of the others. -/
theorem get?_cleanupTasks {now : Time} {ttlSeconds : ℤ} {limit : ℕ} {batch : List Uuid}
    (hs : cleanupTasks s now ttlSeconds limit batch = some s') (id : Uuid) :
  s'.tasks.get? id = if id ∈ batch then none else s.tasks.get? id
  := by
  unfold cleanupTasks at hs
  split at hs
  · obtain rfl := Option.some.inj hs
    rw [deleteTasks, Keyed.Table.get?_delete]
    cases ht : s.tasks.get? id with
    | none => simp
    | some t =>
        have hkey := Keyed.Table.key_of_get? ht
        by_cases hid : id ∈ batch <;> simp [hkey, hid]
  · cases hs

theorem drawn_cleanupTasks {now : Time} {ttlSeconds : ℤ} {limit : ℕ} {batch : List Uuid}
    (hs : cleanupTasks s now ttlSeconds limit batch = some s') :
  s'.drawn = s.drawn
  := by
  unfold cleanupTasks at hs
  split at hs
  · obtain rfl := Option.some.inj hs
    rfl
  · cases hs

theorem sound_cleanupTasks (h : Sound s) {now : Time} {ttlSeconds : ℤ} {limit : ℕ}
    {batch : List Uuid} (hs : cleanupTasks s now ttlSeconds limit batch = some s') :
  Sound s'
  := by
  unfold cleanupTasks at hs
  split at hs
  · obtain rfl := Option.some.inj hs
    apply h.deleteTasks
  · cases hs

/-- Every call keeps the queue sound. -/
theorem sound_step {l : Label} (h : Sound s) (hs : step pg s l = some s') :
  Sound s'
  := by
  by_cases hl : ∃ now ttlSeconds limit batch, l = .cleanupTasks now ttlSeconds limit batch
  · obtain ⟨now, ttlSeconds, limit, batch, rfl⟩ := hl
    apply sound_cleanupTasks h hs
  · push Not at hl
    apply (evolves_step h hl hs).sound

/-- Every call that spares a completed or cancelled task keeps its row. -/
theorem keeps_step {l : Label} (h : Sound s) (hs : step pg s l = some s') {id : Uuid}
    {t : TaskRow} (ht : s.tasks.get? id = some t) (hfrozen : t.Frozen) (hl : Spares id l) :
  s'.tasks.get? id = some t
  := by
  by_cases hl' : ∃ now ttlSeconds limit batch, l = .cleanupTasks now ttlSeconds limit batch
  · obtain ⟨now, ttlSeconds, limit, batch, rfl⟩ := hl'
    rw [get?_cleanupTasks hs, if_neg hl, ht]
  · push Not at hl'
    apply (evolves_step h hl' hs).keeps id t ht hfrozen

/-- No id is drawn back. -/
theorem drawn_step {l : Label} (h : Sound s) (hs : step pg s l = some s') :
  s.drawn ≤ s'.drawn
  := by
  by_cases hl : ∃ now ttlSeconds limit batch, l = .cleanupTasks now ttlSeconds limit batch
  · obtain ⟨now, ttlSeconds, limit, batch, rfl⟩ := hl
    rw [drawn_cleanupTasks hs]
  · push Not at hl
    apply (evolves_step h hl hs).drawn

/-- The row of a task continues the row it had before a call. -/
theorem continues_step {l : Label} (h : Sound s) (hs : step pg s l = some s') {id : Uuid}
    (hid : id.index < s.drawn) {t' : TaskRow} (ht' : s'.tasks.get? id = some t') :
  ∃ t, s.tasks.get? id = some t ∧ t.Continues (Completes s l id) t'
  := by
  by_cases hl : ∃ now ttlSeconds limit batch, l = .cleanupTasks now ttlSeconds limit batch
  · obtain ⟨now, ttlSeconds, limit, batch, rfl⟩ := hl
    rw [get?_cleanupTasks hs] at ht'
    split at ht'
    · cases ht'
    · exact ⟨t', ht', rfl, fun _ => .inl rfl⟩
  · push Not at hl
    apply (evolves_step h hl hs).traces id t' hid ht'

/-- A task that is gone stays gone: no call draws its id again. -/
theorem absent_step {l : Label} (h : Sound s) (hs : step pg s l = some s') {id : Uuid}
    (hid : id.index < s.drawn) (hnone : s.tasks.get? id = none) :
  s'.tasks.get? id = none
  := by
  rw [Option.eq_none_iff_forall_ne_some]
  intro t' ht'
  obtain ⟨t, ht, -⟩ := continues_step h hs hid ht'
  rw [hnone] at ht
  cases ht

/-! ### Runs of calls -/

theorem sound_run {ls : List Label} (h : Sound s) (hs : (machine pg).run s ls = some s') :
  Sound s'
  := by
  have hstep : ∀ (s : QueueState) (l : Label) (s' : QueueState), Sound s →
      (machine pg).step s l = some s' → Sound s' := fun _ _ _ h hs => sound_step h hs
  apply Machine.invariant hstep h hs

/-- A reachable queue is sound. -/
theorem sound_of_reachable (h : Reachable pg s) :
  Sound s
  := by
  obtain ⟨storage, ls, hrun⟩ := reachable_iff.mp h
  apply sound_run (Sound.create storage) hrun

theorem absent_run {ls : List Label} (h : Sound s) {id : Uuid} (hid : id.index < s.drawn)
    (hnone : s.tasks.get? id = none) (hs : (machine pg).run s ls = some s') :
  s'.tasks.get? id = none
  := by
  induction ls generalizing s with
  | nil =>
      obtain rfl := Option.some.inj hs
      apply hnone
  | cons l ls ih =>
      obtain ⟨s₁, hstep, hs⟩ := Machine.run_cons.mp hs
      have hid₁ := lt_of_lt_of_le hid (drawn_step h hstep)
      apply ih (sound_step h hstep) hid₁ (absent_step h hstep hid hnone) hs

/-- No call completes the task with another payload. -/
def Returns (id : Uuid) (payload : Option Json) (s : QueueState) (l : Label) : Prop :=
  ∀ payload', Completes s l id payload' → payload' = payload

/-- A task that is completed in a run whose calls complete it with one payload alone has
that payload, and it has kept its name. -/
theorem returned_run {ls : List Label} (h : Sound s) {id : Uuid} {payload : Option Json}
    {t t' : TaskRow} (ht : s.tasks.get? id = some t)
    (hpayload : t.state = .completed → t.completedPayload = payload)
    (hs : (machine pg).run s ls = some s')
    (hreturns : (machine pg).Along (Returns id payload) s ls)
    (ht' : s'.tasks.get? id = some t') :
  t'.taskName = t.taskName ∧ (t'.state = .completed → t'.completedPayload = payload)
  := by
  induction ls generalizing s t with
  | nil =>
      obtain rfl := Option.some.inj hs
      rw [ht] at ht'
      obtain rfl := Option.some.inj ht'
      exact ⟨rfl, hpayload⟩
  | cons l ls ih =>
      obtain ⟨s₁, hstep, hrest⟩ := Machine.run_cons.mp hs
      rw [Machine.along_cons hstep] at hreturns
      have h₁ : Sound s₁ := sound_step h hstep
      have hid : id.index < s.drawn := by
        rw [← Keyed.Table.key_of_get? ht]
        apply h.drawn t (Keyed.Table.mem_of_get? ht)
      cases ht₁ : s₁.tasks.get? id with
      | none =>
          rw [absent_run h₁ (lt_of_lt_of_le hid (drawn_step h hstep)) ht₁ hrest] at ht'
          cases ht'
      | some t₁ =>
          obtain ⟨t₀, ht₀, hname, hcompleted⟩ := continues_step h hstep hid ht₁
          rw [ht] at ht₀
          obtain rfl := Option.some.inj ht₀
          rw [← hname]
          apply ih h₁ ht₁ _ hrest hreturns.2
          intro hstate
          rcases hcompleted hstate with rfl | hdone
          · apply hpayload hstate
          · apply hreturns.1 _ hdone

/-- The row of a completed or cancelled task is there after a run exactly when every
cleanup of the run spared it, and then it is unchanged. -/
theorem frozen_run_iff {ls : List Label} (h : Sound s) {id : Uuid} {t : TaskRow}
    (ht : s.tasks.get? id = some t) (hfrozen : t.Frozen)
    (hs : (machine pg).run s ls = some s') :
  ((machine pg).Along (fun _ l => Spares id l) s ls → s'.tasks.get? id = some t)
    ∧ (¬ (machine pg).Along (fun _ l => Spares id l) s ls → s'.tasks.get? id = none)
  := by
  induction ls generalizing s with
  | nil =>
      obtain rfl := Option.some.inj hs
      simp [ht]
  | cons l ls ih =>
      obtain ⟨s₁, hstep, hrest⟩ := Machine.run_cons.mp hs
      rw [Machine.along_cons hstep]
      have h₁ : Sound s₁ := sound_step h hstep
      by_cases hl : Spares id l
      · have ht₁ := keeps_step h hstep ht hfrozen hl
        simpa [hl] using ih h₁ ht₁ hrest
      · constructor
        · rintro ⟨hl', -⟩
          exact absurd hl' hl
        · intro _
          cases l with
          | cleanupTasks now ttlSeconds limit batch =>
              have hnone : s₁.tasks.get? id = none := by
                rw [get?_cleanupTasks hstep, if_pos (not_not.mp hl)]
              have hid : id.index < s₁.drawn := by
                rw [drawn_cleanupTasks hstep, ← Keyed.Table.key_of_get? ht]
                apply h.drawn t (Keyed.Table.mem_of_get? ht)
              apply absent_run h₁ hid hnone hrest
          | _ => exact absurd trivial hl

end DjangoAbsurd.Engine
