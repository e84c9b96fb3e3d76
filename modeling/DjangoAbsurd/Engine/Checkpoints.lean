import DjangoAbsurd.Engine.Refinement

/-!
# Checkpoints over the calls of a queue

The checkpoint of a step of a task is written by a call that names the step, or by the event
a wait for the step ends with. Every other call leaves the checkpoints and the waits as they
are or takes some away (`recorded_step`).
-/

namespace DjangoAbsurd.Engine

/-- The call records a step of a task, or has the task wait at it. -/
def Label.Records (l : Label) (id : Uuid) (stepName : String) : Prop :=
  (∃ now state ownerRun extendClaimBy, l = .checkpoint now id stepName state ownerRun extendClaimBy)
  ∨ ∃ now runId eventName timeout, l = .await now id runId stepName eventName timeout

/-- The step a call names, and its task. -/
def Label.recorded : Label → Option (Uuid × String)
  | .checkpoint _ id stepName _ _ _ => some (id, stepName)
  | .await _ id _ stepName _ _ => some (id, stepName)
  | _ => none

/-- A call that names no step records none. -/
theorem not_records {l : Label} (h : l.recorded = none) (id : Uuid) (stepName : String) :
  ¬ l.Records id stepName
  := by
  rintro (⟨_, _, _, _, rfl⟩ | ⟨_, _, _, _, rfl⟩)
  all_goals cases h

/-- One queue leads to the other, where only steps satisfying `P` and steps that are waited
at are recorded. -/
structure Recorded (P : Uuid → String → Prop) (s s' : QueueState) : Prop where
  checkpoints : ∀ c ∈ s'.checkpoints.rows, c ∈ s.checkpoints.rows ∨ P c.taskId c.checkpointName
    ∨ ∃ w ∈ s.waits.rows, w.taskId = c.taskId ∧ w.stepName = c.checkpointName
  waits : ∀ w ∈ s'.waits.rows, w ∈ s.waits.rows ∨ P w.taskId w.stepName

section

variable {pg : Postgres} {P : Uuid → String → Prop} {s s' s₁ s₂ s₃ : QueueState}

/-- The checkpoints stay and no wait is added. -/
theorem Recorded.of_eq (hcheckpoints : s'.checkpoints = s.checkpoints)
    (hwaits : ∀ w ∈ s'.waits.rows, w ∈ s.waits.rows) :
  Recorded P s s'
  := by
  constructor
  · intro c hc
    rw [hcheckpoints] at hc
    exact .inl hc
  · exact fun w hw => .inl (hwaits w hw)

theorem Recorded.refl : Recorded P s s := .of_eq rfl (fun _ hw => hw)

theorem Recorded.trans (h : Recorded P s₁ s₂) (h' : Recorded P s₂ s₃) :
  Recorded P s₁ s₃
  := by
  constructor
  · intro c hc
    rcases h'.checkpoints c hc with hc | hP | ⟨w, hw, hid, hname⟩
    · exact h.checkpoints c hc
    · exact .inr (.inl hP)
    · rcases h.waits w hw with hw | hP
      · exact .inr (.inr ⟨w, hw, hid, hname⟩)
      · rw [hid, hname] at hP
        exact .inr (.inl hP)
  · intro w hw
    rcases h'.waits w hw with hw | hP
    · exact h.waits w hw
    · exact .inr hP

/-- Waits are taken away. -/
theorem Recorded.deleteWaits (h : Recorded P s s') (p : WaitRow → Bool) :
  Recorded P s (s'.deleteWaits p)
  := h.trans (.of_eq rfl (fun _ hw => (Keyed.Table.mem_delete.mp hw).1))

/-- A step that may be recorded is recorded. -/
theorem Recorded.putCheckpoint (h : Recorded P s s') {c : CheckpointRow}
    (hc : P c.taskId c.checkpointName
      ∨ ∃ w ∈ s.waits.rows, w.taskId = c.taskId ∧ w.stepName = c.checkpointName) :
  Recorded P s (s'.putCheckpoint c)
  := by
  constructor
  · intro c' hc'
    rcases Keyed.Table.mem_put.mp hc' with rfl | ⟨hc', -⟩
    · exact .inr hc
    · exact h.checkpoints c' hc'
  · exact h.waits

theorem Recorded.foldl {α : Type} {f : QueueState → α → QueueState}
    (hstep : ∀ s a, Recorded P s (f s a)) (as : List α) (s : QueueState) :
  Recorded P s (as.foldl f s)
  := by
  induction as generalizing s with
  | nil => exact .refl
  | cons a as ih => exact (hstep s a).trans (ih (f s a))

theorem Recorded.foldlM {α ε : Type} {f : QueueState → α → Except ε QueueState}
    (hstep : ∀ s a s', f s a = .ok s' → Recorded P s s') {as : List α}
    (hs : as.foldlM f s = .ok s') :
  Recorded P s s'
  := by
  induction as generalizing s with
  | nil =>
      obtain rfl := Except.ok.inj hs
      exact .refl
  | cons a as ih =>
      rw [List.foldlM_cons] at hs
      cases ha : f s a with
      | error e =>
          rw [ha] at hs
          cases hs
      | ok s₁ =>
          rw [ha] at hs
          exact (hstep s a s₁ ha).trans (ih hs)

/-! ### One lemma for each function -/

theorem recorded_spawnTask {now : Time} {name : String} {params options : Json}
    {spawned : Spawned} (hs : spawnTask pg s now name params options = .ok (s', spawned)) :
  Recorded P s s'
  := by
  obtain ⟨read, -, ⟨-, rfl⟩ | ⟨-, rfl, -⟩⟩ := spawnTask_eq_ok hs
  · exact .of_eq rfl (fun _ hw => hw)
  · exact .of_eq rfl (fun _ hw => hw)

theorem recorded_cancelTask {now : Time} {id : Uuid} (hs : cancelTask s now id = .ok s') :
  Recorded P s s'
  := by
  rw [cancelTask] at hs
  split at hs
  · cases hs
  · split at hs
    · cases hs
      exact .refl
    · cases hs
      apply Recorded.deleteWaits
      exact .of_eq rfl (fun _ hw => hw)

theorem recorded_markFailed (s : QueueState) (now : Time) (r : RunRow) (reason : Json)
    (task : Keyed.Edit TaskRow.taskId) :
  Recorded P s (markFailed s now r reason task)
  := by
  apply Recorded.deleteWaits
  exact .of_eq rfl (fun _ hw => hw)

theorem recorded_failActive {now : Time} {r : RunRow} {reason : Json} {retryAt : Option Time}
    (hs : failActive pg s now r reason retryAt = .ok s') :
  Recorded P s s'
  := by
  simp only [failActive, Bind.bind, Except.bind, pure, Except.pure] at hs
  split at hs
  · cases hs
    apply recorded_markFailed
  · split at hs
    · cases hs
    · split at hs
      · cases hs
        apply recorded_markFailed
      · split at hs
        · cases hs
          apply recorded_markFailed
        · cases hs
          exact (recorded_markFailed s now r reason _).trans (.of_eq rfl (fun _ hw => hw))

theorem recorded_failRun {now : Time} {id : Uuid} {reason : Json} {retryAt : Option Time}
    (hs : failRun pg s now id reason retryAt = .ok s') :
  Recorded P s s'
  := by
  rw [failRun] at hs
  split at hs
  · cases hs
  · split at hs
    · cases hs
    · cases hs
    · apply recorded_failActive hs
    · apply recorded_failActive hs
    · cases hs

theorem recorded_claimTask {now : Time} {worker : String} {timeout qty : ℤ} {claimed : List Uuid}
    (hs : claimTask pg s now worker timeout qty = .ok (s', claimed)) :
  Recorded P s s'
  := by
  simp only [claimTask, Bind.bind, Except.bind, pure, Except.pure] at hs
  split at hs
  · cases hs
  · split at hs
    · cases hs
    · rename_i s₁ hcancelled
      split at hs
      · cases hs
      · rename_i s₂ hexpired
        cases hs
        have hcancels : Recorded P s s₁ :=
          .foldlM (fun _ _ _ hs => recorded_cancelTask hs) hcancelled
        have hexpires : Recorded P s₁ s₂ :=
          .foldlM (fun _ _ _ hs => recorded_failRun hs) hexpired
        apply (hcancels.trans hexpires).trans
        apply Recorded.foldl
        intro s r
        apply Recorded.deleteWaits
        exact .of_eq rfl (fun _ hw => hw)

theorem recorded_retryTask {now : Time} {id : Uuid} {spawnNew : Bool} {maxAttempts : Option ℤ}
    {spawned : Spawned} (hs : retryTask pg s now id spawnNew maxAttempts = .ok (s', spawned)) :
  Recorded P s s'
  := by
  rw [retryTask] at hs
  split at hs
  · cases hs
  · split at hs
    · cases hs
    · split at hs
      · split at hs
        · apply recorded_spawnTask hs
        · dsimp only at hs
          split at hs
          · cases hs
          · cases hs
            exact .of_eq rfl (fun _ hw => hw)
      · cases hs

/-- A checkpoint that is set has its state, and the waits do not change. -/
theorem setTaskCheckpointState_eq_ok {now : Time} {taskId : Uuid} {stepName : String}
    {state : Option Json} {ownerRun : Uuid} {extendClaimBy : Option ℤ}
    (hs : setTaskCheckpointState s now taskId stepName state ownerRun extendClaimBy = .ok s') :
  s'.waits = s.waits ∧ ∀ c ∈ s'.checkpoints.rows, c ∈ s.checkpoints.rows
    ∨ (c.taskId = taskId ∧ c.checkpointName = stepName ∧ c.state = state)
  := by
  unfold setTaskCheckpointState at hs
  split at hs
  · cases hs
  · split at hs
    · cases hs
    · split at hs
      · cases hs
      · split at hs
        · cases hs
        · split at hs
          · cases hs
          · extract_lets s₁ attempt? at hs
            have h₁ : s₁.waits = s.waits ∧ s₁.checkpoints = s.checkpoints := by
              simp only [s₁]
              split
              · split <;> exact ⟨rfl, rfl⟩
              · exact ⟨rfl, rfl⟩
            obtain ⟨hwaits, hcheckpoints⟩ := h₁
            split at hs
            · obtain rfl := Except.ok.inj hs
              use hwaits
              intro c hc
              rcases Keyed.Table.mem_put.mp hc with rfl | ⟨hc, -⟩
              · exact .inr ⟨rfl, rfl, rfl⟩
              · rw [hcheckpoints] at hc
                exact .inl hc
            · obtain rfl := Except.ok.inj hs
              use hwaits
              intro c hc
              rw [hcheckpoints] at hc
              exact .inl hc

theorem recorded_setTaskCheckpointState {now : Time} {taskId : Uuid} {stepName : String}
    {state : Option Json} {ownerRun : Uuid} {extendClaimBy : Option ℤ} (hP : P taskId stepName)
    (hs : setTaskCheckpointState s now taskId stepName state ownerRun extendClaimBy = .ok s') :
  Recorded P s s'
  := by
  obtain ⟨hwaits, hcheckpoints⟩ := setTaskCheckpointState_eq_ok hs
  constructor
  · intro c hc
    rcases hcheckpoints c hc with hc | ⟨hid, hname, -⟩
    · exact .inl hc
    · rw [hid, hname]
      exact .inr (.inl hP)
  · intro w hw
    rw [hwaits] at hw
    exact .inl hw

theorem recorded_awaitEvent {now : Time} {taskId runId : Uuid} {stepName eventName : String}
    {timeout : Option ℤ} {suspend : Bool} {payload : Option Json} (hP : P taskId stepName)
    (hs : awaitEvent s now taskId runId stepName eventName timeout = .ok (s', suspend, payload)) :
  Recorded P s s'
  := by
  have hensured : Recorded P s ((ensureEvent s eventName).updateRun runId RunRow.clearPayload) := by
    rw [ensureEvent]
    split <;> exact .of_eq rfl (fun _ hw => hw)
  rw [awaitEvent] at hs
  split at hs
  · cases hs
  · split at hs
    · cases hs
    · split at hs
      · cases hs
        exact .refl
      · split at hs
        · cases hs
        · split at hs
          · cases hs
          · split at hs
            · cases hs
            · split at hs
              · cases hs
              · dsimp only at hs
                split at hs
                · cases hs
                  exact hensured.putCheckpoint (.inl hP)
                · split at hs
                  · cases hs
                    exact hensured.trans (.of_eq rfl (fun _ hw => hw))
                  · cases hs
                    apply hensured.trans
                    constructor
                    · exact fun c hc => .inl hc
                    · intro w hw
                      rcases Keyed.Table.mem_put.mp hw with rfl | ⟨hw, -⟩
                      · exact .inr hP
                      · exact .inl hw

theorem recorded_wakeRuns {now : Time} {payload : Json} {woken : List WaitRow}
    (h : Recorded P s s₁) (hwoken : ∀ w ∈ woken, w ∈ s.waits.rows) :
  Recorded P s (woken.foldl (markWoken now payload) s₁)
  := by
  induction woken generalizing s₁ with
  | nil => exact h
  | cons w woken ih =>
      rw [List.forall_mem_cons] at hwoken
      obtain ⟨hw, hrest⟩ := hwoken
      apply ih _ hrest
      apply Recorded.deleteWaits
      apply Recorded.putCheckpoint
      · exact h.trans (.of_eq rfl (fun _ hw => hw))
      · exact .inr ⟨w, hw, rfl, rfl⟩

theorem recorded_emitEvent {now : Time} {eventName : String} {payload : Option Json}
    (hs : emitEvent s now eventName payload = .ok s') :
  Recorded P s s'
  := by
  rw [emitEvent] at hs
  split at hs
  · cases hs
  · split at hs
    · cases hs
      exact .refl
    · extract_lets payload' s₁ s₂ affected woken taskIds s₃ at hs
      cases hs
      have hevents : Recorded P s s₁ := .of_eq rfl (fun _ hw => hw)
      have hwaits : Recorded P s s₂ := hevents.deleteWaits _
      have hwoken : Recorded P s s₃ := by
        apply recorded_wakeRuns hwaits
        intro w hw
        have haffected := (List.mem_filter.mp (List.mem_filter.mp hw).1).1
        exact (Keyed.Table.mem_delete.mp haffected).1
      apply hwoken.trans
      apply Recorded.foldl
      exact fun _ _ => .of_eq rfl (fun _ hw => hw)

/-! ### Every call -/

/-- A call records only the steps it names and the steps that are waited at. -/
theorem recorded_step {l : Label} (hs : step pg s l = some s') :
  Recorded l.Records s s'
  := by
  obtain ⟨-, hs⟩ := step_eq_some.mp hs
  cases l with
  | spawn now name params options =>
      obtain ⟨⟨_, spawned⟩, hspawn, rfl⟩ := Except.map_eq_ok (Except.toOption_eq_some.mp hs)
      apply recorded_spawnTask hspawn
  | claim now worker claimTimeout qty =>
      obtain ⟨⟨_, claimed⟩, hclaim, rfl⟩ := Except.map_eq_ok (Except.toOption_eq_some.mp hs)
      apply recorded_claimTask hclaim
  | complete now runId payload =>
      have hcomplete := Except.toOption_eq_some.mp hs
      rw [completeRun] at hcomplete
      split at hcomplete
      · cases hcomplete
      · split at hcomplete
        case h_1 =>
          cases hcomplete
          apply Recorded.deleteWaits
          exact .of_eq rfl (fun _ hw => hw)
        all_goals cases hcomplete
  | schedule runId wakeAt =>
      have hschedule := Except.toOption_eq_some.mp hs
      rw [scheduleRun] at hschedule
      split at hschedule
      · cases hschedule
      · split at hschedule
        · cases hschedule
          exact .of_eq rfl (fun _ hw => hw)
        · cases hschedule
  | fail now runId reason retryAt => apply recorded_failRun (Except.toOption_eq_some.mp hs)
  | retry now taskId spawnNew maxAttempts =>
      obtain ⟨⟨_, spawned⟩, hretry, rfl⟩ := Except.map_eq_ok (Except.toOption_eq_some.mp hs)
      apply recorded_retryTask hretry
  | cancel now taskId => apply recorded_cancelTask (Except.toOption_eq_some.mp hs)
  | checkpoint now taskId stepName state ownerRun extendClaimBy =>
      apply recorded_setTaskCheckpointState _ (Except.toOption_eq_some.mp hs)
      exact .inl ⟨now, state, ownerRun, extendClaimBy, rfl⟩
  | extend now runId extendBy =>
      have hextend := Except.toOption_eq_some.mp hs
      rw [extendClaim] at hextend
      repeat (split at hextend; cases hextend)
      cases hextend
      exact .of_eq rfl (fun _ hw => hw)
  | await now taskId runId stepName eventName timeout =>
      obtain ⟨⟨_, suspend, payload⟩, hawait, rfl⟩ :=
        Except.map_eq_ok (Except.toOption_eq_some.mp hs)
      apply recorded_awaitEvent _ hawait
      exact .inr ⟨now, runId, eventName, timeout, rfl⟩
  | emit now eventName payload => apply recorded_emitEvent (Except.toOption_eq_some.mp hs)
  | cleanupTasks now ttlSeconds limit batch =>
      rw [call, cleanupTasks] at hs
      split at hs
      · cases hs
        constructor
        · exact fun c hc => .inl (Keyed.Table.mem_delete.mp hc).1
        · exact fun w hw => .inl (Keyed.Table.mem_delete.mp hw).1
      · cases hs
  | cleanupEvents now ttlSeconds limit batch =>
      rw [call, cleanupEvents] at hs
      split at hs
      · cases hs
        exact .of_eq rfl (fun _ hw => hw)
      · cases hs

/-- A call spares the tasks whose checkpoints and waits it leaves. -/
theorem spared_step {l : Label} (hs : step pg s l = some s') :
  (∀ c ∈ s'.checkpoints.rows, Spares c.taskId l) ∧ ∀ w ∈ s'.waits.rows, Spares w.taskId l
  := by
  obtain ⟨-, hs⟩ := step_eq_some.mp hs
  cases l with
  | cleanupTasks now ttlSeconds limit batch =>
      rw [call, cleanupTasks] at hs
      split at hs
      · cases hs
        constructor
        · intro c hc
          exact of_decide_eq_false (Keyed.Table.mem_delete.mp hc).2
        · intro w hw
          exact of_decide_eq_false (Keyed.Table.mem_delete.mp hw).2
      · cases hs
  | _ => exact ⟨fun _ _ => trivial, fun _ _ => trivial⟩

end

end DjangoAbsurd.Engine
