import DjangoAbsurd.Engine.Settled

/-!
# What cancelling a task stops

Whoever cancels a task, a caller, a claim that finds it overdue or a failure past its duration,
stops it for good. None of its runs is claimed again, a worker that still holds one is refused
with its next call, and its rows stay as they were.
-/

namespace DjangoAbsurd.Engine

section

variable {pg : Postgres} {s s' : QueueState} {l : Label} {ls : List Label} {t : TaskRow}
  {r : RunRow}

/-! ### The rows of a cancelled task -/

/-- The runs of a cancelled task have ended without completing it. -/
theorem ended_of_cancelled (hs : s.life.Consistent) (ht : t ∈ s.tasks.rows)
    (hcancelled : t.state = .cancelled) (hr : r ∈ s.runs.rows) (hid : r.taskId = t.taskId) :
  r.state = .failed ∨ r.state = .cancelled
  := by
  have hterminal : t.state.terminal = true := by
    rw [hcancelled]
    rfl
  have hmem : r ∈ s.life.runsOf t.taskId := Lifecycle.mem_runsOf.mpr ⟨hr, hid⟩
  have hended := (hs.follows t ht).not_active (Lifecycle.nodup_runsOf _ _) hterminal hmem
  have hunfinished : r.state ≠ .completed := by
    intro hstate
    have hcompleted := (hs.follows t ht).completed r hmem hstate
    rw [hcancelled] at hcompleted
    cases hcompleted
  rw [RunRow.Active] at hended
  cases hstate : r.state with
  | failed => exact .inl rfl
  | cancelled => exact .inr rfl
  | completed => exact absurd hstate hunfinished
  | pending | running | sleeping =>
      rw [hstate] at hended
      exact absurd rfl hended

theorem not_active_of_ended (h : r.state = .failed ∨ r.state = .cancelled) :
  ¬ r.Active
  := by
  rcases h with h | h
  all_goals simp [RunRow.Active, h, TaskState.terminal]

/-! ### Calls after a cancellation -/

/-- The task is cancelled in a queue whose rows fit together. -/
structure IsCancelled (t : TaskRow) (s : QueueState) : Prop where
  consistent : s.life.Consistent
  waits : WaitsSound s
  task : s.tasks.get? t.taskId = some t
  state : t.state = .cancelled

theorem IsCancelled.of_reachable (h : Reachable pg s) (ht : s.tasks.get? t.taskId = some t)
    (hcancelled : t.state = .cancelled) :
  IsCancelled t s
  := ⟨consistent_of_reachable h, waitsSound_of_reachable h, ht, hcancelled⟩

theorem IsCancelled.mem (h : IsCancelled t s) :
  t ∈ s.tasks.rows
  := Keyed.Table.mem_of_get? h.task

theorem IsCancelled.isOver (h : IsCancelled t s) :
  IsOver t s
  := by
  refine ⟨h.consistent, h.waits, h.task, ?_⟩
  rw [h.state]
  rfl

/-- A task that is over stays cancelled. -/
theorem IsCancelled.of_isOver (h : IsCancelled t s) (hover : IsOver t s') :
  IsCancelled t s'
  := ⟨hover.consistent, hover.waits, hover.task, h.state⟩

/-- A cancelled task is not attempted again. -/
theorem IsCancelled.settles (h : IsCancelled t s) (hspares : Spares t.taskId l) :
  l.Settles t
  := by
  use hspares
  intro hfailed
  rw [h.state] at hfailed
  cases hfailed

/-- A call that spares a cancelled task halts it. -/
theorem halted_step (h : IsCancelled t s) (hspares : Spares t.taskId l)
    (hs : step pg s l = some s') :
  IsCancelled t s' ∧ Halted t s s'
  := by
  obtain ⟨hover, hhalted⟩ := h.isOver.call (h.settles hspares) hs
  exact ⟨h.of_isOver hover, hhalted⟩

theorem halted_run (h : IsCancelled t s) (hspares : ∀ l ∈ ls, Spares t.taskId l)
    (hrun : (machine pg).run s ls = some s') :
  IsCancelled t s' ∧ Halted t s s'
  := by
  obtain ⟨hover, hhalted⟩ := h.isOver.calls (fun l hl => h.settles (hspares l hl)) hrun
  exact ⟨h.of_isOver hover, hhalted⟩

/-! ### The steps of a cancelled task -/

/-- The checkpoints of the task are in the later queue what they were. -/
def SameSteps (id : Uuid) (s s' : QueueState) : Prop :=
  ∀ stepName, s'.checkpoints.get? (id, stepName) = s.checkpoints.get? (id, stepName)

theorem sameSteps_move (h : IsCancelled t s) (hspares : Spares t.taskId l) {m : Move}
    (htakes : l.Takes m) (hallowed : m.Allowed s)
    (hrecord : ∀ r c, m = .record r c → c.taskId = r.taskId) :
  SameSteps t.taskId s (m.apply s)
  := by
  intro stepName
  have hput : ∀ c : CheckpointRow, c.taskId ≠ t.taskId →
      (s.checkpoints.put c).get? (t.taskId, stepName)
        = s.checkpoints.get? (t.taskId, stepName) := by
    intro c hne
    apply Keyed.Table.get?_put_of_ne
    rintro heq
    exact hne (congrArg Prod.fst heq).symm
  cases m with
  | change c =>
      cases c with
      | delete batch =>
          have hspared := spares_of_takes hspares htakes
          rw [Move.apply, QueueState.change, Change.checkpoints, Keyed.Table.get?_delete]
          cases hget : s.checkpoints.get? (t.taskId, stepName) with
          | none => rfl
          | some c =>
              have hkey : c.taskId = t.taskId := congrArg Prod.fst (Keyed.Table.key_of_get? hget)
              rw [Option.filter_some, if_pos (by simp [hkey, hspared])]
      | _ => rfl
  | record r c =>
      apply hput
      rw [hrecord r c rfl]
      obtain ⟨t', ht', hid, hlive⟩ := hallowed.2.2.2.1
      rw [← hid]
      intro hid'
      rw [Keyed.Table.eq_of_key_eq ht' h.mem hid'] at hlive
      exact hlive h.state
  | receive now r stepName' eventName payload =>
      apply hput
      exact fun hid => h.isOver.not_active hallowed.1 hid (active_of_running hallowed.2.1)
  | ask r eventName =>
      rw [← checkpoints_ensureEvent s eventName]
      rfl
  | emit now eventName payload =>
      rw [Move.apply, emitted, pendings_eq]
      rcases checkpoint_markWokens (announced s now eventName payload) now payload t.taskId
        stepName with ⟨heq, -⟩ | ⟨w, hw, ⟨hid, -⟩, -⟩
      · exact heq
      · have hmem := ((mem_wokenWaits h.waits).mp hw).1
        exact absurd hid (h.isOver.waits_ne w hmem)
  | _ => rfl

/-- A call that records the steps of its own task leaves those of a cancelled one. -/
theorem sameSteps_step (h : IsCancelled t s) (hspares : Spares t.taskId l) (hown : RecordsOwn s l)
    (hs : step pg s l = some s') :
  SameSteps t.taskId s s'
  := by
  have hmove : ∀ s₁ (m : Move), l.Takes m → m.Allowed s₁ → s₁.life.Consistent →
      IsCancelled t s₁ ∧ RecordsOwn s₁ l ∧ SameSteps t.taskId s s₁ →
      IsCancelled t (m.apply s₁) ∧ RecordsOwn (m.apply s₁) l
        ∧ SameSteps t.taskId s (m.apply s₁) := by
    rintro s₁ m htakes hallowed - ⟨h₁, hown₁, hsame⟩
    obtain ⟨hover, -⟩ := h₁.isOver.move (h₁.settles hspares) htakes hallowed
    refine ⟨h₁.of_isOver hover, recordsOwn_move htakes hallowed hown₁, ?_⟩
    have hrecord : ∀ r c, m = .record r c → c.taskId = r.taskId := by
      rintro r c rfl
      obtain ⟨now, extendClaimBy, -, rfl⟩ := htakes
      exact (hown₁ r hallowed.1 rfl).symm
    have hsame' := sameSteps_move h₁ hspares htakes hallowed hrecord
    exact fun stepName => (hsame' stepName).trans (hsame stepName)
  exact (preserved_of_moves hmove h.consistent ⟨h, hown, fun _ => rfl⟩ hs).1.2.2

theorem sameSteps_run (h : IsCancelled t s) (hspares : ∀ l ∈ ls, Spares t.taskId l)
    (hown : (machine pg).Along RecordsOwn s ls) (hrun : (machine pg).run s ls = some s') :
  SameSteps t.taskId s s'
  := by
  have halong : (machine pg).Along (fun s l => Spares t.taskId l ∧ RecordsOwn s l) s ls :=
    (Machine.along_of_forall (fun _ l hl => hspares l hl)).and hown
  apply And.right
  apply Machine.invariant_along (I := fun s₁ => IsCancelled t s₁ ∧ SameSteps t.taskId s s₁) _ halong
    ⟨h, fun _ => rfl⟩ hrun
  rintro s₁ l s₂ ⟨hl, hown₁⟩ ⟨h₁, hsame⟩ hs
  have hsame' := sameSteps_step h₁ hl hown₁ hs
  exact ⟨(halted_step h₁ hl hs).1, fun stepName => (hsame' stepName).trans (hsame stepName)⟩

/-! ### What a worker is told -/

/-- What a worker is told that completes or fails a run of a cancelled task. -/
def RunRow.refusal (r : RunRow) : EngineError :=
  if r.state = .failed then .runAlreadyFailed else .cancelled

/-- Nothing can be done with the run. -/
structure Refused (pg : Postgres) (s : QueueState) (r : RunRow) : Prop where
  complete : ∀ now payload, completeRun s now r.runId payload = .error r.refusal
  fail : ∀ now reason retryAt, failRun pg s now r.runId reason retryAt = .error r.refusal
  schedule : ∀ wakeAt, scheduleRun s r.runId wakeAt = .error .runNotRunning
  extend : ∀ now extendBy, 0 < extendBy →
    extendClaim s now r.runId extendBy = .error .cancelled
  record : ∀ now id stepName state extendClaimBy, blank stepName = false →
    setTaskCheckpointState s now id stepName state r.runId extendClaimBy = .error .cancelled
  await : ∀ now id stepName eventName timeout, blank eventName = false →
    (∀ n, timeout = some n → 0 ≤ n) →
    (s.checkpoints.get? (id, stepName)).bind CheckpointRow.state = none →
    awaitEvent s now id r.runId stepName eventName timeout = .error .cancelled
  claim : ∀ now worker timeout qty s' claimed,
    claimTask pg s now worker timeout qty = .ok (s', claimed) → r.runId ∉ claimed

/-- Nothing can be done with the runs of a cancelled task. -/
theorem IsCancelled.refused (h : IsCancelled t s) (hr : r ∈ s.runs.rows)
    (hid : r.taskId = t.taskId) :
  Refused pg s r
  := by
  have hended := ended_of_cancelled h.consistent h.mem h.state hr hid
  have hrunning : r.state ≠ .running :=
    fun hstate => not_active_of_ended hended (active_of_running hstate)
  have hrow : s.runs.get? r.runId = some r := Keyed.Table.get?_of_mem hr
  have htask : s.tasks.get? r.taskId = some t := hid ▸ h.task
  constructor
  case complete =>
    intro now payload
    rw [completeRun, hrow]
    rcases hended with hstate | hstate
    all_goals simp [RunRow.refusal, hstate]
  case fail =>
    intro now reason retryAt
    rw [failRun, hrow]
    rcases hended with hstate | hstate
    all_goals simp [RunRow.refusal, hstate]
  case schedule =>
    intro wakeAt
    rw [scheduleRun, hrow]
    exact if_neg hrunning
  case extend =>
    intro now extendBy hpos
    rw [extendClaim, if_neg (not_le.mpr hpos), hrow]
    dsimp only
    rw [htask]
    exact if_pos h.state
  case record =>
    intro now id stepName state extendClaimBy hname
    rw [setTaskCheckpointState.eq_def, if_neg (by simp [hname]), hrow]
    dsimp only
    rw [htask]
    exact if_pos h.state
  case await =>
    intro now id stepName eventName timeout hname htimeout hnone
    have hnonneg : timeout.any (· < 0) = false := by
      cases timeout with
      | none => rfl
      | some n => simpa using htimeout n rfl
    rw [awaitEvent, if_neg (by simp [hname]), if_neg (by simp [hnonneg]), hnone]
    dsimp only
    rw [hrow]
    dsimp only
    rw [htask]
    exact if_pos h.state
  case claim =>
    intro now worker timeout qty s' claimed hclaim hclaimed
    have hs := step_claim hclaim
    have hspares : Spares t.taskId (.claim now worker timeout qty) := trivial
    have hr' := ((halted_step h hspares hs).2.runs r hid).mpr hr
    exact hrunning (running_of_claimed hclaim hr' hclaimed).1

/-- Whatever is called after a task was cancelled, short of cleaning it up, its row and its runs
stay as they were, nobody waits for it, it cannot be retried and nothing can be done with its
runs. Its steps stay too, when every worker records the steps of its own task. -/
theorem cancelled_forever (h : Reachable pg s) (ht : s.tasks.get? t.taskId = some t)
    (hcancelled : t.state = .cancelled) (hspares : ∀ l ∈ ls, Spares t.taskId l)
    (hrun : (machine pg).run s ls = some s') :
  Halted t s s'
    ∧ (∀ w ∈ s'.waits.rows, w.taskId ≠ t.taskId)
    ∧ (∀ r ∈ s'.runs.rows, r.taskId = t.taskId → Refused pg s' r)
    ∧ (∀ now spawnNew maxAttempts, (∀ n, maxAttempts = some n → 1 ≤ n) →
        retryTask pg s' now t.taskId spawnNew maxAttempts = .error .taskNotFailed)
    ∧ ((machine pg).Along RecordsOwn s ls → SameSteps t.taskId s s')
  := by
  have hstart : IsCancelled t s := .of_reachable h ht hcancelled
  obtain ⟨hend, hhalted⟩ := halted_run hstart hspares hrun
  refine ⟨hhalted, ?_, ?_, ?_, ?_⟩
  · exact hend.isOver.waits_ne
  · exact fun r hr hid => hend.refused hr hid
  · intro now spawnNew maxAttempts hmax
    apply hend.isOver.not_retried _ now spawnNew hmax
    rw [hend.state]
    exact TaskState.noConfusion
  · exact fun hown => sameSteps_run hstart hspares hown hrun

/-- The order is cancelled while a worker holds it. -/
def orderCancelled : QueueState := markCancelled orderClaimed 1 ⟨0⟩

/-- The row of the cancelled order. -/
def cancelledOrder : TaskRow :=
  (TaskRow.cancel 1).apply ((TaskRow.claim 0 (newRun ⟨1⟩ ⟨0⟩ 1 .pending 0 0)).apply
    (spawnedTask (.create .unpartitioned) 0 "ship_order" (.obj []) noOptions))

theorem orderCancelled_forever :
  ∃ s, (machine plainPostgres).run orderCancelled [.emit 2 "paid" none] = some s
    ∧ completeRun s 3 ⟨1⟩ none = .error .cancelled
  := by
  have hcancel : (machine plainPostgres).run orderClaimed [.cancel 1 ⟨0⟩]
      = some orderCancelled := rfl
  refine ⟨_, rfl, ?_⟩
  have hspares : ∀ l ∈ [Label.emit 2 "paid" none], Spares cancelledOrder.taskId l := by
    intro l hl
    rw [List.mem_singleton.mp hl]
    trivial
  have hforever := cancelled_forever (t := cancelledOrder) (reachable_orderClaimed.run hcancel) rfl
    rfl hspares rfl
  exact (hforever.2.2.1 _ (List.mem_singleton_self _) rfl).complete 3 none

end

end DjangoAbsurd.Engine
