import DjangoAbsurd.Engine.Sweep
import DjangoAbsurd.Library.Journeys

/-!
# Moves of a queue

A `Change` is what a call does to the tasks and the runs. A `Move` is what it does to all the
tables of the queue, the waits, the events and the checkpoints included, together with
everything the SQL checks before it. Every call is a journey of moves (`moves_step`), and an
emission is one move, since its parts are one statement.
-/

namespace DjangoAbsurd.Engine

/-- The payload an event was emitted with. -/
def QueueState.payloadOf (s : QueueState) (eventName : String) : Option Json :=
  (s.events.get? eventName).bind EventRow.payload

/-- The number of the attempt that recorded a checkpoint, when there is one. -/
def QueueState.recordedBy (s : QueueState) (id : Uuid) (stepName : String) : Option ℤ :=
  ((s.checkpoints.get? (id, stepName)).bind CheckpointRow.ownerRunId).bind
    (fun owner => (s.runs.get? owner).map RunRow.attempt)

/-! ### Changes of the whole queue -/

namespace Change

/-- The waits after a change: those of the runs it claims in time or ends are gone. -/
def waits (s : QueueState) : Change → Keyed.Table WaitRow.key
  | .claim now _ _ r => s.waits.delete (fun w => w.runId = r.runId ∧ w.timeoutAt.any (· ≤ now))
  | .complete _ r _ | .failForGood _ r _ | .failCancelled _ r _ | .failRetried _ r _ _ =>
      s.waits.delete (fun w => w.runId = r.runId)
  | .cancel _ id => s.waits.delete (fun w => w.taskId = id)
  | .delete batch => s.waits.delete (fun w => w.taskId ∈ batch)
  | _ => s.waits

/-- The checkpoints after a change: those of the tasks it deletes are gone. -/
def checkpoints (s : QueueState) : Change → Keyed.Table CheckpointRow.key
  | .delete batch => s.checkpoints.delete (fun c => c.taskId ∈ batch)
  | _ => s.checkpoints

/-- The change makes no run wait and wakes none. -/
def Plain : Change → Prop
  | .park _ _ | .wakeRun _ _ _ | .wakeTask _ | .adjust _ _ => False
  | _ => True

/-- The change starts no attempt and ends none. -/
def Quiet : Change → Prop
  | .park _ e | .adjust _ e => e.KeepsAttempt
  | .wakeRun _ _ _ | .wakeTask _ => True
  | _ => False

/-- What else is checked before a change. -/
def Checked (k : Lifecycle) : Change → Prop
  | .spawn now t => t.attempts = 1 ∧ t.enqueueAt = now ∧ ∀ n, t.maxAttempts = some n → 1 ≤ n
  | .claim now _ _ r => r.availableAt ≤ (now : WithTop Time)
  | .failRetried now r reason available =>
      (Change.failRetried now r reason available).AttemptsLeft k ∧ now ≤ available
  | .retry _ t n => t.attempts < n
  | _ => True

end Change

/-- The queue after a change. -/
def QueueState.change (s : QueueState) (c : Change) : QueueState where
  storage := (c.apply s.life).storage
  tasks := (c.apply s.life).tasks
  runs := (c.apply s.life).runs
  keys := (c.apply s.life).keys
  drawn := (c.apply s.life).drawn
  checkpoints := c.checkpoints s
  events := s.events
  waits := c.waits s

/-! ### Emissions -/

/-- The queue in which the event has its payload and the waits that are over are gone. -/
def announced (s : QueueState) (now : Time) (eventName : String) (payload : Json) : QueueState :=
  { s with events := s.events.put { eventName, payload := some payload, emittedAt := now } }.deleteWaits
    (fun w => w.eventName = eventName ∧ w.timeoutAt.any (· ≤ now))

/-- The waits an emission ends: the run sleeps. -/
def wokenWaits (s : QueueState) (eventName : String) : List WaitRow :=
  (s.waits.rows.filter (fun w => w.eventName = eventName)).filter
    (fun w => (s.runs.get? w.runId).any (·.state = .sleeping))

/-- What the first emission of an event makes of the queue. -/
def emitted (s : QueueState) (now : Time) (eventName : String) (payload : Json) : QueueState :=
  let s := announced s now eventName payload
  ((wokenWaits s eventName).filterMap (fun w => (s.runs.get? w.runId).map RunRow.taskId)).foldl
    (fun s id => s.updateTask id (TaskRow.withState .pending))
    ((wokenWaits s eventName).foldl (markWoken now payload) s)

/-- The first emission of an event. -/
theorem emitEvent_of_pending {s : QueueState} {now : Time} {eventName : String}
    {payload : Option Json} (hname : blank eventName = false)
    (hpending : s.payloadOf eventName = none) :
  emitEvent s now eventName payload = .ok (emitted s now eventName (payload.getD .null))
  := by
  rw [QueueState.payloadOf] at hpending
  rw [emitEvent, if_neg (by simp [hname]), if_neg (by simp [hpending])]
  rfl

/-! ### Moves -/

/-- The moves of a queue. -/
inductive Move where
  | change (c : Change)
  | sleep (r : RunRow) (wakeAt : WithTop Time)
  | extend (r : RunRow) (claimUntil : Time)
  | record (r : RunRow) (c : CheckpointRow)
  | ask (r : RunRow) (eventName : String)
  | receive (now : Time) (r : RunRow) (stepName eventName : String) (payload : Json)
  | giveUp (r : RunRow)
  | wait (now : Time) (r : RunRow) (stepName eventName : String) (timeoutAt : Option Time)
  | emit (now : Time) (eventName : String) (payload : Json)
  | forget (batch : List String)

namespace Move

/-- What is checked before a move. -/
def Allowed (s : QueueState) : Move → Prop
  | .change c => c.Allowed s.life ∧ c.Plain ∧ c.Checked s.life
  | .sleep r _ => r ∈ s.runs.rows ∧ r.state = .running
  | .extend r _ => r ∈ s.runs.rows
  | .record r c => r ∈ s.runs.rows ∧ r.state ≠ .failed ∧ c.ownerRunId = some r.runId
      ∧ (∃ t ∈ s.tasks.rows, t.taskId = r.taskId ∧ t.state ≠ .cancelled)
      ∧ ∀ n, s.recordedBy c.taskId c.checkpointName = some n → n ≤ r.attempt
  | .ask r eventName => r ∈ s.runs.rows ∧ r.state = .running ∧ blank eventName = false
  | .receive _ r stepName eventName payload => r ∈ s.runs.rows ∧ r.state = .running
      ∧ s.payloadOf eventName = some payload
      ∧ (s.checkpoints.get? (r.taskId, stepName)).bind CheckpointRow.state = none
  | .giveUp r => r ∈ s.runs.rows ∧ r.state = .running
  | .wait now r stepName eventName timeoutAt => r ∈ s.runs.rows ∧ r.state = .running
      ∧ blank eventName = false ∧ s.payloadOf eventName = none
      ∧ (s.checkpoints.get? (r.taskId, stepName)).bind CheckpointRow.state = none
      ∧ ∀ x, timeoutAt = some x → now ≤ x
  | .emit _ eventName _ => blank eventName = false ∧ s.payloadOf eventName = none
  | .forget _ => True

/-- What a move makes of a queue. -/
def apply (s : QueueState) : Move → QueueState
  | .change c => s.change c
  | .sleep r wakeAt => markScheduled s r wakeAt
  | .extend r claimUntil => s.updateRun r.runId (RunRow.extendClaim claimUntil)
  | .record _ c => s.putCheckpoint c
  | .ask r eventName => (ensureEvent s eventName).updateRun r.runId RunRow.clearPayload
  | .receive now r stepName _ payload => s.putCheckpoint
      { taskId := r.taskId, checkpointName := stepName, state := some payload,
        ownerRunId := some r.runId, updatedAt := now }
  | .giveUp r => s.updateRun r.runId RunRow.clearWakeEvent
  | .wait now r stepName eventName timeoutAt =>
      markWaiting s now r.taskId r.runId stepName eventName timeoutAt
  | .emit now eventName payload => emitted s now eventName payload
  | .forget batch => { s with events := s.events.delete (fun e => e.eventName ∈ batch) }

end Move

open Classical in
/-- The machine of the moves. -/
noncomputable def moves : Machine QueueState Move where
  step s m := if m.Allowed s then some (m.apply s) else none

/-- The moves a call may make. -/
def Label.Takes (l : Label) : Move → Prop
  | .change c => l.Makes c
  | .sleep r wakeAt => l = .schedule r.runId wakeAt
  | .extend r claimUntil =>
      (∃ now taskId stepName state extendBy, claimUntil = now + seconds extendBy
        ∧ l = .checkpoint now taskId stepName state r.runId (some extendBy))
      ∨ ∃ now extendBy, claimUntil = now + seconds extendBy ∧ l = .extend now r.runId extendBy
  | .record r c => ∃ now extendClaimBy, c.updatedAt = now
      ∧ l = .checkpoint now c.taskId c.checkpointName c.state r.runId extendClaimBy
  | .ask r eventName => ∃ now stepName timeout, l = .await now r.taskId r.runId stepName eventName timeout
  | .receive now r stepName eventName _ =>
      ∃ timeout, l = .await now r.taskId r.runId stepName eventName timeout
  | .giveUp r => ∃ now stepName eventName timeout,
      l = .await now r.taskId r.runId stepName eventName timeout
  | .wait now r stepName eventName timeoutAt => ∃ timeout, timeoutAt = timeout.map (fun n => now + seconds n)
      ∧ l = .await now r.taskId r.runId stepName eventName timeout
  | .emit now eventName payload => ∃ given : Option Json, payload = given.getD .null
      ∧ l = .emit now eventName given
  | .forget batch => ∃ now ttlSeconds limit, l = .cleanupEvents now ttlSeconds limit batch

theorem step_moves {s s' : QueueState} {m : Move} :
  moves.step s m = some s' ↔ m.Allowed s ∧ m.apply s = s'
  := by
  simp [moves]

section

variable {pg : Postgres} {P : Move → Prop} {s s' : QueueState}

/-- One move. -/
theorem leads_of {m : Move} (hallowed : m.Allowed s) (hP : P m) (hs : s' = m.apply s) :
  moves.Leads P s s'
  := .of (step_moves.mpr ⟨hallowed, hs.symm⟩) hP

/-- One change. -/
theorem leads_of_change {c : Change} (hallowed : c.Allowed s.life) (hplain : c.Plain)
    (hchecked : c.Checked s.life) (hP : P (.change c)) (hs : s' = s.change c) :
  moves.Leads P s s'
  := leads_of (m := .change c) ⟨hallowed, hplain, hchecked⟩ hP hs

/-! ### Spawning and retrying -/

/-- The options of a spawn that is not refused allow one attempt. -/
theorem maxAttempts_of_readSpawnOptions {options : Json} {read : SpawnOptions}
    (h : readSpawnOptions pg options = .ok read) {n : ℤ} (hn : read.maxAttempts = some n) :
  1 ≤ n
  := by
  simp only [readSpawnOptions, Bind.bind, Except.bind, pure, Except.pure] at h
  split at h
  · cases h
  · split at h
    · cases h
    · split at h
      · cases h
      · rename_i hmax
        cases h
        dsimp only at hn
        simpa [hn] using hmax

theorem moves_spawnTask {now : Time} {name : String} {params options : Json} {spawned : Spawned}
    (hdraw : ∀ drawn, P (.change (.draw drawn)))
    (hP : ∀ t : TaskRow, t.taskName = name → t.params = params →
      t.idempotencyKey = textMember options "idempotency_key" → P (.change (.spawn now t)))
    (hs : spawnTask pg s now name params options = .ok (s', spawned)) :
  moves.Leads P s s'
  := by
  simp only [spawnTask, Bind.bind, Except.bind, pure, Except.pure] at hs
  split at hs
  · cases hs
  · split at hs
    · cases hs
    · rename_i read hread
      split at hs
      · cases hs
      · rename_i hexisting
        split at hs
        · cases hs
          exact leads_of_change (c := .draw (s.drawn + 2)) (Nat.le_add_right _ _) trivial trivial
            (hdraw _) rfl
        · cases hs
          have hkey : ∀ key, read.idempotencyKey = some key → s.life.owner key = none := by
            intro key hkey
            rw [findExisting, hkey] at hexisting
            apply owner_of_findKey hexisting
          apply leads_of_change (c := .spawn now (spawnedTask s now name params read)) _ trivial _
            (hP _ rfl rfl (key_of_readSpawnOptions hread)) rfl
          · exact ⟨⟨rfl, rfl, rfl, rfl, rfl⟩, hkey⟩
          · exact ⟨rfl, rfl, fun n hn => maxAttempts_of_readSpawnOptions hread hn⟩

theorem moves_retryTask {now : Time} {id : Uuid} {spawnNew : Bool} {maxAttempts : Option ℤ}
    (hdraw : ∀ drawn, P (.change (.draw drawn)))
    (hspawn : spawnNew = true → ∀ t : TaskRow, t.idempotencyKey = none →
      P (.change (.spawn now t)))
    (hretry : spawnNew = false → ∀ (t : TaskRow) n, t.taskId = id → P (.change (.retry now t n)))
    {spawned : Spawned} (hs : retryTask pg s now id spawnNew maxAttempts = .ok (s', spawned)) :
  moves.Leads P s s'
  := by
  rw [retryTask] at hs
  split at hs
  · cases hs
  · split at hs
    · cases hs
    · rename_i t ht
      split at hs
      · rename_i hfailed
        split at hs
        · rename_i hnew
          apply moves_spawnTask hdraw _ hs
          intro t' _ _ hkey
          exact hspawn hnew t' (hkey.trans (key_respawnOptions t maxAttempts))
        · rename_i hold
          dsimp only at hs
          split at hs
          · cases hs
          · rename_i hmore
            cases hs
            exact leads_of_change (c := .retry now t _) ⟨Keyed.Table.mem_of_get? ht, hfailed⟩ trivial
              (not_le.mp hmore) (hretry (by simpa using hold) t _ (Keyed.Table.key_of_get? ht)) rfl
      · cases hs

/-! ### Cancelling, completing, scheduling and failing -/

theorem moves_cancelTask {now : Time} {id : Uuid} (hP : P (.change (.cancel now id)))
    (hs : cancelTask s now id = .ok s') :
  moves.Leads P s s'
  := by
  rw [cancelTask] at hs
  split at hs
  · cases hs
  · rename_i t ht
    split at hs
    · cases hs
      exact .refl
    · rename_i hlive
      cases hs
      apply leads_of_change (c := .cancel now id) _ trivial trivial hP rfl
      exact ⟨t, Keyed.Table.mem_of_get? ht, Keyed.Table.key_of_get? ht, by simpa using hlive⟩

theorem moves_completeRun {now : Time} {id : Uuid} {payload : Option Json}
    (hP : ∀ r : RunRow, r.runId = id → P (.change (.complete now r payload)))
    (hs : completeRun s now id payload = .ok s') :
  moves.Leads P s s'
  := by
  rw [completeRun] at hs
  split at hs
  · cases hs
  · rename_i r hr
    split at hs
    case h_1 hstate =>
      cases hs
      exact leads_of_change (c := .complete now r payload) ⟨Keyed.Table.mem_of_get? hr, hstate⟩ trivial
        trivial (hP r (Keyed.Table.key_of_get? hr)) rfl
    all_goals cases hs

theorem moves_scheduleRun {id : Uuid} {wakeAt : WithTop Time}
    (hP : ∀ r : RunRow, r.runId = id → P (.sleep r wakeAt)) (hs : scheduleRun s id wakeAt = .ok s') :
  moves.Leads P s s'
  := by
  rw [scheduleRun] at hs
  split at hs
  · cases hs
  · rename_i r hr
    split at hs
    · rename_i hstate
      cases hs
      exact leads_of (m := .sleep r wakeAt) ⟨Keyed.Table.mem_of_get? hr, hstate⟩
        (hP r (Keyed.Table.key_of_get? hr)) rfl
    · cases hs

/-- An active run fails by one change. -/
theorem moves_failActive {now : Time} {r : RunRow} {reason : Json} {retryAt : Option Time}
    (hP : FailsBy (fun c => P (.change c)) now r.runId reason) (hr : r ∈ s.runs.rows)
    (hactive : r.state = .running ∨ r.state = .sleeping)
    (hs : failActive pg s now r reason retryAt = .ok s') :
  moves.Leads P s s'
  := by
  have hgood : moves.Leads P s (failForGood s now r reason) :=
    leads_of_change (c := .failForGood now r reason) ⟨hr, hactive⟩ trivial trivial
      (hP.forGood r rfl) rfl
  simp only [failActive, Bind.bind, Except.bind, pure, Except.pure] at hs
  split at hs
  · cases hs
    exact hgood
  · rename_i hattempts
    split at hs
    · cases hs
    · split at hs
      · cases hs
        exact leads_of_change (c := .failCancelled now r reason) ⟨hr, hactive⟩ trivial trivial
          (hP.cancelled r rfl) rfl
      · split at hs
        · cases hs
          exact hgood
        · rename_i available havailable
          cases hs
          exact leads_of_change (c := .failRetried now r reason available) ⟨hr, hactive⟩ trivial
            ⟨Bool.eq_false_iff.mpr hattempts, le_nextAvailable havailable⟩ (hP.retried r _ rfl) rfl

theorem moves_failRun {now : Time} {id : Uuid} {reason : Json} {retryAt : Option Time}
    (hP : FailsBy (fun c => P (.change c)) now id reason)
    (hs : failRun pg s now id reason retryAt = .ok s') :
  moves.Leads P s s'
  := by
  rw [failRun] at hs
  split at hs
  · cases hs
  · rename_i r hr
    have hmem := Keyed.Table.mem_of_get? hr
    obtain rfl := Keyed.Table.key_of_get? hr
    split at hs
    · cases hs
    · cases hs
    · rename_i hstate
      apply moves_failActive hP hmem (.inl hstate) hs
    · rename_i hstate
      apply moves_failActive hP hmem (.inr hstate) hs
    · cases hs

/-! ### Claiming -/

theorem moves_claimRuns {now : Time} {worker : String} {claimUntil : Option Time}
    (hP : ∀ r, P (.change (.claim now worker claimUntil r))) {claimed : List RunRow}
    (hrows : ∀ r ∈ claimed, r ∈ s.runs.rows ∧ (r.state = .pending ∨ r.state = .sleeping)
      ∧ r.availableAt ≤ (now : WithTop Time))
    (hnodup : (claimed.map RunRow.runId).Nodup) :
  moves.Leads P s (claimed.foldl (markClaimed now worker claimUntil) s)
  := by
  induction claimed generalizing s with
  | nil => exact .refl
  | cons r claimed ih =>
      rw [List.map_cons, List.nodup_cons] at hnodup
      obtain ⟨hr, hwaiting, hdue⟩ := hrows r List.mem_cons_self
      have hclaim : moves.Leads P s (markClaimed now worker claimUntil s r) :=
        leads_of_change (c := .claim now worker claimUntil r) ⟨hr, hwaiting⟩ trivial hdue (hP r) rfl
      apply hclaim.trans
      apply ih _ hnodup.2
      intro r' hr'
      obtain ⟨hmem, hrest⟩ := hrows r' (List.mem_cons_of_mem r hr')
      refine ⟨Keyed.Table.mem_update.mpr ⟨r', hmem, ?_⟩, hrest⟩
      rw [if_neg]
      intro heq
      apply hnodup.1
      rw [← of_decide_eq_true heq]
      exact List.mem_map_of_mem hr'

/-- A run a claim takes is due. -/
theorem due_of_mem_claimCandidates {now : Time} {limit : ℕ} {r : RunRow}
    (hr : r ∈ claimCandidates pg s now limit) :
  r.availableAt ≤ (now : WithTop Time)
  := by
  have hmem := List.mem_mergeSort.mp (List.mem_of_mem_take hr)
  exact (of_decide_eq_true (List.mem_filter.mp hmem).2).2.2

theorem moves_claimTask {now : Time} {worker : String} {timeout qty : ℤ} {claimed : List Uuid}
    (hcancel : ∀ id, P (.change (.cancel now id)))
    (hfail : ∀ id reason, FailsBy (fun c => P (.change c)) now id reason)
    (hclaim : ∀ worker claimUntil r, P (.change (.claim now worker claimUntil r)))
    (hs : claimTask pg s now worker timeout qty = .ok (s', claimed)) :
  moves.Leads P s s'
  := by
  obtain ⟨due, s₁, s₂, -, hcancelled, hswept, -, rfl⟩ := claimTask_eq_ok hs
  have hcancels : moves.Leads P s s₁ :=
    .foldlM (fun s id _ s' hs => moves_cancelTask (hcancel id) hs) hcancelled
  have hsweeps : moves.Leads P s₁ s₂ :=
    .foldlM (fun s r _ s' hs => moves_failRun (hfail _ _) hs) hswept
  apply (hcancels.trans hsweeps).trans
  apply moves_claimRuns (hclaim _ _) _ (nodup_claimCandidates _ _ _ _)
  intro r hr
  obtain ⟨hmem, hwaiting⟩ := mem_claimCandidates hr
  exact ⟨hmem, hwaiting, due_of_mem_claimCandidates hr⟩

/-! ### Checkpoints and leases -/

theorem moves_setTaskCheckpointState {now : Time} {taskId : Uuid} {stepName : String}
    {state : Option Json} {ownerRun : Uuid} {extendClaimBy : Option ℤ}
    (hextend : ∀ (r : RunRow) extendBy, extendClaimBy = some extendBy → r.runId = ownerRun →
      P (.extend r (now + seconds extendBy)))
    (hrecord : ∀ r : RunRow, r.runId = ownerRun →
      P (.record r { taskId, checkpointName := stepName, state, ownerRunId := some r.runId,
                     updatedAt := now }))
    (hs : setTaskCheckpointState s now taskId stepName state ownerRun extendClaimBy = .ok s') :
  moves.Leads P s s'
  := by
  unfold setTaskCheckpointState at hs
  split at hs
  · cases hs
  · split at hs
    · cases hs
    · rename_i r hr
      obtain rfl := Keyed.Table.key_of_get? hr
      have hmem : r ∈ s.runs.rows := Keyed.Table.mem_of_get? hr
      split at hs
      · cases hs
      · rename_i t ht
        split at hs
        · cases hs
        · rename_i hlive
          split at hs
          · cases hs
          · rename_i hfailed
            extract_lets s₁ attempt? at hs
            have h₁ : moves.Leads P s s₁ ∧ s₁.tasks = s.tasks
                ∧ ∃ r₁ ∈ s₁.runs.rows, r₁.runId = r.runId ∧ r₁.taskId = r.taskId
                  ∧ r₁.attempt = r.attempt ∧ r₁.state = r.state := by
              have hsame : ∃ r₁ ∈ s.runs.rows, r₁.runId = r.runId ∧ r₁.taskId = r.taskId
                  ∧ r₁.attempt = r.attempt ∧ r₁.state = r.state := ⟨r, hmem, rfl, rfl, rfl, rfl⟩
              simp only [s₁]
              split
              · rename_i extendBy
                split
                · constructor
                  · exact leads_of (m := .extend r (now + seconds extendBy)) hmem
                      (hextend r extendBy rfl rfl) rfl
                  · have hrow := mem_updateRun hmem (RunRow.extendClaim (now + seconds extendBy))
                    exact ⟨rfl, _, hrow, (RunRow.extendClaim _).key_apply r,
                      (RunRow.extendClaim _).taskId_apply r, keepsAttempt_extendClaim _ r,
                      (keeps_extendClaim _).state r⟩
                · exact ⟨.refl, rfl, hsame⟩
              · exact ⟨.refl, rfl, hsame⟩
            obtain ⟨hleads, htasks, r₁, hr₁, hid, htask, hattempt, hstate⟩ := h₁
            split at hs
            · rename_i hall
              obtain rfl := Except.ok.inj hs
              apply hleads.trans
              have hrecords := hrecord r₁ hid
              rw [hid] at hrecords
              apply leads_of (m := .record r₁ _) ⟨hr₁, _, _, _, _⟩ hrecords rfl
              · rw [hstate]
                exact hfailed
              · exact congrArg some hid.symm
              · use t, htasks ▸ Keyed.Table.mem_of_get? ht
                exact ⟨(Keyed.Table.key_of_get? ht).trans htask.symm, hlive⟩
              · intro n hn
                rw [hattempt]
                have hle := (Option.all_eq_true ..).mp hall n hn
                exact of_decide_eq_true hle
            · obtain rfl := Except.ok.inj hs
              exact hleads

theorem moves_extendClaim {now : Time} {id : Uuid} {extendBy : ℤ}
    (hP : ∀ r : RunRow, r.runId = id → P (.extend r (now + seconds extendBy)))
    (hs : extendClaim s now id extendBy = .ok s') :
  moves.Leads P s s'
  := by
  rw [extendClaim] at hs
  split at hs
  · cases hs
  · split at hs
    · cases hs
    · rename_i r hr
      obtain rfl := Keyed.Table.key_of_get? hr
      have hextend : moves.Leads P s
          (s.updateRun r.runId (RunRow.extendClaim (now + seconds extendBy))) :=
        leads_of (m := .extend r (now + seconds extendBy)) (Keyed.Table.mem_of_get? hr) (hP r rfl) rfl
      repeat' split at hs
      all_goals first | cases hs; done | skip
      cases hs
      exact hextend

/-! ### Events -/

/-- The event of a call that makes sure that there is a row has the payload it had. -/
theorem payloadOf_ensureEvent (s : QueueState) (eventName eventName' : String) :
  (ensureEvent s eventName).payloadOf eventName' = s.payloadOf eventName'
  := by
  rw [ensureEvent]
  split
  · rfl
  · rename_i hnone
    rw [QueueState.payloadOf, QueueState.payloadOf]
    by_cases heq : eventName' = eventName
    · rw [heq, hnone, Keyed.Table.get?_put_self s.events
        { eventName, payload := none, emittedAt := 0 }]
      rfl
    · rw [Keyed.Table.get?_put_of_ne s.events heq]

theorem checkpoints_ensureEvent (s : QueueState) (eventName : String) :
  (ensureEvent s eventName).checkpoints = s.checkpoints
  := by
  rw [ensureEvent]
  split <;> rfl

theorem waits_ensureEvent (s : QueueState) (eventName : String) :
  (ensureEvent s eventName).waits = s.waits
  := by
  rw [ensureEvent]
  split <;> rfl

/-- A wait that is not refused is not over before it starts. -/
theorem le_timeoutAt {now : Time} {timeout : Option ℤ} (h : timeout.any (· < 0) = false) :
  ∀ x, timeout.map (fun n => now + seconds n) = some x → now ≤ x
  := by
  intro x hx
  obtain ⟨n, hn, rfl⟩ := Option.map_eq_some_iff.mp hx
  have hnonneg : 0 ≤ n := by simpa [hn] using h
  apply Int.le_add_of_nonneg_right
  rw [seconds]
  omega

theorem moves_awaitEvent {now : Time} {taskId runId : Uuid} {stepName eventName : String}
    {timeout : Option ℤ} {suspend : Bool} {payload : Option Json}
    (htask : ∀ r, s.runs.get? runId = some r → r.taskId = taskId)
    (hP : ∀ r : RunRow, r.runId = runId → r.taskId = taskId → P (.ask r eventName)
      ∧ (∀ payload, P (.receive now r stepName eventName payload)) ∧ P (.giveUp r)
      ∧ P (.wait now r stepName eventName (timeout.map (fun n => now + seconds n))))
    (hs : awaitEvent s now taskId runId stepName eventName timeout = .ok (s', suspend, payload)) :
  moves.Leads P s s'
  := by
  rw [awaitEvent] at hs
  split at hs
  · cases hs
  · rename_i hname
    split at hs
    · cases hs
    · rename_i hnonneg
      split at hs
      · cases hs
        exact .refl
      · rename_i hfresh
        split at hs
        · cases hs
        · rename_i r hr
          split at hs
          · cases hs
          · split at hs
            · cases hs
            · split at hs
              · cases hs
              · rename_i hrunning
                have hstate : r.state = .running := Decidable.not_not.mp hrunning
                have hblank : blank eventName = false := by simpa using hname
                obtain rfl := htask r hr
                obtain rfl := Keyed.Table.key_of_get? hr
                have hmem : r ∈ s.runs.rows := Keyed.Table.mem_of_get? hr
                obtain ⟨hask, hreceive, hgiveUp, hwait⟩ :=
                  hP (RunRow.clearPayload.apply r) rfl rfl
                extract_lets s₁ at hs
                have hmem₁ : RunRow.clearPayload.apply r ∈ s₁.runs.rows :=
                  mem_updateRun (s := ensureEvent s eventName)
                    (by rwa [runs_ensureEvent]) RunRow.clearPayload
                have hstate₁ : (RunRow.clearPayload.apply r).state = .running := hstate
                have hfresh₁ : (s₁.checkpoints.get? (r.taskId, stepName)).bind CheckpointRow.state
                    = none := by
                  rw [show s₁.checkpoints = s.checkpoints from checkpoints_ensureEvent s eventName]
                  exact hfresh
                have h₁ : moves.Leads P s s₁ :=
                  leads_of (m := .ask r eventName) ⟨hmem, hstate, hblank⟩ (hP r rfl rfl).1 rfl
                split at hs
                · rename_i payload' hpayload
                  cases hs
                  exact h₁.trans (leads_of (m := .receive now (RunRow.clearPayload.apply r) stepName
                    eventName payload') ⟨hmem₁, hstate₁, hpayload, hfresh₁⟩ (hreceive _) rfl)
                · rename_i hpayload
                  split at hs
                  · cases hs
                    exact h₁.trans (leads_of (m := .giveUp (RunRow.clearPayload.apply r))
                      ⟨hmem₁, hstate₁⟩ hgiveUp rfl)
                  · cases hs
                    have hlater : ∀ x, timeout.map (fun n => now + seconds n) = some x → now ≤ x :=
                      le_timeoutAt (Bool.eq_false_iff.mpr hnonneg)
                    exact h₁.trans (leads_of (m := .wait now (RunRow.clearPayload.apply r) stepName
                      eventName _) ⟨hmem₁, hstate₁, hblank, hpayload, hfresh₁, hlater⟩ hwait rfl)

theorem moves_emitEvent {now : Time} {eventName : String} {payload : Option Json}
    (hP : P (.emit now eventName (payload.getD .null)))
    (hs : emitEvent s now eventName payload = .ok s') :
  moves.Leads P s s'
  := by
  cases hname : blank eventName with
  | true =>
      rw [emitEvent, if_pos hname] at hs
      cases hs
  | false =>
      cases hpayload : s.payloadOf eventName with
      | some payload' =>
          rw [QueueState.payloadOf] at hpayload
          rw [emitEvent, if_neg (by simp [hname]), if_pos (by simp [hpayload])] at hs
          cases hs
          exact .refl
      | none =>
          rw [emitEvent_of_pending hname hpayload] at hs
          cases hs
          exact leads_of (m := .emit now eventName _) ⟨hname, hpayload⟩ hP rfl

/-! ### Every call -/

/-- Every call is a journey of moves it may make. -/
theorem moves_step {l : Label} (hs : step pg s l = some s') :
  moves.Leads l.Takes s s'
  := by
  obtain ⟨hown, hs⟩ := step_eq_some.mp hs
  cases l with
  | spawn now name params options =>
      obtain ⟨⟨_, spawned⟩, hspawn, rfl⟩ := Except.map_eq_ok (Except.toOption_eq_some.mp hs)
      apply moves_spawnTask (fun _ => trivial) _ hspawn
      rintro t rfl rfl hkey
      exact .inl ⟨options, rfl, hkey⟩
  | claim now worker claimTimeout qty =>
      obtain ⟨⟨_, claimed⟩, hclaim, rfl⟩ := Except.map_eq_ok (Except.toOption_eq_some.mp hs)
      apply moves_claimTask _ _ _ hclaim
      · exact fun id => .inr ⟨_, _, _, rfl⟩
      · exact fun id reason => ⟨fun _ _ => .inr ⟨_, _, _, rfl⟩, fun _ _ => .inr ⟨_, _, _, rfl⟩,
          fun _ _ _ => .inr ⟨_, _, _, rfl⟩⟩
      · exact fun _ _ _ => ⟨_, _, _, rfl⟩
  | complete now runId payload =>
      apply moves_completeRun _ (Except.toOption_eq_some.mp hs)
      rintro r rfl
      rfl
  | schedule runId wakeAt =>
      apply moves_scheduleRun _ (Except.toOption_eq_some.mp hs)
      rintro r rfl
      rfl
  | fail now runId reason retryAt =>
      apply moves_failRun _ (Except.toOption_eq_some.mp hs)
      constructor
      · rintro r rfl
        exact .inl ⟨retryAt, rfl⟩
      · rintro r rfl
        exact .inl ⟨retryAt, rfl⟩
      · rintro r available rfl
        exact .inl ⟨retryAt, rfl⟩
  | retry now taskId spawnNew maxAttempts =>
      obtain ⟨⟨_, spawned⟩, hretry, rfl⟩ := Except.map_eq_ok (Except.toOption_eq_some.mp hs)
      apply moves_retryTask (fun _ => trivial) _ _ hretry
      · rintro rfl t hkey
        exact .inr ⟨taskId, maxAttempts, rfl, hkey⟩
      · rintro rfl t n rfl
        exact ⟨maxAttempts, rfl⟩
  | cancel now taskId => exact moves_cancelTask (.inl rfl) (Except.toOption_eq_some.mp hs)
  | checkpoint now taskId stepName state ownerRun extendClaimBy =>
      apply moves_setTaskCheckpointState _ _ (Except.toOption_eq_some.mp hs)
      · rintro r extendBy rfl rfl
        exact .inl ⟨now, taskId, stepName, state, extendBy, rfl, rfl⟩
      · rintro r rfl
        exact ⟨now, extendClaimBy, rfl, rfl⟩
  | extend now runId extendBy =>
      apply moves_extendClaim _ (Except.toOption_eq_some.mp hs)
      rintro r rfl
      exact .inr ⟨now, extendBy, rfl, rfl⟩
  | await now taskId runId stepName eventName timeout =>
      obtain ⟨⟨_, suspend, payload⟩, hawait, rfl⟩ :=
        Except.map_eq_ok (Except.toOption_eq_some.mp hs)
      apply moves_awaitEvent _ _ hawait
      · intro r hr
        rw [AwaitsOwn, hr] at hown
        simpa using hown
      · rintro r rfl rfl
        exact ⟨⟨now, stepName, timeout, rfl⟩, fun _ => ⟨timeout, rfl⟩,
          ⟨now, stepName, eventName, timeout, rfl⟩, ⟨timeout, rfl, rfl⟩⟩
  | emit now eventName payload =>
      exact moves_emitEvent ⟨payload, rfl, rfl⟩ (Except.toOption_eq_some.mp hs)
  | cleanupTasks now ttlSeconds limit batch =>
      rw [call, cleanupTasks] at hs
      split at hs
      · cases hs
        exact leads_of_change (c := .delete batch) trivial trivial trivial ⟨now, ttlSeconds, limit, rfl⟩
          rfl
      · cases hs
  | cleanupEvents now ttlSeconds limit batch =>
      rw [call, cleanupEvents] at hs
      split at hs
      · cases hs
        exact leads_of (m := .forget batch) trivial ⟨now, ttlSeconds, limit, rfl⟩ rfl
      · cases hs

/-! ### What moves preserve -/

/-- What a move that is no change does to the tasks and the runs is a run of quiet changes. -/
theorem lives_quiet {m : Move} (hquiet : ∀ c, m ≠ .change c) (hallowed : m.Allowed s) :
  Lives Change.Quiet s (m.apply s)
  := by
  cases m with
  | change c => exact absurd rfl (hquiet c)
  | sleep r wakeAt =>
      exact .of (c := .park r (RunRow.sleep wakeAt)) ⟨hallowed.1, hallowed.2, parks_sleep wakeAt⟩
        (fun _ => rfl) rfl
  | extend r claimUntil =>
      exact .of (c := .adjust r (RunRow.extendClaim claimUntil))
        ⟨hallowed, keeps_extendClaim claimUntil⟩ (keepsAttempt_extendClaim claimUntil) rfl
  | ask r eventName =>
      apply Lives.of (c := .adjust r RunRow.clearPayload) ⟨hallowed.1, keeps_clearPayload⟩ (fun _ => rfl)
      rw [← life_ensureEvent s eventName]
      rfl
  | giveUp r =>
      exact .of (c := .adjust r RunRow.clearWakeEvent) ⟨hallowed.1, keeps_clearWakeEvent⟩
        (fun _ => rfl) rfl
  | wait now r stepName eventName timeoutAt =>
      exact .of (c := .park r (RunRow.wait eventName timeoutAt))
        ⟨hallowed.1, hallowed.2.1, parks_wait eventName timeoutAt⟩ (fun _ => rfl) rfl
  | emit now eventName payload =>
      apply refines_emitEvent (fun _ _ => trivial) (fun _ => trivial)
      show emitEvent s now eventName (some payload) = .ok (emitted s now eventName payload)
      exact emitEvent_of_pending hallowed.1 hallowed.2
  | record _ _ | receive _ _ _ _ _ | forget _ => exact .refl

theorem consistent_move {m : Move} (h : s.life.Consistent) (hallowed : m.Allowed s) :
  (m.apply s).life.Consistent
  := by
  cases m with
  | change c => exact h.step (step_lifecycle.mpr ⟨hallowed.1, rfl⟩)
  | _ => exact (lives_quiet (fun _ heq => by cases heq) hallowed).consistent h

/-- The id of a new task is not the id of a task that is there. -/
theorem taskId_ne_of_fresh {k : Lifecycle} (h : k.Consistent) {t t' : TaskRow}
    (ht : t ∈ k.tasks.rows) (hfresh : t'.Fresh k.drawn) :
  t'.taskId ≠ t.taskId
  := by
  intro hid
  have hdrawn := h.taskDrawn t ht
  rw [← hid, hfresh.taskId] at hdrawn
  exact absurd hdrawn (Nat.lt_irrefl _)

/-- The changes of the tasks and the runs a move makes. -/
def Move.Shows (m : Move) (k : Lifecycle) (c : Change) : Prop :=
  m = .change c ∧ c.Plain ∧ c.Checked k ∨ c.Quiet

theorem Move.Shows.numbered {m : Move} {k : Lifecycle} {c : Change} (h : m.Shows k c) :
  c.Numbered
  := by
  rcases h with ⟨-, hplain, -⟩ | hquiet
  · cases c with
    | park | adjust => exact hplain.elim
    | _ => trivial
  · cases c with
    | park | adjust => exact hquiet
    | _ => trivial

/-- What the changes a move makes preserve of consistent tasks and runs is preserved by it. -/
theorem preserved_move {J : Lifecycle → Prop} {m : Move} (h : s.life.Consistent)
    (hallowed : m.Allowed s)
    (hchange : ∀ k c, m.Shows k c → c.Allowed k → k.Consistent → J k → J (c.apply k))
    (hJ : J s.life) :
  J (m.apply s).life
  := by
  have hquiet : (∀ c, m ≠ .change c) → J (m.apply s).life := by
    intro hne
    apply And.right
    apply (lives_quiet hne hallowed).invariant (I := fun k => k.Consistent ∧ J k) _ ⟨h, hJ⟩
    rintro k c hq hc ⟨hk, hJ⟩
    exact ⟨hk.step (step_lifecycle.mpr ⟨hc, rfl⟩), hchange k c (.inr hq) hc hk hJ⟩
  cases m with
  | change c => exact hchange _ c (.inl ⟨rfl, hallowed.2⟩) hallowed.1 h hJ
  | _ => exact hquiet (fun _ heq => by cases heq)

variable {I : QueueState → Prop} {D : Label → Prop}

/-- What the moves a call may make preserve of a consistent queue is preserved by the call. -/
theorem preserved_of_moves {l : Label}
    (hmove : ∀ s m, l.Takes m → m.Allowed s → s.life.Consistent → I s → I (m.apply s))
    (h : s.life.Consistent) (hI : I s) (hs : step pg s l = some s') :
  I s' ∧ s'.life.Consistent
  := by
  apply (moves_step hs).invariant (I := fun s => I s ∧ s.life.Consistent) _ ⟨hI, h⟩
  rintro s m s' htakes ⟨hI, h⟩ hm
  obtain ⟨hallowed, rfl⟩ := step_moves.mp hm
  exact ⟨hmove s m htakes hallowed h hI, consistent_move h hallowed⟩

/-- What the moves of the calls satisfying `D` preserve is preserved by a run of such calls. -/
theorem preserved_along {ls : List Label}
    (hmove : ∀ s l m, D l → l.Takes m → m.Allowed s → s.life.Consistent → I s → I (m.apply s))
    (h : s.life.Consistent) (hI : I s) (hD : ∀ l ∈ ls, D l)
    (hrun : (machine pg).run s ls = some s') :
  I s' ∧ s'.life.Consistent
  := by
  have halong : (machine pg).Along (fun _ l => D l) s ls :=
    Machine.along_of_forall (fun _ l hl => hD l hl)
  apply Machine.invariant_along (I := fun s => I s ∧ s.life.Consistent) _ halong ⟨hI, h⟩ hrun
  rintro s l s' hDl ⟨hI, h⟩ hs
  exact preserved_of_moves (fun s m => hmove s l m hDl) h hI hs

/-- What every move preserves holds of every queue calls lead to, when it holds of the new
ones. -/
theorem of_reachable (hcreate : ∀ storage, I (.create storage))
    (hmove : ∀ s (m : Move), m.Allowed s → s.life.Consistent → I s → I (m.apply s))
    (h : Reachable pg s) :
  I s
  := by
  obtain ⟨storage, ls, hrun⟩ := reachable_iff.mp h
  exact (preserved_along (D := fun _ => True) (fun s _ m _ _ => hmove s m) (.create storage)
    (hcreate storage) (fun _ _ => trivial) hrun).1

end

end DjangoAbsurd.Engine
