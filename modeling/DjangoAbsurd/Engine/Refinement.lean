import DjangoAbsurd.Engine.Lifecycle

/-!
# Every call is a run of changes

One lemma for each SQL function: what it does to the tasks and the runs of a sound queue is
a run of `lifecycle`, and `Label.Makes` says which changes a call may make. `refines_step`
collects them and `refines_run` says the same of a run of calls.
-/

namespace DjangoAbsurd.Engine

/-- The changes a call may make. -/
def Label.Makes (l : Label) : Change → Prop
  | .draw _ => True
  | .spawn now t =>
      (∃ options, l = .spawn now t.taskName t.params options
        ∧ t.idempotencyKey = textMember options "idempotency_key")
      ∨ ∃ id maxAttempts, l = .retry now id true maxAttempts ∧ t.idempotencyKey = none
  | .claim now _ _ _ => ∃ worker claimTimeout qty, l = .claim now worker claimTimeout qty
  | .park r _ =>
      (∃ wakeAt, l = .schedule r.runId wakeAt)
      ∨ ∃ now stepName eventName timeout, l = .await now r.taskId r.runId stepName eventName timeout
  | .wakeRun now _ _ => ∃ eventName payload, l = .emit now eventName payload
  | .wakeTask _ => ∃ now eventName payload, l = .emit now eventName payload
  | .adjust r _ =>
      (∃ now taskId stepName state extendClaimBy,
        l = .checkpoint now taskId stepName state r.runId extendClaimBy)
      ∨ (∃ now extendBy, l = .extend now r.runId extendBy)
      ∨ ∃ now stepName eventName timeout, l = .await now r.taskId r.runId stepName eventName timeout
  | .complete now r payload => l = .complete now r.runId payload
  | .failForGood now r reason | .failCancelled now r reason | .failRetried now r reason _ =>
      (∃ retryAt, l = .fail now r.runId reason retryAt)
      ∨ ∃ worker claimTimeout qty, l = .claim now worker claimTimeout qty
  | .cancel now id =>
      l = .cancel now id ∨ ∃ worker claimTimeout qty, l = .claim now worker claimTimeout qty
  | .retry now t _ => ∃ maxAttempts, l = .retry now t.taskId false maxAttempts
  | .delete batch => ∃ now ttlSeconds limit, l = .cleanupTasks now ttlSeconds limit batch

/-- One queue leads to the other by changes satisfying `P`. -/
def Lives (P : Change → Prop) (s s' : QueueState) : Prop :=
  ∃ cs, lifecycle.run s.life cs = some s'.life ∧ ∀ c ∈ cs, P c

section

variable {pg : Postgres} {P : Change → Prop} {s s' s₁ s₂ s₃ : QueueState}

/-- Nothing changes but the ids drawn and what is no part of a lifecycle. -/
theorem Lives.draw (hP : ∀ drawn, P (.draw drawn)) (htasks : s'.tasks = s.tasks)
    (hruns : s'.runs = s.runs) (hkeys : s'.keys = s.keys) (hstorage : s'.storage = s.storage)
    (hdrawn : s.drawn ≤ s'.drawn) :
  Lives P s s'
  := by
  have hallowed : (Change.draw s'.drawn).Allowed s.life := hdrawn
  use [.draw s'.drawn]
  constructor
  · rw [run_singleton hallowed, Change.apply, QueueState.life, QueueState.life, htasks, hruns, hkeys,
      hstorage]
  · intro c hc
    obtain rfl := List.mem_singleton.mp hc
    apply hP

theorem Lives.refl : Lives P s s := ⟨[], rfl, fun _ hc => absurd hc List.not_mem_nil⟩

/-- One change. -/
theorem Lives.of {c : Change} (hallowed : c.Allowed s.life) (hP : P c)
    (hlife : s'.life = c.apply s.life) :
  Lives P s s'
  := by
  use [c]
  constructor
  · rw [run_singleton hallowed, hlife]
  · intro c' hc'
    obtain rfl := List.mem_singleton.mp hc'
    exact hP

theorem Lives.trans (h : Lives P s₁ s₂) (h' : Lives P s₂ s₃) :
  Lives P s₁ s₃
  := by
  obtain ⟨cs, hrun, hP⟩ := h
  obtain ⟨cs', hrun', hP'⟩ := h'
  use cs ++ cs', run_append_of hrun hrun'
  intro c hc
  rcases List.mem_append.mp hc with hc | hc
  · exact hP c hc
  · exact hP' c hc

theorem Lives.mono {Q : Change → Prop} (hPQ : ∀ c, P c → Q c) (h : Lives P s s') :
  Lives Q s s'
  := by
  obtain ⟨cs, hrun, hcs⟩ := h
  exact ⟨cs, hrun, fun c hc => hPQ c (hcs c hc)⟩

/-- What every change satisfying `P` preserves is preserved by changes satisfying `P`. -/
theorem Lives.invariant {I : Lifecycle → Prop}
    (hstep : ∀ k c, P c → c.Allowed k → I k → I (c.apply k)) (h : Lives P s s') (hI : I s.life) :
  I s'.life
  := by
  obtain ⟨cs, hrun, hcs⟩ := h
  have halong : lifecycle.Along (fun _ c => P c) s.life cs :=
    Machine.along_of_forall (fun _ c hc => hcs c hc)
  apply Machine.invariant_along _ halong hI hrun
  intro k c k' hc hI hs
  obtain ⟨hallowed, rfl⟩ := step_lifecycle.mp hs
  exact hstep k c hc hallowed hI

/-- What holds of every step of a fold holds of the fold. -/
theorem Lives.foldlM {α ε : Type} {f : QueueState → α → Except ε QueueState} {as : List α}
    (hf : ∀ s, ∀ a ∈ as, ∀ s', f s a = .ok s' → Lives P s s') (hs : as.foldlM f s = .ok s') :
  Lives P s s'
  := by
  induction as generalizing s with
  | nil =>
      obtain rfl : s = s' := Except.ok.inj hs
      exact .refl
  | cons a as ih =>
      rw [List.foldlM_cons] at hs
      cases hfa : f s a with
      | error e =>
          rw [hfa] at hs
          cases hs
      | ok s₁ =>
          rw [hfa] at hs
          apply (hf s a List.mem_cons_self s₁ hfa).trans
          exact ih (fun s a' ha' => hf s a' (List.mem_cons_of_mem a ha')) hs

/-! ### Spawning -/

/-- A key no task has is no task's key in the tables of the lifecycle. -/
theorem owner_of_findKey {key : String} (h : findKey s key = .ok none) :
  s.life.owner key = none
  := by
  rw [findKey] at h
  rw [Lifecycle.owner, QueueState.life]
  split at h <;> rename_i hstorage <;> simp only [hstorage]
  · have hnone := Option.map_eq_none_iff.mp (Except.ok.inj h)
    rw [hnone]
    rfl
  · split at h
    · rename_i hnone
      rw [hnone]
      rfl
    · split at h
      · cases h
      · split at h <;> cases h

/-- The key `absurd.spawn_task` reads. -/
theorem key_of_readSpawnOptions {options : Json} {read : SpawnOptions}
    (h : readSpawnOptions pg options = .ok read) :
  read.idempotencyKey = textMember options "idempotency_key"
  := by
  simp only [readSpawnOptions, Bind.bind, Except.bind, pure, Except.pure] at h
  split at h
  · cases h
  · split at h
    · cases h
    · split at h
      · cases h
      · cases h
        rfl

/-- A task found by its key has that key, and was not created. -/
theorem findKey_eq_ok {key : String} {found : Spawned} (h : findKey s key = .ok (some found)) :
  s.life.owner key = some found.taskId ∧ found.created = false
  := by
  rw [findKey] at h
  rw [Lifecycle.owner, QueueState.life]
  split at h <;> rename_i hstorage <;> simp only [hstorage]
  · obtain ⟨t, ht, rfl⟩ := Option.map_eq_some_iff.mp (Except.ok.inj h)
    rw [ht]
    exact ⟨rfl, rfl⟩
  · split at h
    · cases h
    · rename_i row hrow
      split at h
      · cases h
      · rename_i t ht
        split at h
        · cases h
        · cases h
          rw [hrow]
          exact ⟨congrArg some (Keyed.Table.key_of_get? ht).symm, rfl⟩

/-- A spawn returns the task of its key, or puts in a new task when there is none. -/
theorem spawnTask_eq_ok {now : Time} {name : String} {params options : Json} {spawned : Spawned}
    (hs : spawnTask pg s now name params options = .ok (s', spawned)) :
  ∃ read : SpawnOptions, read.idempotencyKey = textMember options "idempotency_key"
    ∧ ((findExisting s read = .ok (some spawned) ∧ s' = { s with drawn := s.drawn + 2 })
      ∨ (findExisting s read = .ok none
        ∧ s' = insertSpawned s now (spawnedTask s now name params read)
        ∧ spawned = ⟨⟨s.drawn⟩, some ⟨s.drawn + 1⟩, 1, true⟩))
  := by
  simp only [spawnTask, Bind.bind, Except.bind, pure, Except.pure] at hs
  split at hs
  · cases hs
  · split at hs
    · cases hs
    · rename_i read hread
      use read, key_of_readSpawnOptions hread
      split at hs
      · cases hs
      · rename_i existing hexisting
        split at hs
        · cases hs
          exact .inl ⟨hexisting, rfl⟩
        · cases hs
          exact .inr ⟨hexisting, rfl, rfl⟩

theorem refines_spawnTask {now : Time} {name : String} {params options : Json}
    {spawned : Spawned} (hdraw : ∀ drawn, P (.draw drawn))
    (hP : ∀ t : TaskRow, t.taskName = name → t.params = params →
      t.idempotencyKey = textMember options "idempotency_key" → P (.spawn now t))
    (hs : spawnTask pg s now name params options = .ok (s', spawned)) :
  Lives P s s'
  := by
  obtain ⟨read, hread, ⟨-, rfl⟩ | ⟨hexisting, rfl, -⟩⟩ := spawnTask_eq_ok hs
  · exact .draw hdraw rfl rfl rfl rfl (Nat.le_add_right _ _)
  · have hkey : ∀ key, read.idempotencyKey = some key → s.life.owner key = none := by
      intro key hkey
      rw [findExisting, hkey] at hexisting
      apply owner_of_findKey hexisting
    apply Lives.of (c := .spawn now (spawnedTask s now name params read))
    · exact ⟨⟨rfl, rfl, rfl, rfl, rfl⟩, hkey⟩
    · exact hP _ rfl rfl hread
    · rfl

/-! ### Cancelling, completing and scheduling -/

theorem refines_cancelTask {now : Time} {id : Uuid} (hP : P (.cancel now id))
    (hs : cancelTask s now id = .ok s') :
  Lives P s s'
  := by
  rw [cancelTask] at hs
  split at hs
  · cases hs
  · rename_i t ht
    split at hs
    · cases hs
      exact .refl
    · rename_i hlive
      cases hs
      apply Lives.of (c := .cancel now id) _ hP rfl
      exact ⟨t, Keyed.Table.mem_of_get? ht, Keyed.Table.key_of_get? ht, by simpa using hlive⟩

theorem refines_completeRun {now : Time} {id : Uuid} {payload : Option Json}
    (hP : ∀ r : RunRow, r.runId = id → P (.complete now r payload))
    (hs : completeRun s now id payload = .ok s') :
  Lives P s s'
  := by
  rw [completeRun] at hs
  split at hs
  · cases hs
  · rename_i r hr
    split at hs
    case h_1 hstate =>
      cases hs
      exact .of (c := .complete now r payload) ⟨Keyed.Table.mem_of_get? hr, hstate⟩
        (hP r (Keyed.Table.key_of_get? hr)) rfl
    all_goals cases hs

theorem refines_scheduleRun {id : Uuid} {wakeAt : WithTop Time}
    (hP : ∀ (r : RunRow) e, r.runId = id → e.KeepsAttempt → P (.park r e))
    (hs : scheduleRun s id wakeAt = .ok s') :
  Lives P s s'
  := by
  rw [scheduleRun] at hs
  split at hs
  · cases hs
  · rename_i r hr
    split at hs
    · rename_i hstate
      cases hs
      exact .of (c := .park r (RunRow.sleep wakeAt))
        ⟨Keyed.Table.mem_of_get? hr, hstate, parks_sleep wakeAt⟩
        (hP r _ (Keyed.Table.key_of_get? hr) (fun _ => rfl)) rfl
    · cases hs

/-! ### Failing and retrying -/

/-- The changes by which a run fails. -/
structure FailsBy (P : Change → Prop) (now : Time) (id : Uuid) (reason : Json) : Prop where
  forGood : ∀ r : RunRow, r.runId = id → P (.failForGood now r reason)
  cancelled : ∀ r : RunRow, r.runId = id → P (.failCancelled now r reason)
  retried : ∀ (r : RunRow) available, r.runId = id → P (.failRetried now r reason available)

/-- An active run fails by one change. -/
theorem failActive_eq_ok {now : Time} {r : RunRow} {reason : Json} {retryAt : Option Time}
    (hP : FailsBy P now r.runId reason) (hr : r ∈ s.runs.rows)
    (hactive : r.state = .running ∨ r.state = .sleeping)
    (hs : failActive pg s now r reason retryAt = .ok s') :
  ∃ c : Change, P c ∧ c.Allowed s.life ∧ c.AttemptsLeft s.life ∧ s'.life = c.apply s.life
  := by
  have hgood : ∃ c : Change, P c ∧ c.Allowed s.life ∧ c.AttemptsLeft s.life
      ∧ (failForGood s now r reason).life = c.apply s.life :=
    ⟨.failForGood now r reason, hP.forGood r rfl, ⟨hr, hactive⟩, trivial, rfl⟩
  simp only [failActive, Bind.bind, Except.bind, pure, Except.pure] at hs
  split at hs
  · cases hs
    exact hgood
  · rename_i hattempts
    split at hs
    · cases hs
    · split at hs
      · cases hs
        exact ⟨.failCancelled now r reason, hP.cancelled r rfl, ⟨hr, hactive⟩, trivial, rfl⟩
      · split at hs
        · cases hs
          exact hgood
        · cases hs
          exact ⟨.failRetried now r reason _, hP.retried r _ rfl, ⟨hr, hactive⟩,
            Bool.eq_false_iff.mpr hattempts, rfl⟩

/-- A run fails by one change. -/
theorem failRun_eq_ok {now : Time} {id : Uuid} {reason : Json} {retryAt : Option Time}
    (hP : FailsBy P now id reason) (hs : failRun pg s now id reason retryAt = .ok s') :
  ∃ c : Change, P c ∧ c.Allowed s.life ∧ c.AttemptsLeft s.life ∧ s'.life = c.apply s.life
  := by
  rw [failRun] at hs
  split at hs
  · cases hs
  · rename_i r hr
    have hmem := Keyed.Table.mem_of_get? hr
    obtain rfl := Keyed.Table.key_of_get? hr
    split at hs
    · cases hs
    · cases hs
    · rename_i hstate
      apply failActive_eq_ok hP hmem (.inl hstate) hs
    · rename_i hstate
      apply failActive_eq_ok hP hmem (.inr hstate) hs
    · cases hs

theorem refines_failRun {now : Time} {id : Uuid} {reason : Json} {retryAt : Option Time}
    (hP : FailsBy P now id reason) (hs : failRun pg s now id reason retryAt = .ok s') :
  Lives P s s'
  := by
  obtain ⟨c, hc, hallowed, -, hlife⟩ := failRun_eq_ok hP hs
  exact .of hallowed hc hlife

/-- Stripping nulls adds no members. -/
theorem mem_stripNullsMembers {m : String × Json} {ms : List (String × Json)}
    (h : m ∈ Json.stripNullsMembers ms) :
  m.1 ∈ ms.map Prod.fst
  := by
  induction ms with
  | nil => simp [Json.stripNullsMembers] at h
  | cons m' ms ih =>
      obtain ⟨key, j⟩ := m'
      rw [List.map_cons, List.mem_cons]
      cases j with
      | null =>
          right
          apply ih
          simpa [Json.stripNullsMembers] using h
      | _ =>
          simp only [Json.stripNullsMembers, List.mem_cons] at h
          rcases h with rfl | h
          · left
            rfl
          · right
            apply ih h

/-- A task that is spawned anew has no key. -/
theorem key_respawnOptions (t : TaskRow) (maxAttempts : Option ℤ) :
  textMember (respawnOptions t maxAttempts) "idempotency_key" = none
  := by
  have hnone : (respawnOptions t maxAttempts).get? "idempotency_key" = none := by
    simp only [respawnOptions, Json.stripNulls, Json.get?, Option.map_eq_none_iff,
      List.find?_eq_none, List.mem_reverse]
    intro m hm hkey
    have hmem := mem_stripNullsMembers hm
    simp only [decide_eq_true_eq] at hkey
    rw [hkey] at hmem
    simp at hmem
  rw [textMember, hnone]

theorem refines_retryTask {now : Time} {id : Uuid} {spawnNew : Bool} {maxAttempts : Option ℤ}
    (hdraw : ∀ drawn, P (.draw drawn))
    (hspawn : spawnNew = true → ∀ t : TaskRow, t.idempotencyKey = none → P (.spawn now t))
    (hretry : spawnNew = false → ∀ (t : TaskRow) n, t.taskId = id → P (.retry now t n))
    {spawned : Spawned} (hs : retryTask pg s now id spawnNew maxAttempts = .ok (s', spawned)) :
  Lives P s s'
  := by
  rw [retryTask] at hs
  split at hs
  · cases hs
  · split at hs
    · cases hs
    · rename_i t ht
      split at hs
      · rename_i hfailed
        split at hs
        · rename_i hnew
          apply refines_spawnTask hdraw _ hs
          intro t' _ _ hkey
          apply hspawn hnew t'
          rw [hkey, key_respawnOptions]
        · rename_i hold
          dsimp only at hs
          split at hs
          · cases hs
          · cases hs
            exact .of (c := .retry now t _) ⟨Keyed.Table.mem_of_get? ht, hfailed⟩
              (hretry (by simpa using hold) t _ (Keyed.Table.key_of_get? ht)) rfl
      · cases hs

/-! ### Claiming -/

/-- The runs a claim takes are its queue's and wait for a worker, each once. -/
theorem mem_claimCandidates {now : Time} {limit : ℕ} {r : RunRow}
    (hr : r ∈ claimCandidates pg s now limit) :
  r ∈ s.runs.rows ∧ (r.state = .pending ∨ r.state = .sleeping)
  := by
  have hmem := List.mem_mergeSort.mp (List.mem_of_mem_take hr)
  obtain ⟨hrows, hcond⟩ := List.mem_filter.mp hmem
  exact ⟨hrows, (of_decide_eq_true hcond).1⟩

theorem nodup_claimCandidates (pg : Postgres) (s : QueueState) (now : Time) (limit : ℕ) :
  ((claimCandidates pg s now limit).map RunRow.runId).Nodup
  := by
  have hrows : (s.runs.rows.map RunRow.runId).Nodup := s.runs.nodup
  have hfilter := hrows.sublist (List.Sublist.map RunRow.runId (List.filter_sublist
    (p := fun r => decide ((r.state = .pending ∨ r.state = .sleeping)
      ∧ (s.tasks.get? r.taskId).any (fun t => !t.state.terminal)
      ∧ r.availableAt ≤ (now : WithTop Time)))))
  have hsort := (List.mergeSort_perm (s.runs.rows.filter (fun r =>
    decide ((r.state = .pending ∨ r.state = .sleeping)
      ∧ (s.tasks.get? r.taskId).any (fun t => !t.state.terminal)
      ∧ r.availableAt ≤ (now : WithTop Time)))) (availableBefore pg)).map RunRow.runId
  exact (hsort.nodup_iff.mpr hfilter).sublist (List.Sublist.map RunRow.runId
    (List.take_sublist limit _))

theorem refines_claimRuns {now : Time} {worker : String} {claimUntil : Option Time}
    (hP : ∀ r, P (.claim now worker claimUntil r)) {claimed : List RunRow}
    (hrows : ∀ r ∈ claimed, r ∈ s.runs.rows ∧ (r.state = .pending ∨ r.state = .sleeping))
    (hnodup : (claimed.map RunRow.runId).Nodup) :
  Lives P s (claimed.foldl (markClaimed now worker claimUntil) s)
  := by
  induction claimed generalizing s with
  | nil => exact .refl
  | cons r claimed ih =>
      rw [List.map_cons, List.nodup_cons] at hnodup
      have hclaim : Lives P s (markClaimed now worker claimUntil s r) :=
        .of (c := .claim now worker claimUntil r) (hrows r List.mem_cons_self) (hP r) rfl
      apply hclaim.trans
      apply ih _ hnodup.2
      intro r' hr'
      obtain ⟨hmem, hstate⟩ := hrows r' (List.mem_cons_of_mem r hr')
      refine ⟨Keyed.Table.mem_update.mpr ⟨r', hmem, ?_⟩, hstate⟩
      rw [if_neg]
      intro heq
      apply hnodup.1
      rw [← of_decide_eq_true heq]
      exact List.mem_map_of_mem hr'

theorem refines_claimTask {now : Time} {worker : String} {timeout qty : ℤ} {claimed : List Uuid}
    (hcancel : ∀ id, P (.cancel now id)) (hfail : ∀ id reason, FailsBy P now id reason)
    (hclaim : ∀ worker claimUntil r, P (.claim now worker claimUntil r))
    (hs : claimTask pg s now worker timeout qty = .ok (s', claimed)) :
  Lives P s s'
  := by
  simp only [claimTask, Bind.bind, Except.bind, pure, Except.pure] at hs
  split at hs
  · cases hs
  · split at hs
    · cases hs
    · rename_i s₁ hcancelled
      split at hs
      · cases hs
      · rename_i s₂ hexpired
        cases hs
        have hlives₁ : Lives P s s₁ :=
          .foldlM (fun s id _ s' hs => refines_cancelTask (hcancel id) hs) hcancelled
        have hlives₂ : Lives P s₁ s₂ :=
          .foldlM (fun s r _ s' hs => refines_failRun (hfail _ _) hs) hexpired
        apply (hlives₁.trans hlives₂).trans
        exact refines_claimRuns (hclaim _ _) (fun r hr => mem_claimCandidates hr)
          (nodup_claimCandidates _ _ _ _)

/-! ### Checkpoints, leases and events -/

theorem refines_setTaskCheckpointState {now : Time} {taskId : Uuid} {stepName : String}
    {state : Option Json} {ownerRun : Uuid} {extendClaimBy : Option ℤ}
    (hP : ∀ (r : RunRow) extendBy, extendClaimBy = some extendBy → r.runId = ownerRun →
      P (.adjust r (RunRow.extendClaim (now + seconds extendBy))))
    (hs : setTaskCheckpointState s now taskId stepName state ownerRun extendClaimBy = .ok s') :
  Lives P s s'
  := by
  unfold setTaskCheckpointState at hs
  split at hs
  · cases hs
  · split at hs
    · cases hs
    · rename_i r hr
      split at hs
      · cases hs
      · split at hs
        · cases hs
        · split at hs
          · cases hs
          · extract_lets s₁ attempt? at hs
            have h₁ : Lives P s s₁ := by
              simp only [s₁]
              split
              · split
                · obtain rfl := Keyed.Table.key_of_get? hr
                  exact .of (c := .adjust r _) ⟨Keyed.Table.mem_of_get? hr, keeps_extendClaim _⟩
                    (hP r _ rfl rfl) rfl
                · exact .refl
              · exact .refl
            split at hs
            · obtain rfl := Except.ok.inj hs
              exact h₁
            · obtain rfl := Except.ok.inj hs
              exact h₁

theorem refines_extendClaim {now : Time} {id : Uuid} {extendBy : ℤ}
    (hP : ∀ r : RunRow, r.runId = id →
      P (.adjust r (RunRow.extendClaim (now + seconds extendBy))))
    (hs : extendClaim s now id extendBy = .ok s') :
  Lives P s s'
  := by
  rw [extendClaim] at hs
  split at hs
  · cases hs
  · split at hs
    · cases hs
    · rename_i r hr
      obtain rfl := Keyed.Table.key_of_get? hr
      have hextend : Lives P s (s.updateRun r.runId (RunRow.extendClaim (now + seconds extendBy))) :=
        .of (c := .adjust r _) ⟨Keyed.Table.mem_of_get? hr, keeps_extendClaim _⟩ (hP r rfl) rfl
      repeat' split at hs
      all_goals first | cases hs; done | skip
      cases hs
      exact hextend

/-- An edit of a run that the table still has as it was. -/
theorem mem_updateRun {r : RunRow} (hr : r ∈ s.runs.rows) (e : RunEdit) :
  e.apply r ∈ (s.updateRun r.runId e).runs.rows
  := by
  apply Keyed.Table.mem_update.mpr
  use r, hr
  simp

theorem life_ensureEvent (s : QueueState) (eventName : String) :
  (ensureEvent s eventName).life = s.life
  := by
  rw [ensureEvent]
  split <;> rfl

theorem refines_awaitEvent {now : Time} {taskId runId : Uuid} {stepName eventName : String}
    {timeout : Option ℤ} {suspend : Bool} {payload : Option Json}
    (htask : ∀ r, s.runs.get? runId = some r → r.taskId = taskId)
    (hpark : suspend = true → ∀ (r : RunRow) e, r.runId = runId → r.taskId = taskId →
      e.KeepsAttempt → P (.park r e))
    (hadjust : ∀ (r : RunRow) e, r.runId = runId → r.taskId = taskId → e.KeepsAttempt →
      e.KeepsClaim → P (.adjust r e))
    (hs : awaitEvent s now taskId runId stepName eventName timeout = .ok (s', suspend, payload)) :
  Lives P s s'
  := by
  rw [awaitEvent] at hs
  split at hs
  · cases hs
  · split at hs
    · cases hs
    · split at hs
      · cases hs
        exact .refl
      · split at hs
        · cases hs
        · rename_i r hr
          split at hs
          · cases hs
          · split at hs
            · cases hs
            · split at hs
              · cases hs
              · rename_i hrunning
                have hstate : r.state = .running := Decidable.not_not.mp hrunning
                obtain rfl := htask r hr
                obtain rfl := Keyed.Table.key_of_get? hr
                have hmem : r ∈ s.runs.rows := Keyed.Table.mem_of_get? hr
                extract_lets s₁ at hs
                have hmem₁ : RunRow.clearPayload.apply r ∈ s₁.runs.rows :=
                  mem_updateRun (s := ensureEvent s eventName)
                    (by rwa [runs_ensureEvent]) RunRow.clearPayload
                have h₁ : Lives P s s₁ := by
                  apply Lives.of (c := .adjust r RunRow.clearPayload) ⟨hmem, keeps_clearPayload⟩
                    (hadjust r _ rfl rfl (fun _ => rfl) (fun _ => rfl))
                  rw [← life_ensureEvent s eventName]
                  rfl
                split at hs
                · cases hs
                  exact h₁
                · split at hs
                  · cases hs
                    apply h₁.trans
                    exact .of (c := .adjust (RunRow.clearPayload.apply r) RunRow.clearWakeEvent)
                      ⟨hmem₁, keeps_clearWakeEvent⟩
                      (hadjust _ _ rfl rfl (fun _ => rfl) (fun _ => rfl)) rfl
                  · cases hs
                    apply h₁.trans
                    exact .of (c := .park (RunRow.clearPayload.apply r) _)
                      ⟨hmem₁, hstate, parks_wait eventName _⟩ (hpark rfl _ _ rfl rfl (fun _ => rfl)) rfl

/-- A run that waits to be woken, or is woken already. -/
def Wakes (s : QueueState) (id : Uuid) : Prop :=
  ∃ r ∈ s.runs.rows, r.runId = id ∧ (r.state = .pending ∨ r.state = .sleeping)

/-- A run of a task that is woken. -/
def Woken (s : QueueState) (runId taskId : Uuid) : Prop :=
  ∃ r ∈ s.runs.rows, r.runId = runId ∧ r.taskId = taskId ∧ r.state = .pending

theorem Wakes.markWoken {id : Uuid} (h : Wakes s id) (now : Time) (payload : Json) (w : WaitRow) :
  Wakes (markWoken now payload s w) id
  := by
  obtain ⟨r, hr, hid, hstate⟩ := h
  refine ⟨_, Keyed.Table.mem_update.mpr ⟨r, hr, rfl⟩, ?_⟩
  split
  · exact ⟨hid, .inl rfl⟩
  · exact ⟨hid, hstate⟩

theorem Woken.markWoken {runId taskId : Uuid} (h : Woken s runId taskId) (now : Time)
    (payload : Json) (w : WaitRow) :
  Woken (markWoken now payload s w) runId taskId
  := by
  obtain ⟨r, hr, hid, htask, hstate⟩ := h
  refine ⟨_, Keyed.Table.mem_update.mpr ⟨r, hr, rfl⟩, ?_⟩
  split
  · exact ⟨hid, htask, rfl⟩
  · exact ⟨hid, htask, hstate⟩

theorem Woken.foldl {runId taskId : Uuid} (now : Time) (payload : Json) {woken : List WaitRow}
    (h : Woken s runId taskId) :
  Woken (woken.foldl (Engine.markWoken now payload) s) runId taskId
  := by
  induction woken generalizing s with
  | nil => exact h
  | cons w woken ih => exact ih (h.markWoken now payload w)

/-- The runs that wake are pending afterwards. -/
theorem woken_foldl {now : Time} {payload : Json} {woken : List WaitRow} {r : RunRow}
    (hr : r ∈ s.runs.rows) {w : WaitRow} (hw : w ∈ woken) (hid : w.runId = r.runId) :
  Woken (woken.foldl (markWoken now payload) s) r.runId r.taskId
  := by
  induction woken generalizing s r with
  | nil => cases hw
  | cons w' woken ih =>
      rw [List.foldl_cons]
      by_cases heq : r.runId = w'.runId
      · apply Woken.foldl
        refine ⟨_, Keyed.Table.mem_update.mpr ⟨r, hr, rfl⟩, ?_⟩
        rw [if_pos (by simpa using heq)]
        exact ⟨rfl, rfl, rfl⟩
      · have hw' : w ∈ woken := by
          rcases List.mem_cons.mp hw with rfl | hw
          · exact absurd hid.symm heq
          · exact hw
        have hr' : r ∈ (markWoken now payload s w').runs.rows := by
          apply Keyed.Table.mem_update.mpr
          use r, hr
          rw [if_neg (by simpa using heq)]
        apply ih hr' hw' hid

theorem refines_wakeRuns {now : Time} {payload : Json} (hP : ∀ r, P (.wakeRun now payload r))
    {woken : List WaitRow} (hwakes : ∀ w ∈ woken, Wakes s w.runId) :
  Lives P s (woken.foldl (markWoken now payload) s)
  := by
  induction woken generalizing s with
  | nil => exact .refl
  | cons w woken ih =>
      obtain ⟨r, hr, hid, hstate⟩ := hwakes w List.mem_cons_self
      have hwake : Lives P s (markWoken now payload s w) := by
        apply Lives.of (c := .wakeRun now payload r) ⟨hr, hstate⟩ (hP r)
        rw [Change.apply, hid]
        rfl
      apply hwake.trans
      apply ih
      intro w' hw'
      exact (hwakes w' (List.mem_cons_of_mem w hw')).markWoken now payload w

theorem refines_wakeTasks (hP : ∀ id, P (.wakeTask id)) {taskIds : List Uuid}
    (hwoken : ∀ id ∈ taskIds, ∃ runId, Woken s runId id) :
  Lives P s (taskIds.foldl (fun s id => s.updateTask id (TaskRow.withState .pending)) s)
  := by
  induction taskIds generalizing s with
  | nil => exact .refl
  | cons id taskIds ih =>
      obtain ⟨runId, r, hr, -, htask, hstate⟩ := hwoken id List.mem_cons_self
      have hwake : Lives P s (s.updateTask id (TaskRow.withState .pending)) :=
        .of (c := .wakeTask id) ⟨r, hr, htask, hstate⟩ (hP id) rfl
      apply hwake.trans
      apply ih
      exact fun id' hid' => hwoken id' (List.mem_cons_of_mem id hid')

theorem refines_emitEvent {now : Time} {eventName : String} {payload : Option Json}
    (hrun : ∀ payload r, P (.wakeRun now payload r)) (htask : ∀ id, P (.wakeTask id))
    (hs : emitEvent s now eventName payload = .ok s') :
  Lives P s s'
  := by
  rw [emitEvent] at hs
  split at hs
  · cases hs
  · split at hs
    · cases hs
      exact .refl
    · extract_lets payload' s₁ s₂ affected woken taskIds s₃ at hs
      cases hs
      have hsleeping : ∀ w ∈ woken, ∃ r, s₂.runs.get? w.runId = some r ∧ r.state = .sleeping := by
        intro w hw
        obtain ⟨-, hany⟩ := List.mem_filter.mp hw
        obtain ⟨r, hr, hstate⟩ := (Option.any_eq_true ..).mp hany
        exact ⟨r, hr, of_decide_eq_true hstate⟩
      have hwakes : ∀ w ∈ woken, Wakes s₂ w.runId := by
        intro w hw
        obtain ⟨r, hr, hstate⟩ := hsleeping w hw
        exact ⟨r, Keyed.Table.mem_of_get? hr, Keyed.Table.key_of_get? hr, .inr hstate⟩
      have hruns : Lives P s s₃ := refines_wakeRuns (s := s₂) (hrun payload') hwakes
      apply hruns.trans
      apply refines_wakeTasks htask
      intro id hid
      obtain ⟨w, hw, hmap⟩ := List.mem_filterMap.mp hid
      obtain ⟨r, hr, -⟩ := hsleeping w hw
      rw [hr] at hmap
      cases hmap
      exact ⟨r.runId, woken_foldl (Keyed.Table.mem_of_get? hr) hw (Keyed.Table.key_of_get? hr).symm⟩

/-! ### Every call -/

theorem refines_cleanupTasks {now : Time} {ttlSeconds : ℤ} {limit : ℕ} {batch : List Uuid}
    (hP : P (.delete batch)) (hs : cleanupTasks s now ttlSeconds limit batch = some s') :
  Lives P s s'
  := by
  rw [cleanupTasks] at hs
  split at hs
  · cases hs
    exact .of (c := .delete batch) trivial hP rfl
  · cases hs

/-- Every call is a run of changes it may make, which leave the attempts of the runs as they
are. -/
theorem numbered_step {l : Label} (hs : step pg s l = some s') :
  Lives (fun c => l.Makes c ∧ c.Numbered) s s'
  := by
  obtain ⟨hown, hs⟩ := step_eq_some.mp hs
  cases l with
  | spawn now name params options =>
      obtain ⟨⟨_, spawned⟩, hspawn, rfl⟩ := Except.map_eq_ok (Except.toOption_eq_some.mp hs)
      apply refines_spawnTask (fun _ => ⟨trivial, trivial⟩) _ hspawn
      rintro t rfl rfl hkey
      exact ⟨.inl ⟨options, rfl, hkey⟩, trivial⟩
  | claim now worker claimTimeout qty =>
      obtain ⟨⟨_, claimed⟩, hclaim, rfl⟩ := Except.map_eq_ok (Except.toOption_eq_some.mp hs)
      apply refines_claimTask _ _ _ hclaim
      · exact fun id => ⟨.inr ⟨_, _, _, rfl⟩, trivial⟩
      · exact fun id reason => ⟨fun _ _ => ⟨.inr ⟨_, _, _, rfl⟩, trivial⟩,
          fun _ _ => ⟨.inr ⟨_, _, _, rfl⟩, trivial⟩, fun _ _ _ => ⟨.inr ⟨_, _, _, rfl⟩, trivial⟩⟩
      · exact fun _ _ _ => ⟨⟨_, _, _, rfl⟩, trivial⟩
  | complete now runId payload =>
      apply refines_completeRun _ (Except.toOption_eq_some.mp hs)
      rintro r rfl
      exact ⟨rfl, trivial⟩
  | schedule runId wakeAt =>
      apply refines_scheduleRun _ (Except.toOption_eq_some.mp hs)
      rintro r e rfl hattempt
      exact ⟨.inl ⟨wakeAt, rfl⟩, hattempt⟩
  | fail now runId reason retryAt =>
      apply refines_failRun _ (Except.toOption_eq_some.mp hs)
      constructor
      · rintro r rfl
        exact ⟨.inl ⟨retryAt, rfl⟩, trivial⟩
      · rintro r rfl
        exact ⟨.inl ⟨retryAt, rfl⟩, trivial⟩
      · rintro r available rfl
        exact ⟨.inl ⟨retryAt, rfl⟩, trivial⟩
  | retry now taskId spawnNew maxAttempts =>
      obtain ⟨⟨_, spawned⟩, hretry, rfl⟩ := Except.map_eq_ok (Except.toOption_eq_some.mp hs)
      apply refines_retryTask (fun _ => ⟨trivial, trivial⟩) _ _ hretry
      · rintro rfl t hkey
        exact ⟨.inr ⟨taskId, maxAttempts, rfl, hkey⟩, trivial⟩
      · rintro rfl t n rfl
        exact ⟨⟨maxAttempts, rfl⟩, trivial⟩
  | cancel now taskId =>
      exact refines_cancelTask ⟨.inl rfl, trivial⟩ (Except.toOption_eq_some.mp hs)
  | checkpoint now taskId stepName state ownerRun extendClaimBy =>
      apply refines_setTaskCheckpointState _ (Except.toOption_eq_some.mp hs)
      rintro r extendBy - rfl
      exact ⟨.inl ⟨_, _, _, _, _, rfl⟩, keepsAttempt_extendClaim _⟩
  | extend now runId extendBy =>
      apply refines_extendClaim _ (Except.toOption_eq_some.mp hs)
      rintro r rfl
      exact ⟨.inr (.inl ⟨_, _, rfl⟩), keepsAttempt_extendClaim _⟩
  | await now taskId runId stepName eventName timeout =>
      obtain ⟨⟨_, suspend, payload⟩, hawait, rfl⟩ :=
        Except.map_eq_ok (Except.toOption_eq_some.mp hs)
      apply refines_awaitEvent _ _ _ hawait
      · intro r hr
        rw [AwaitsOwn, hr] at hown
        simpa using hown
      · rintro - r e rfl rfl hattempt
        exact ⟨.inr ⟨_, _, _, _, rfl⟩, hattempt⟩
      · rintro r e rfl rfl hattempt -
        exact ⟨.inr (.inr ⟨_, _, _, _, rfl⟩), hattempt⟩
  | emit now eventName payload =>
      exact refines_emitEvent (fun _ _ => ⟨⟨_, _, rfl⟩, trivial⟩) (fun _ => ⟨⟨_, _, _, rfl⟩, trivial⟩)
        (Except.toOption_eq_some.mp hs)
  | cleanupTasks now ttlSeconds limit batch =>
      exact refines_cleanupTasks ⟨⟨_, _, _, rfl⟩, trivial⟩ hs
  | cleanupEvents now ttlSeconds limit batch =>
      rw [call, cleanupEvents] at hs
      split at hs
      · cases hs
        exact .draw (fun _ => ⟨trivial, trivial⟩) rfl rfl rfl rfl (le_refl _)
      · cases hs

/-- Every call is a run of changes it may make. -/
theorem refines_step {l : Label} (hs : step pg s l = some s') :
  Lives l.Makes s s'
  := by
  obtain ⟨cs, hcs, hmakes⟩ := numbered_step hs
  exact ⟨cs, hcs, fun c hc => (hmakes c hc).1⟩

/-- A run of calls is a run of changes they may make. -/
theorem refines_run {ls : List Label} (hs : (machine pg).run s ls = some s') :
  ∃ cs, lifecycle.run s.life cs = some s'.life ∧ ∀ c ∈ cs, ∃ l ∈ ls, l.Makes c
  := by
  apply Machine.run_refines (m := machine pg) (I := fun _ => True) _ trivial hs
  intro _ _ _ _ hstep
  exact ⟨trivial, refines_step hstep⟩

/-- The lifecycle of a reachable queue is one changes lead to. -/
theorem reachable_life (h : Reachable pg s) :
  ∃ storage cs, lifecycle.run (.create storage) cs = some s.life
  := by
  obtain ⟨storage, ls, hrun⟩ := reachable_iff.mp h
  obtain ⟨cs, hcs, -⟩ := refines_run hrun
  exact ⟨storage, cs, hcs⟩

end

end DjangoAbsurd.Engine
