import DjangoAbsurd.Engine.Keys

/-!
# The storage mode of a queue cannot be told

A queue whose tasks are partitioned finds the task of an idempotency key in a table of its own,
one whose tasks are not in the rows of the tasks. The same calls are accepted in both, they
leave the same rows, and they answer the same (`storage_invisible`): the errors only the
partitioned queue can raise are never raised.
-/

namespace DjangoAbsurd.Engine

namespace QueueState

/-- The queue with another storage mode and other keys. -/
def withKeys (s : QueueState) (storage : StorageMode)
    (keys : Keyed.Table IdempotencyRow.idempotencyKey) : QueueState :=
  { s with storage, keys }

/-- The queue as one whose tasks are not partitioned, with no keys. -/
def plain (s : QueueState) : QueueState := s.withKeys .unpartitioned (.empty _)

end QueueState

/-- What a call answers: the task it spawned or retried, the runs it claimed, or how a wait went
on. -/
inductive Answer where
  | done
  | spawned (spawned : Spawned)
  | claimed (runIds : List Uuid)
  | awaited (suspend : Bool) (payload : Option Json)

/-- The answer of a call, or what it raises. The answer of a cleanup depends on the rows it
took, which the label names. -/
def answer (pg : Postgres) (s : QueueState) : Label → Except EngineError Answer
  | .spawn now name params options =>
      (spawnTask pg s now name params options).map (fun p => .spawned p.2)
  | .claim now worker claimTimeout qty =>
      (claimTask pg s now worker claimTimeout qty).map (fun p => .claimed p.2)
  | .complete now runId payload => (completeRun s now runId payload).map (fun _ => .done)
  | .schedule runId wakeAt => (scheduleRun s runId wakeAt).map (fun _ => .done)
  | .fail now runId reason retryAt => (failRun pg s now runId reason retryAt).map (fun _ => .done)
  | .retry now taskId spawnNew maxAttempts =>
      (retryTask pg s now taskId spawnNew maxAttempts).map (fun p => .spawned p.2)
  | .cancel now taskId => (cancelTask s now taskId).map (fun _ => .done)
  | .checkpoint now taskId stepName state ownerRun extendClaimBy =>
      (setTaskCheckpointState s now taskId stepName state ownerRun extendClaimBy).map (fun _ => .done)
  | .extend now runId extendBy => (extendClaim s now runId extendBy).map (fun _ => .done)
  | .await now taskId runId stepName eventName timeout =>
      (awaitEvent s now taskId runId stepName eventName timeout).map (fun p => .awaited p.2.1 p.2.2)
  | .emit now eventName payload => (emitEvent s now eventName payload).map (fun _ => .done)
  | .cleanupTasks _ ttlSeconds _ _ | .cleanupEvents _ ttlSeconds _ _ =>
      if 0 ≤ ttlSeconds then .ok .done else .error .negativeTtl

section

variable {pg : Postgres} {s : QueueState} {storage : StorageMode}
  {keys : Keyed.Table IdempotencyRow.idempotencyKey}

/-! ### Calls that do not look at the keys -/

theorem completeRun_withKeys (now : Time) (id : Uuid) (payload : Option Json) :
  completeRun (s.withKeys storage keys) now id payload
    = (completeRun s now id payload).map (·.withKeys storage keys)
  := by
  simp only [completeRun, QueueState.withKeys]
  cases s.runs.get? id with
  | none => rfl
  | some r =>
      dsimp only
      cases r.state <;> rfl

theorem scheduleRun_withKeys (id : Uuid) (wakeAt : WithTop Time) :
  scheduleRun (s.withKeys storage keys) id wakeAt
    = (scheduleRun s id wakeAt).map (·.withKeys storage keys)
  := by
  simp only [scheduleRun, QueueState.withKeys]
  cases s.runs.get? id with
  | none => rfl
  | some r =>
      dsimp only
      split <;> rfl

theorem cancelTask_withKeys (now : Time) (id : Uuid) :
  cancelTask (s.withKeys storage keys) now id
    = (cancelTask s now id).map (·.withKeys storage keys)
  := by
  simp only [cancelTask, QueueState.withKeys]
  cases s.tasks.get? id with
  | none => rfl
  | some t =>
      dsimp only
      split <;> rfl

theorem failActive_withKeys (now : Time) (r : RunRow) (reason : Json) (retryAt : Option Time) :
  failActive pg (s.withKeys storage keys) now r reason retryAt
    = (failActive pg s now r reason retryAt).map (·.withKeys storage keys)
  := by
  simp only [failActive, Bind.bind, Except.bind, pure, Except.pure,
    show (s.withKeys storage keys).tasks = s.tasks from rfl]
  by_cases hspent : ((s.tasks.get? r.taskId).bind TaskRow.maxAttempts).any (· < r.attempt + 1)
  · simp only [if_pos hspent]
    rfl
  · simp only [if_neg hspent]
    cases durationPassed pg ((s.tasks.get? r.taskId).bind TaskRow.cancellation)
        ((s.tasks.get? r.taskId).bind TaskRow.firstStartedAt)
        (nextAvailable pg now ((s.tasks.get? r.taskId).bind TaskRow.retryStrategy) r.attempt
          retryAt) with
    | error e => rfl
    | ok passed =>
        cases passed with
        | true => rfl
        | false =>
            cases nextAvailable pg now ((s.tasks.get? r.taskId).bind TaskRow.retryStrategy) r.attempt
                retryAt with
            | none => rfl
            | some available => rfl

theorem failRun_withKeys (now : Time) (id : Uuid) (reason : Json) (retryAt : Option Time) :
  failRun pg (s.withKeys storage keys) now id reason retryAt
    = (failRun pg s now id reason retryAt).map (·.withKeys storage keys)
  := by
  rw [failRun, failRun, show (s.withKeys storage keys).runs = s.runs from rfl]
  cases s.runs.get? id with
  | none => rfl
  | some r =>
      dsimp only
      cases r.state
      all_goals first | rfl | apply failActive_withKeys

theorem setTaskCheckpointState_withKeys (now : Time) (taskId : Uuid) (stepName : String)
    (state : Option Json) (ownerRun : Uuid) (extendClaimBy : Option ℤ) :
  setTaskCheckpointState (s.withKeys storage keys) now taskId stepName state ownerRun extendClaimBy
    = (setTaskCheckpointState s now taskId stepName state ownerRun extendClaimBy).map
        (·.withKeys storage keys)
  := by
  unfold setTaskCheckpointState
  simp only [show (s.withKeys storage keys).runs = s.runs from rfl,
    show (s.withKeys storage keys).tasks = s.tasks from rfl]
  split
  · rfl
  · split
    · rfl
    · split
      · rfl
      · split
        · rfl
        · split
          · rfl
          · cases extendClaimBy with
            | none =>
                dsimp only
                rw [show (s.withKeys storage keys).checkpoints = s.checkpoints from rfl,
                  show (s.withKeys storage keys).runs = s.runs from rfl]
                split <;> rfl
            | some extendBy =>
                dsimp only
                by_cases hextend : 0 < extendBy
                · simp only [if_pos hextend]
                  rw [show ((s.withKeys storage keys).updateRun ownerRun
                      (RunRow.extendClaim (now + seconds extendBy)))
                    = (s.updateRun ownerRun (RunRow.extendClaim (now + seconds extendBy))).withKeys
                        storage keys from rfl]
                  rw [show ∀ s : QueueState, (s.withKeys storage keys).checkpoints = s.checkpoints
                      from fun _ => rfl,
                    show ∀ s : QueueState, (s.withKeys storage keys).runs = s.runs from fun _ => rfl]
                  split <;> rfl
                · simp only [if_neg hextend]
                  rw [show (s.withKeys storage keys).checkpoints = s.checkpoints from rfl,
                    show (s.withKeys storage keys).runs = s.runs from rfl]
                  split <;> rfl

theorem extendClaim_withKeys (now : Time) (id : Uuid) (extendBy : ℤ) :
  extendClaim (s.withKeys storage keys) now id extendBy
    = (extendClaim s now id extendBy).map (·.withKeys storage keys)
  := by
  rw [extendClaim, extendClaim]
  simp only [show (s.withKeys storage keys).runs = s.runs from rfl,
    show (s.withKeys storage keys).tasks = s.tasks from rfl]
  repeat' split
  all_goals rfl

/-- A fold of steps that do not look at what a map changes commutes with the map. -/
theorem foldlM_map {α ε σ : Type} {f : σ → α → Except ε σ} {g : σ → σ}
    (h : ∀ s a, f (g s) a = (f s a).map g) (as : List α) (s : σ) :
  as.foldlM f (g s) = (as.foldlM f s).map g
  := by
  induction as generalizing s with
  | nil => rfl
  | cons a as ih =>
      rw [List.foldlM_cons, List.foldlM_cons, h]
      cases f s a with
      | error e => rfl
      | ok s' => exact ih s'

theorem claimTask_withKeys (now : Time) (worker : String) (timeout qty : ℤ) :
  claimTask pg (s.withKeys storage keys) now worker timeout qty
    = (claimTask pg s now worker timeout qty).map (fun p => (p.1.withKeys storage keys, p.2))
  := by
  simp only [claimTask, Bind.bind, Except.bind, pure, Except.pure,
    show cancelCandidates pg (s.withKeys storage keys) now = cancelCandidates pg s now from rfl]
  cases cancelCandidates pg s now with
  | error e => rfl
  | ok due =>
      dsimp only
      have hcancels := foldlM_map (f := fun s id => cancelTask s now id)
        (g := fun s : QueueState => s.withKeys storage keys) (fun s id => cancelTask_withKeys now id) due s
      rw [hcancels]
      cases due.foldlM (fun s id => cancelTask s now id) s with
      | error e => rfl
      | ok s₁ =>
          simp only [Except.map,
            show expiredRuns pg (s₁.withKeys storage keys) now = expiredRuns pg s₁ now from rfl]
          have hsweeps := foldlM_map (f := fun s r => failRun pg s now r.runId (claimTimeout pg r) none)
            (g := fun s : QueueState => s.withKeys storage keys)
            (fun s r => failRun_withKeys now r.runId (claimTimeout pg r) none)
            (expiredRuns pg s₁ now (max qty 1).toNat) s₁
          rw [hsweeps]
          cases (expiredRuns pg s₁ now (max qty 1).toNat).foldlM
              (fun s r => failRun pg s now r.runId (claimTimeout pg r) none) s₁ with
          | error e => rfl
          | ok s₂ =>
              simp only [Except.map, Except.ok.injEq, Prod.mk.injEq]
              exact ⟨List.foldl_hom (fun s : QueueState => s.withKeys storage keys) (fun _ _ => rfl), rfl⟩

theorem ensureEvent_withKeys (eventName : String) :
  ensureEvent (s.withKeys storage keys) eventName = (ensureEvent s eventName).withKeys storage keys
  := by
  rw [ensureEvent, ensureEvent, show (s.withKeys storage keys).events = s.events from rfl]
  split <;> rfl

theorem awaitEvent_withKeys (now : Time) (taskId runId : Uuid) (stepName eventName : String)
    (timeout : Option ℤ) :
  awaitEvent (s.withKeys storage keys) now taskId runId stepName eventName timeout
    = (awaitEvent s now taskId runId stepName eventName timeout).map
        (fun p => (p.1.withKeys storage keys, p.2))
  := by
  rw [awaitEvent, awaitEvent, ensureEvent_withKeys,
    show (s.withKeys storage keys).runs = s.runs from rfl,
    show (s.withKeys storage keys).tasks = s.tasks from rfl,
    show (s.withKeys storage keys).checkpoints = s.checkpoints from rfl]
  generalize (ensureEvent s eventName) = s₀
  split
  · rfl
  · split
    · rfl
    · cases (s.checkpoints.get? (taskId, stepName)).bind CheckpointRow.state with
      | some payload => rfl
      | none =>
          dsimp only
          cases s.runs.get? runId with
          | none => rfl
          | some r =>
              dsimp only
              cases s.tasks.get? r.taskId with
              | none => rfl
              | some t =>
                  dsimp only
                  split
                  · rfl
                  · split
                    · rfl
                    · rw [show ((s₀.withKeys storage keys).updateRun runId RunRow.clearPayload).events
                        = (s₀.updateRun runId RunRow.clearPayload).events from rfl]
                      cases ((s₀.updateRun runId RunRow.clearPayload).events.get? eventName).bind
                          EventRow.payload with
                      | some payload => rfl
                      | none =>
                          dsimp only
                          split <;> rfl

theorem emitEvent_withKeys (now : Time) (eventName : String) (payload : Option Json) :
  emitEvent (s.withKeys storage keys) now eventName payload
    = (emitEvent s now eventName payload).map (·.withKeys storage keys)
  := by
  rw [emitEvent, emitEvent, show (s.withKeys storage keys).events = s.events from rfl]
  split
  · rfl
  · split
    · rfl
    · have hpending : ∀ (ids : List Uuid) (s : QueueState),
          ids.foldl (fun s id => s.updateTask id (TaskRow.withState .pending)) (s.withKeys storage keys)
            = (ids.foldl (fun s id => s.updateTask id (TaskRow.withState .pending)) s).withKeys
                storage keys :=
        fun ids s => List.foldl_hom (fun s : QueueState => s.withKeys storage keys) (fun _ _ => rfl)
      have hwoken : ∀ (woken : List WaitRow) (payload : Json) (s : QueueState),
          woken.foldl (markWoken now payload) (s.withKeys storage keys)
            = (woken.foldl (markWoken now payload) s).withKeys storage keys :=
        fun woken payload s =>
          List.foldl_hom (fun s : QueueState => s.withKeys storage keys) (fun _ _ => rfl)
      dsimp only [Except.map]
      rw [Except.ok.injEq, ← hpending, ← hwoken]
      rfl

/-! ### Keys -/

/-- The two ways to find the task of a key agree. -/
theorem findKey_plain (h : KeyedQueue s) (key : String) :
  findKey s key = findKey s.plain key
  := by
  cases hstorage : s.storage with
  | unpartitioned =>
      rw [findKey, hstorage]
      rfl
  | partitioned =>
      have hstored := h.keys.stored hstorage
      rw [findKey, hstorage, show findKey s.plain key
        = .ok ((s.tasks.rows.find? (fun t => t.idempotencyKey = some key)).map (fun t =>
          { taskId := t.taskId, runId := t.lastAttemptRun, attempt := t.attempts,
            created := false })) from rfl]
      cases hfound : s.tasks.rows.find? (fun t => t.idempotencyKey = some key) with
      | none =>
          have hnone : s.keys.get? key = none := by
            apply Keyed.Table.get?_eq_none.mpr
            rintro row hrow rfl
            obtain ⟨t, ht, -, hkey⟩ := (hstored row).mp hrow
            have hmiss := List.find?_eq_none.mp hfound t ht
            simp [hkey] at hmiss
          rw [hnone]
          rfl
      | some t =>
          have ht : t ∈ s.tasks.rows := List.mem_of_find?_eq_some hfound
          have hkey : t.idempotencyKey = some key := by simpa using List.find?_some hfound
          have hrow : s.keys.get? key = some ⟨key, t.taskId⟩ :=
            Keyed.Table.get?_of_mem ((hstored ⟨key, t.taskId⟩).mpr ⟨t, ht, rfl, hkey⟩)
          obtain ⟨r, -, hagrees⟩ := (h.consistent.follows t ht).last
          have hlast : t.lastAttemptRun ≠ none := by
            rw [hagrees.last]
            simp
          rw [hrow]
          dsimp only
          rw [Keyed.Table.get?_of_mem ht]
          dsimp only
          rw [if_neg hlast]
          rfl

/-- A spawn answers the same and leaves the same rows. -/
theorem spawnTask_plain (pg : Postgres) (h : KeyedQueue s) (now : Time) (name : String) (params options : Json) :
  (spawnTask pg s now name params options).map (fun p => (p.1.plain, p.2))
    = (spawnTask pg s.plain now name params options).map (fun p => (p.1.plain, p.2))
  := by
  have hfind : ∀ read : SpawnOptions, findExisting s read = findExisting s.plain read := by
    intro read
    rw [findExisting, findExisting]
    split
    · apply findKey_plain h
    · rfl
  simp only [spawnTask, Bind.bind, Except.bind, pure, Except.pure, hfind]
  split
  · rfl
  · cases readSpawnOptions pg options with
    | error e => rfl
    | ok read =>
        dsimp only
        cases findExisting s.plain read with
        | error e => rfl
        | ok existing =>
            cases existing with
            | some spawned => rfl
            | none => rfl

/-- A retry answers the same and leaves the same rows. -/
theorem retryTask_plain (pg : Postgres) (h : KeyedQueue s) (now : Time) (id : Uuid) (spawnNew : Bool)
    (maxAttempts : Option ℤ) :
  (retryTask pg s now id spawnNew maxAttempts).map (fun p => (p.1.plain, p.2))
    = (retryTask pg s.plain now id spawnNew maxAttempts).map (fun p => (p.1.plain, p.2))
  := by
  rw [retryTask, retryTask, show s.plain.tasks = s.tasks from rfl]
  split
  · rfl
  · cases s.tasks.get? id with
    | none => rfl
    | some t =>
        dsimp only
        split
        · split
          · apply spawnTask_plain pg h
          · split <;> rfl
        · rfl

end

section

variable {pg : Postgres} {s s' : QueueState}

/-! ### Every call -/

/-- What commutes with forgetting the keys leaves the same rows. -/
theorem toOption_plain {x y : Except EngineError QueueState} (h : y = x.map QueueState.plain) :
  x.toOption.map QueueState.plain = y.toOption.map QueueState.plain
  := by
  subst h
  cases x <;> rfl

/-- A call leaves the same rows when the keys are forgotten before it. -/
theorem call_plain (h : KeyedQueue s) (l : Label) :
  (call pg s l).map QueueState.plain = (call pg s.plain l).map QueueState.plain
  := by
  have hpair : ∀ {α : Type} {x y : Except EngineError (QueueState × α)},
      x.map (fun p => (p.1.plain, p.2)) = y.map (fun p => (p.1.plain, p.2)) →
      (x.map Prod.fst).toOption.map QueueState.plain
        = (y.map Prod.fst).toOption.map QueueState.plain := by
    intro α x y hxy
    cases x <;> cases y
    all_goals simp only [Except.map, Except.ok.injEq, Prod.mk.injEq, reduceCtorEq] at hxy
    · rfl
    · exact congrArg some hxy.1
  have hcommutes : ∀ {α : Type} {x y : Except EngineError (QueueState × α)},
      y = x.map (fun p => (p.1.plain, p.2)) →
      (x.map Prod.fst).toOption.map QueueState.plain
        = (y.map Prod.fst).toOption.map QueueState.plain := by
    rintro α x _ rfl
    cases x <;> rfl
  cases l with
  | spawn now name params options => exact hpair (spawnTask_plain pg h now name params options)
  | claim now worker claimTimeout qty => exact hcommutes (claimTask_withKeys now worker claimTimeout qty)
  | complete now runId payload => exact toOption_plain (completeRun_withKeys now runId payload)
  | schedule runId wakeAt => exact toOption_plain (scheduleRun_withKeys runId wakeAt)
  | fail now runId reason retryAt => exact toOption_plain (failRun_withKeys now runId reason retryAt)
  | retry now taskId spawnNew maxAttempts =>
      exact hpair (retryTask_plain pg h now taskId spawnNew maxAttempts)
  | cancel now taskId => exact toOption_plain (cancelTask_withKeys now taskId)
  | checkpoint now taskId stepName state ownerRun extendClaimBy =>
      exact toOption_plain
        (setTaskCheckpointState_withKeys now taskId stepName state ownerRun extendClaimBy)
  | extend now runId extendBy => exact toOption_plain (extendClaim_withKeys now runId extendBy)
  | await now taskId runId stepName eventName timeout =>
      exact hcommutes (awaitEvent_withKeys now taskId runId stepName eventName timeout)
  | emit now eventName payload => exact toOption_plain (emitEvent_withKeys now eventName payload)
  | cleanupTasks now ttlSeconds limit batch =>
      rw [call, call, cleanupTasks, cleanupTasks]
      by_cases hbatch : 0 ≤ ttlSeconds ∧ IsCleanupBatch s (now - seconds ttlSeconds) limit batch
      · have hbatch' : 0 ≤ ttlSeconds
            ∧ IsCleanupBatch s.plain (now - seconds ttlSeconds) limit batch := hbatch
        rw [if_pos hbatch, if_pos hbatch']
        rfl
      · have hbatch' : ¬ (0 ≤ ttlSeconds
            ∧ IsCleanupBatch s.plain (now - seconds ttlSeconds) limit batch) := hbatch
        rw [if_neg hbatch, if_neg hbatch']
  | cleanupEvents now ttlSeconds limit batch =>
      rw [call, call, cleanupEvents, cleanupEvents, show s.plain.events = s.events from rfl]
      split <;> rfl

theorem awaitsOwn_plain (s : QueueState) (l : Label) :
  AwaitsOwn s.plain l ↔ AwaitsOwn s l
  := by
  cases l <;> rfl

theorem step_plain (h : KeyedQueue s) (l : Label) :
  (step pg s l).map QueueState.plain = (step pg s.plain l).map QueueState.plain
  := by
  rw [step, step]
  by_cases hown : AwaitsOwn s l
  · rw [if_pos hown, if_pos ((awaitsOwn_plain s l).mpr hown)]
    apply call_plain h
  · rw [if_neg hown, if_neg (mt (awaitsOwn_plain s l).mp hown)]

/-- A call answers the same when the keys are forgotten before it. -/
theorem answer_plain (h : KeyedQueue s) (l : Label) :
  answer pg s l = answer pg s.plain l
  := by
  have hmap : ∀ {x y : Except EngineError QueueState}, y = x.map QueueState.plain →
      x.map (fun _ => Answer.done) = y.map (fun _ => Answer.done) := by
    rintro x _ rfl
    cases x <;> rfl
  have hpair : ∀ {α : Type} {x y : Except EngineError (QueueState × α)} (f : α → Answer),
      x.map (fun p => (p.1.plain, p.2)) = y.map (fun p => (p.1.plain, p.2)) →
      x.map (fun p => f p.2) = y.map (fun p => f p.2) := by
    intro α x y f hxy
    cases x <;> cases y
    all_goals simp only [Except.map, Except.ok.injEq, Prod.mk.injEq, reduceCtorEq,
      Except.error.injEq] at hxy
    · rw [hxy]
    · exact congrArg (fun answer => Except.ok (f answer)) hxy.2
  have hcommutes : ∀ {α : Type} {x y : Except EngineError (QueueState × α)} (f : α → Answer),
      y = x.map (fun p => (p.1.plain, p.2)) →
      x.map (fun p => f p.2) = y.map (fun p => f p.2) := by
    rintro α x _ f rfl
    cases x <;> rfl
  cases l with
  | spawn now name params options =>
      exact hpair Answer.spawned (spawnTask_plain pg h now name params options)
  | claim now worker claimTimeout qty =>
      exact hcommutes Answer.claimed (claimTask_withKeys now worker claimTimeout qty)
  | complete now runId payload => exact hmap (completeRun_withKeys now runId payload)
  | schedule runId wakeAt => exact hmap (scheduleRun_withKeys runId wakeAt)
  | fail now runId reason retryAt => exact hmap (failRun_withKeys now runId reason retryAt)
  | retry now taskId spawnNew maxAttempts =>
      exact hpair Answer.spawned (retryTask_plain pg h now taskId spawnNew maxAttempts)
  | cancel now taskId => exact hmap (cancelTask_withKeys now taskId)
  | checkpoint now taskId stepName state ownerRun extendClaimBy =>
      exact hmap (setTaskCheckpointState_withKeys now taskId stepName state ownerRun extendClaimBy)
  | extend now runId extendBy => exact hmap (extendClaim_withKeys now runId extendBy)
  | await now taskId runId stepName eventName timeout =>
      exact hcommutes (fun p => .awaited p.1 p.2)
        (awaitEvent_withKeys now taskId runId stepName eventName timeout)
  | emit now eventName payload => exact hmap (emitEvent_withKeys now eventName payload)
  | cleanupTasks | cleanupEvents => rfl

/-- Two queues with the same rows have the same rows after the same calls, which both accept. -/
theorem run_plain {ls : List Label} (h : KeyedQueue s) (h' : KeyedQueue s') (hsame : s.plain = s'.plain)
    (l : Label) :
  ((machine pg).run s ls).map (fun s => (s.plain, answer pg s l))
    = ((machine pg).run s' ls).map (fun s => (s.plain, answer pg s l))
  := by
  induction ls generalizing s s' with
  | nil =>
      simp only [Machine.run, Option.map_some, Option.some.injEq, Prod.mk.injEq]
      use hsame
      rw [answer_plain h, answer_plain h', hsame]
  | cons l' ls ih =>
      have hstep : ((machine pg).step s l').map QueueState.plain
          = ((machine pg).step s' l').map QueueState.plain := by
        apply (step_plain h l').trans
        rw [hsame]
        exact (step_plain h' l').symm
      rw [Machine.run, Machine.run]
      cases hs : (machine pg).step s l' with
      | none =>
          rw [hs, Option.map_none, eq_comm, Option.map_eq_none_iff] at hstep
          rw [hstep]
      | some s₁ =>
          rw [hs, Option.map_some, eq_comm] at hstep
          obtain ⟨s₁', hs', hsame'⟩ := Option.map_eq_some_iff.mp hstep
          rw [hs', Option.bind_some, Option.bind_some]
          exact ih (h.step hs) (h'.step hs') hsame'.symm

/-- Nobody can tell how the tasks of a queue are stored: whatever calls are made of a new queue,
they are accepted when its tasks are partitioned exactly when they are otherwise, and then the
rows are the same and the next call answers the same, or raises the same. -/
theorem storage_invisible (pg : Postgres) (ls : List Label) (l : Label) :
  ((machine pg).run (.create .partitioned) ls).map (fun s => (s.plain, answer pg s l))
    = ((machine pg).run (.create .unpartitioned) ls).map (fun s => (s.plain, answer pg s l))
  := run_plain (.create .partitioned) (.create .unpartitioned) rfl l

end

end DjangoAbsurd.Engine
