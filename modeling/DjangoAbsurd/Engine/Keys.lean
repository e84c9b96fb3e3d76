import DjangoAbsurd.Engine.History

/-!
# Idempotency keys over the calls of a queue

A key has at most one task, and the queue finds it: in the rows of the tasks, or in the table
of the keys when the tasks are partitioned (`Lifecycle.KeysSound`). So a spawn with a key
returns the task that has it from then on, and a task keeps its key until a cleanup takes it.
-/

namespace DjangoAbsurd.Engine

/-- The task has the key. -/
def Lifecycle.Holds (k : Lifecycle) (key : String) (id : Uuid) : Prop :=
  ∃ t ∈ k.tasks.rows, t.taskId = id ∧ t.idempotencyKey = some key

/-- A key has one task at most, and the table of the keys of partitioned tasks has it. -/
structure Lifecycle.KeysSound (k : Lifecycle) : Prop where
  unique : ∀ key id id', k.Holds key id → k.Holds key id' → id = id'
  stored : k.storage = .partitioned →
    ∀ row : IdempotencyRow, row ∈ k.keys.rows ↔ k.Holds row.idempotencyKey row.taskId

/-- A key is found exactly when a task has it. -/
theorem Lifecycle.KeysSound.owner_iff {k : Lifecycle} (h : k.KeysSound) {key : String} {id : Uuid} :
  k.owner key = some id ↔ k.Holds key id
  := by
  rw [Lifecycle.owner]
  cases hstorage : k.storage with
  | unpartitioned =>
      simp only [Option.map_eq_some_iff]
      constructor
      · rintro ⟨t, ht, hid⟩
        exact ⟨t, List.mem_of_find?_eq_some ht, hid, by simpa using List.find?_some ht⟩
      · intro hholds
        have hsome := hholds
        obtain ⟨t, ht, -, hkey⟩ := hsome
        cases hfound : k.tasks.rows.find? (fun t => t.idempotencyKey = some key) with
        | none =>
            have hnone := List.find?_eq_none.mp hfound t ht
            simp [hkey] at hnone
        | some t' =>
            use t', rfl
            apply h.unique key _ _ _ hholds
            exact ⟨t', List.mem_of_find?_eq_some hfound, rfl, by simpa using List.find?_some hfound⟩
  | partitioned =>
      simp only [Option.map_eq_some_iff]
      constructor
      · rintro ⟨row, hrow, rfl⟩
        obtain rfl := Keyed.Table.key_of_get? hrow
        exact (h.stored hstorage row).mp (Keyed.Table.mem_of_get? hrow)
      · intro hholds
        have hrow := (h.stored hstorage ⟨key, id⟩).mpr hholds
        exact ⟨⟨key, id⟩, Keyed.Table.get?_of_mem hrow, rfl⟩

theorem keysSound_create (storage : StorageMode) :
  (Lifecycle.create storage).KeysSound
  := by
  constructor
  · rintro key id id' ⟨t, ht, -⟩
    exact absurd ht List.not_mem_nil
  · intro _ row
    constructor
    · intro hrow
      exact absurd hrow List.not_mem_nil
    · rintro ⟨t, ht, -⟩
      exact absurd ht List.not_mem_nil

/-! ### Keys under changes -/

section

variable {k : Lifecycle} {c : Change} {key : String} {id : Uuid}

/-- A change that spares a task leaves it its key. -/
theorem Lifecycle.Holds.apply (h : k.Holds key id) (hk : k.Consistent) (hc : c.Allowed k)
    (hs : c.Spares id) :
  (c.apply k).Holds key id
  := by
  obtain ⟨t, ht, rfl, hkey⟩ := h
  have hrow := Change.get?_tasks_apply hk hc hs (Keyed.Table.get?_of_mem ht)
  obtain ⟨hid', -, -, hkey'⟩ := TaskRow.eq_of_origin (Change.origin_task k c t)
  exact ⟨c.task k t, Keyed.Table.mem_of_get? hrow, hid', hkey'.trans hkey⟩

/-- A task that has a key after a change had it before, or it is spawned with it. -/
theorem holds_apply (h : (c.apply k).Holds key id) :
  k.Holds key id ∨ ∃ now t, c = .spawn now t ∧ t.taskId = id ∧ t.idempotencyKey = some key
  := by
  obtain ⟨t', ht', rfl, hkey⟩ := h
  rcases Change.mem_tasks_apply ht' with ⟨t, ht, rfl⟩ | ⟨now, rfl⟩
  · obtain ⟨hid, -, -, hkey'⟩ := TaskRow.eq_of_origin (Change.origin_task k c t)
    exact .inl ⟨t, ht, hid.symm, hkey'.symm.trans hkey⟩
  · exact .inr ⟨now, t', rfl, rfl, hkey⟩

/-- A change that spawns no task and deletes none leaves the keys of the tasks as they
are. -/
theorem holds_apply_iff (hk : k.Consistent) (hc : c.Allowed k) (hspares : ∀ id, c.Spares id)
    (hspawn : ∀ now t, c ≠ .spawn now t) :
  (c.apply k).Holds key id ↔ k.Holds key id
  := by
  constructor
  · intro h
    rcases holds_apply h with h | ⟨now, t, hc', -⟩
    · exact h
    · exact absurd hc' (hspawn now t)
  · exact fun h => h.apply hk hc (hspares id)

theorem keysSound_spawn (h : k.KeysSound) {now : Time} {t : TaskRow} (hk : k.Consistent)
    (hc : (Change.spawn now t).Allowed k) :
  ((Change.spawn now t).apply k).KeysSound
  := by
  have hfree : ∀ {key id}, t.idempotencyKey = some key → ¬ k.Holds key id := by
    intro key id hkey hholds
    have hnone := hc.2 key hkey
    rw [h.owner_iff.mpr hholds] at hnone
    cases hnone
  have hnew : ((Change.spawn now t).apply k).tasks = k.tasks.put t := rfl
  have hholds : ∀ {key id}, ((Change.spawn now t).apply k).Holds key id
      ↔ k.Holds key id ∨ (t.taskId = id ∧ t.idempotencyKey = some key) := by
    intro key id
    constructor
    · intro hholds
      rcases holds_apply hholds with hholds | ⟨_, _, heq, hid, hkey⟩
      · exact .inl hholds
      · cases heq
        exact .inr ⟨hid, hkey⟩
    · rintro (hholds | ⟨hid, hkey⟩)
      · exact hholds.apply hk hc trivial
      · exact ⟨t, hnew ▸ Keyed.Table.mem_put.mpr (.inl rfl), hid, hkey⟩
  constructor
  · intro key id id' hid hid'
    rcases hholds.mp hid with hid | ⟨hid, hkey⟩
    · rcases hholds.mp hid' with hid' | ⟨hid', hkey'⟩
      · exact h.unique key id id' hid hid'
      · exact absurd hid (hfree hkey')
    · rcases hholds.mp hid' with hid' | ⟨hid', hkey'⟩
      · exact absurd hid' (hfree hkey)
      · exact hid.symm.trans hid'
  · intro hstorage row
    have hstorage' : k.storage = .partitioned := hstorage
    rw [hholds, ← h.stored hstorage']
    simp only [Change.apply, Lifecycle.insertTask, hstorage']
    cases hkey : t.idempotencyKey with
    | none => simp
    | some key =>
        rw [Keyed.Table.mem_put]
        constructor
        · rintro (rfl | ⟨hrow, -⟩)
          · exact .inr ⟨rfl, rfl⟩
          · exact .inl hrow
        · rintro (hrow | ⟨hid, hkey'⟩)
          · right
            use hrow
            intro heq
            have hheld := (h.stored hstorage' row).mp hrow
            exact hfree (heq ▸ hkey) hheld
          · left
            rw [hid, Option.some.inj hkey']

theorem keysSound_delete (h : k.KeysSound) (hk : k.Consistent) (batch : List Uuid) :
  ((Change.delete batch).apply k).KeysSound
  := by
  have hholds : ∀ {key id}, ((Change.delete batch).apply k).Holds key id
      ↔ k.Holds key id ∧ id ∉ batch := by
    intro key id
    constructor
    · rintro ⟨t, ht, rfl, hkey⟩
      obtain ⟨ht, hbatch⟩ := Keyed.Table.mem_delete.mp ht
      exact ⟨⟨t, ht, rfl, hkey⟩, by simpa using hbatch⟩
    · rintro ⟨hholds, hbatch⟩
      exact hholds.apply hk trivial hbatch
  constructor
  · intro key id id' hid hid'
    exact h.unique key id id' (hholds.mp hid).1 (hholds.mp hid').1
  · intro hstorage row
    have hstorage' : k.storage = .partitioned := hstorage
    rw [hholds, ← h.stored hstorage']
    simp only [Change.apply, Lifecycle.delete, Keyed.Table.mem_delete, hstorage', true_and,
      decide_eq_false_iff_not]

/-- A change keeps the keys sound. -/
theorem Lifecycle.KeysSound.step {k' : Lifecycle} (h : k.KeysSound) (hk : k.Consistent)
    (hs : lifecycle.step k c = some k') :
  k'.KeysSound
  := by
  obtain ⟨hc, rfl⟩ := step_lifecycle.mp hs
  have hsame : (∀ id, c.Spares id) → (∀ now t, c ≠ .spawn now t) → (c.apply k).keys = k.keys →
      (c.apply k).storage = k.storage → (c.apply k).KeysSound := by
    intro hspares hspawn hkeys hstorage
    constructor
    · intro key id id' hid hid'
      rw [holds_apply_iff hk hc hspares hspawn] at hid hid'
      exact h.unique key id id' hid hid'
    · intro hpartitioned row
      rw [holds_apply_iff hk hc hspares hspawn, hkeys]
      exact h.stored (hstorage.symm.trans hpartitioned) row
  cases c with
  | spawn now t => exact keysSound_spawn h hk hc
  | delete batch => exact keysSound_delete h hk batch
  | _ => exact hsame (fun _ => trivial) (fun _ _ heq => by cases heq) rfl rfl

end

/-! ### Keys under calls -/

section

variable {pg : Postgres} {s s' : QueueState} {ls : List Label} {key : String} {id : Uuid}

/-- Every call of a queue keeps the keys sound. -/
structure KeyedQueue (s : QueueState) : Prop where
  consistent : s.life.Consistent
  keys : s.life.KeysSound

theorem KeyedQueue.create (storage : StorageMode) :
  KeyedQueue (.create storage)
  := ⟨.create storage, keysSound_create storage⟩

theorem KeyedQueue.step {l : Label} (h : KeyedQueue s) (hs : Engine.step pg s l = some s') :
  KeyedQueue s'
  := by
  obtain ⟨cs, hcs, -⟩ := refines_step hs
  have hrun : s'.life.Consistent ∧ s'.life.KeysSound := by
    apply Machine.invariant (I := fun k => k.Consistent ∧ k.KeysSound) _ ⟨h.consistent, h.keys⟩ hcs
    rintro k c k' ⟨hk, hkeys⟩ hc
    exact ⟨hk.step hc, hkeys.step hk hc⟩
  exact ⟨hrun.1, hrun.2⟩

/-- A call that spares a task leaves it its key. -/
theorem holds_step {l : Label} (h : KeyedQueue s) (hholds : s.life.Holds key id)
    (hspares : Spares id l) (hs : Engine.step pg s l = some s') :
  s'.life.Holds key id
  := by
  apply preserved_step (I := fun k => k.Holds key id) h.consistent _ hholds hs
  intro k c hmake hk hc hholds
  exact hholds.apply hk hc (spares_of_makes hspares hmake)

/-- A spawn with a key returns the task that has the key then, and created it only when no
task had it. -/
theorem spawnTask_keyed {now : Time} {name : String} {params options : Json} {spawned : Spawned}
    (h : KeyedQueue s) (hkey : textMember options "idempotency_key" = some key)
    (hs : spawnTask pg s now name params options = .ok (s', spawned)) :
  s'.life.Holds key spawned.taskId
    ∧ (spawned.created = true ↔ ∀ id, ¬ s.life.Holds key id)
  := by
  have hstep : Engine.step pg s (.spawn now name params options) = some s' :=
    congrArg (fun x => (Except.map Prod.fst x).toOption) hs
  obtain ⟨read, hread, ⟨hexisting, -⟩ | ⟨hexisting, rfl, rfl⟩⟩ := spawnTask_eq_ok hs
  · rw [findExisting, hread, hkey] at hexisting
    obtain ⟨howner, hcreated⟩ := findKey_eq_ok hexisting
    have hholds := h.keys.owner_iff.mp howner
    constructor
    · exact holds_step h hholds (l := .spawn now name params options) trivial hstep
    · rw [hcreated]
      constructor
      · exact fun hfalse => by cases hfalse
      · exact fun hnone => absurd hholds (hnone _)
  · constructor
    · exact ⟨_, Keyed.Table.mem_put.mpr (.inl rfl), rfl, hread.trans hkey⟩
    · simp only [true_iff]
      intro id hholds
      rw [findExisting, hread, hkey] at hexisting
      have hnone := owner_of_findKey hexisting
      rw [h.keys.owner_iff.mpr hholds] at hnone
      cases hnone

/-! ### The rows after a call -/

/-- The row is of a task the call spawns: with what the call asks for, or with what another
task of the queue was spawned with, and no key. -/
def Label.Spawns (l : Label) (s : QueueState) (t : TaskRow) : Prop :=
  t.taskId = ⟨s.drawn⟩ ∧ t.state = .pending
    ∧ ((∃ now options, l = .spawn now t.taskName t.params options
        ∧ t.idempotencyKey = textMember options "idempotency_key")
      ∨ ∃ t₀ ∈ s.tasks.rows, t.taskName = t₀.taskName ∧ t.params = t₀.params
        ∧ t.idempotencyKey = none)

theorem rows_spawnTask {now : Time} {name : String} {params options : Json} {spawned : Spawned}
    (hs : spawnTask pg s now name params options = .ok (s', spawned)) :
  ∀ t' ∈ s'.tasks.rows, t' ∈ s.tasks.rows
    ∨ (t'.taskId = ⟨s.drawn⟩ ∧ t'.state = .pending ∧ t'.taskName = name ∧ t'.params = params
      ∧ t'.idempotencyKey = textMember options "idempotency_key")
  := by
  obtain ⟨read, hread, ⟨-, rfl⟩ | ⟨-, rfl, -⟩⟩ := spawnTask_eq_ok hs
  · exact fun t' ht' => .inl ht'
  · intro t' ht'
    rcases Keyed.Table.mem_put.mp ht' with rfl | ⟨ht', -⟩
    · exact .inr ⟨rfl, rfl, rfl, rfl, hread⟩
    · exact .inl ht'

/-- A spawn without a key creates the task it returns. -/
theorem spawnTask_unkeyed {now : Time} {name : String} {params options : Json} {spawned : Spawned}
    (hkey : textMember options "idempotency_key" = none)
    (hs : spawnTask pg s now name params options = .ok (s', spawned)) :
  spawned.created = true
  := by
  obtain ⟨read, hread, ⟨hexisting, -⟩ | ⟨-, -, rfl⟩⟩ := spawnTask_eq_ok hs
  · rw [findExisting, hread, hkey] at hexisting
    cases hexisting
  · rfl

/-- A spawn returns a task that has its key, or the one it creates. -/
theorem spawnTask_returned {now : Time} {name : String} {params options : Json} {spawned : Spawned}
    (h : KeyedQueue s) (hs : spawnTask pg s now name params options = .ok (s', spawned)) :
  ∃ t ∈ s'.tasks.rows, t.taskId = spawned.taskId
    ∧ ((∃ key, textMember options "idempotency_key" = some key ∧ t.idempotencyKey = some key)
      ∨ t.taskName = name)
  := by
  cases hkey : textMember options "idempotency_key" with
  | some key =>
      obtain ⟨⟨t, ht, hid, hkey'⟩, -⟩ := spawnTask_keyed h hkey hs
      exact ⟨t, ht, hid, .inl ⟨key, rfl, hkey'⟩⟩
  | none =>
      obtain ⟨t, ht, hid, hname, -⟩ := spawnTask_created hs (spawnTask_unkeyed hkey hs)
      exact ⟨t, ht, hid, .inr hname⟩

/-- Every task that is there after a call has what a task was spawned with before, or the call
spawns it. -/
theorem rows_step {l : Label} (h : s.life.Consistent) (hs : Engine.step pg s l = some s') :
  ∀ t' ∈ s'.tasks.rows, (∃ t ∈ s.tasks.rows, t'.origin = t.origin) ∨ l.Spawns s t'
  := by
  have hkept : (∀ now t, ¬ l.Makes (.spawn now t)) →
      ∀ t' ∈ s'.tasks.rows, (∃ t ∈ s.tasks.rows, t'.origin = t.origin) := by
    intro hnever
    apply preserved_step (I := fun k => ∀ t' ∈ k.tasks.rows,
      ∃ t ∈ s.tasks.rows, t'.origin = t.origin) h _ (fun t ht => ⟨t, ht, rfl⟩) hs
    intro k c hmake _ _ hI t' ht'
    rcases Change.mem_tasks_apply ht' with ⟨t, ht, rfl⟩ | ⟨now, rfl⟩
    · rw [Change.origin_task k c t]
      exact hI t ht
    · exact absurd hmake (hnever now t')
  by_cases hnever : ∀ now t, ¬ l.Makes (.spawn now t)
  · exact fun t' ht' => .inl (hkept hnever t' ht')
  · push Not at hnever
    obtain ⟨now, t₁, ⟨options, rfl, -⟩ | ⟨id, maxAttempts, rfl, -⟩⟩ := hnever
    · obtain ⟨⟨_, spawned⟩, hspawn, rfl⟩ := Except.map_eq_ok (Except.toOption_eq_some.mp hs)
      intro t' ht'
      rcases rows_spawnTask hspawn t' ht' with ht' | ⟨hid, hstate, hname, hparams, hkey⟩
      · exact .inl ⟨t', ht', rfl⟩
      · right
        refine ⟨hid, hstate, .inl ⟨now, options, ?_, hkey⟩⟩
        rw [hname, hparams]
    · obtain ⟨⟨_, spawned⟩, hretry, rfl⟩ := Except.map_eq_ok (Except.toOption_eq_some.mp hs)
      rw [retryTask] at hretry
      split at hretry
      · cases hretry
      · split at hretry
        · cases hretry
        · rename_i t₀ ht₀
          split at hretry
          · intro t' ht'
            rcases rows_spawnTask hretry t' ht' with ht' | ⟨hid, hstate, hname, hparams, hkey⟩
            · exact .inl ⟨t', ht', rfl⟩
            · right
              rw [key_respawnOptions] at hkey
              exact ⟨hid, hstate, .inr ⟨t₀, Keyed.Table.mem_of_get? ht₀, hname, hparams, hkey⟩⟩
          · cases hretry

/-- Every run that is there after a call is of the task it was of before, or its id is drawn
since. -/
theorem runs_step {l : Label} (h : s.life.Consistent) (hs : Engine.step pg s l = some s') :
  ∀ r' ∈ s'.runs.rows, (∃ r ∈ s.runs.rows, r'.runId = r.runId ∧ r'.taskId = r.taskId)
    ∨ s.drawn ≤ r'.runId.index
  := by
  have hback := preserved_step (I := fun k => s.drawn ≤ k.drawn ∧ ∀ r' ∈ k.runs.rows,
    (∃ r ∈ s.runs.rows, r'.runId = r.runId ∧ r'.taskId = r.taskId)
      ∨ s.drawn ≤ r'.runId.index) h
    (by
      rintro k c - hk hc ⟨hdrawn, hI⟩
      use hdrawn.trans (Change.drawn_le_apply hc)
      intro r' hr'
      rcases Change.mem_runs_apply hr' with ⟨r, hr, rfl⟩ | hadded
      · rw [Change.runId_run, Change.taskId_run]
        exact hI r hr
      · exact .inr (hdrawn.trans (Change.added_fresh hc hadded).1))
    ⟨le_refl _, fun r hr => .inl ⟨r, hr, rfl, rfl⟩⟩ hs
  exact hback.2

/-- A row after a call: what a row before the call has become, completed only as it was or by
the call, or the row of a task the call spawns. -/
theorem becomes_step {l : Label} (hsound : Sound s) (h : s.life.Consistent)
    (hs : Engine.step pg s l = some s') :
  ∀ t' ∈ s'.tasks.rows, (∃ t ∈ s.tasks.rows, t'.origin = t.origin
      ∧ (t'.state = .completed → t' = t ∨ Completes s l t'.taskId t'.completedPayload))
    ∨ l.Spawns s t'
  := by
  intro t' ht'
  rcases rows_step h hs t' ht' with ⟨t, ht, horigin⟩ | hspawns
  · left
    obtain ⟨hid, -⟩ := TaskRow.eq_of_origin horigin
    have hdrawn : t'.taskId.index < s.drawn := by
      rw [hid]
      exact hsound.drawn t ht
    obtain ⟨t₀, ht₀, -, hcompleted⟩ :=
      continues_step hsound hs hdrawn (Keyed.Table.get?_of_mem ht')
    rw [hid, Keyed.Table.get?_of_mem ht] at ht₀
    obtain rfl := Option.some.inj ht₀
    exact ⟨t, ht, horigin, hcompleted⟩
  · exact .inr hspawns

/-- The tasks and the runs of the later queue whose ids were drawn in the earlier one are the
earlier one's. -/
structure Carries (s s' : QueueState) : Prop where
  drawn : s.drawn ≤ s'.drawn
  tasks : ∀ t' ∈ s'.tasks.rows, t'.taskId.index < s.drawn →
    ∃ t ∈ s.tasks.rows, t'.origin = t.origin
  runs : ∀ r' ∈ s'.runs.rows, r'.runId.index < s.drawn →
    ∃ r ∈ s.runs.rows, r'.runId = r.runId ∧ r'.taskId = r.taskId

theorem Carries.refl (s : QueueState) :
  Carries s s
  := ⟨le_refl _, fun t ht _ => ⟨t, ht, rfl⟩, fun r hr _ => ⟨r, hr, rfl, rfl⟩⟩

theorem carries_step {l : Label} (hsound : Sound s) (h : s.life.Consistent)
    (hs : Engine.step pg s l = some s') :
  Carries s s'
  := by
  constructor
  · apply drawn_step hsound hs
  · intro t' ht' hdrawn
    rcases rows_step h hs t' ht' with hold | ⟨hid, -⟩
    · exact hold
    · rw [hid] at hdrawn
      exact absurd hdrawn (Nat.lt_irrefl _)
  · intro r' hr' hdrawn
    rcases runs_step h hs r' hr' with hold | hnew
    · exact hold
    · exact absurd hdrawn (Nat.not_lt.mpr hnew)

end

end DjangoAbsurd.Engine
