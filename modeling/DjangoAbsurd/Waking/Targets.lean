import DjangoAbsurd.Waking.Machine

/-!
# The target of a wrapper with a key

Between the enqueue of a target and the commit of the step a worker may lose its claim or
die, and the next attempt runs the function of the step again; a task may be enqueued with
the key at any time. The tables of the queue and every attempt under way agree on the target
all the same (`WakingState.Sound`): a checkpoint of the step and what an attempt has of it are
the id of the task that has the key.
-/

namespace DjangoAbsurd

open Engine

/-! ### What the steps are assumed to be -/

/-- A call of the engine that has nothing to do with the enqueues with the key: it cleans up
no task with the key or the wrappers' key, spawns none, and does not record the step of a
wrapper. -/
structure Unrelated (setup : WakingSetup) (definition : Task) (key : String) (s : QueueState)
    (l : Label) : Prop where
  spares : ∀ deferred id, s.life.Holds (spawnedKey deferred key) id → Spares id l
  spawns : ∀ deferred now name params options, l = .spawn now name params options →
    textMember options "idempotency_key" ≠ some (spawnedKey deferred key)
  records : ∀ id, l.Records id (enqueueStep definition.modulePath) →
    ∃ t, s.tasks.get? id = some t ∧ ¬ Wraps setup definition key t.taskName t.params

/-- The engine is called by others for other tasks, what is enqueued carries the key, and the
attempts are those of wrappers with the key. -/
def WakingLabel.Allowed (setup : WakingSetup) (definition : Task) (key : String)
    (S : WakingState) : WakingLabel → Prop
  | .call l => Unrelated setup definition key S.queue l
  | .enqueue _ t _ _ _ => KeyedEnqueue setup definition key t
  | .arrive _ run => ∀ r t, S.queue.runs.get? run = some r → S.queue.tasks.get? r.taskId = some t →
      Wraps setup definition key t.taskName t.params
  | _ => True

/-! ### The tables of the queue -/

/-- The value is the id of the target. -/
def NamesTarget (setup : WakingSetup) (key : String) (s : QueueState) (value : Option Json) :
    Prop :=
  ∃ id, s.life.Holds (spawnedKey false key) id
    ∧ value = some (.str (setup.queue ++ ":" ++ setup.project.ids.print id))

/-- The task is there and is no wrapper with the key. -/
def OtherTask (setup : WakingSetup) (definition : Task) (key : String) (s : QueueState)
    (id : Uuid) : Prop :=
  ∃ t, s.tasks.get? id = some t ∧ ¬ Wraps setup definition key t.taskName t.params

/-- The task with the key is the target and the one with the wrappers' key is a wrapper, and
the step of a wrapper is recorded with the id of the target. -/
structure QueueSound (setup : WakingSetup) (definition : Task) (key : String) (s : QueueState) :
    Prop where
  keyed : KeyedQueue s
  target : ∀ t ∈ s.tasks.rows, t.idempotencyKey = some (spawnedKey false key) →
    t.taskName = definition.modulePath
  wrapper : ∀ t ∈ s.tasks.rows, t.idempotencyKey = some (spawnedKey true key) →
    Wraps setup definition key t.taskName t.params
  checkpoints : ∀ c ∈ s.checkpoints.rows, c.checkpointName = enqueueStep definition.modulePath →
    NamesTarget setup key s c.state ∨ OtherTask setup definition key s c.taskId
  waits : ∀ w ∈ s.waits.rows, w.stepName = enqueueStep definition.modulePath →
    OtherTask setup definition key s w.taskId

/-- The tasks with the keys keep them. -/
def KeepsKeys (key : String) (s s' : QueueState) : Prop :=
  ∀ deferred id, s.life.Holds (spawnedKey deferred key) id →
    s'.life.Holds (spawnedKey deferred key) id

theorem KeepsKeys.refl (key : String) (s : QueueState) :
  KeepsKeys key s s
  := fun _ _ hholds => hholds

section

variable {setup : WakingSetup} {definition t : Task} {key : String} {s s' : QueueState}
  {l : Label}

/-- A task that is no wrapper with the key stays one while it is spared. -/
theorem OtherTask.step {id : Uuid} (h : OtherTask setup definition key s id)
    (hconsistent : s.life.Consistent) (hspares : Spares id l)
    (hs : Engine.step setup.pg s l = some s') :
  OtherTask setup definition key s' id
  := by
  obtain ⟨t, ht, hother⟩ := h
  obtain ⟨t', ht', horigin⟩ := row_step hconsistent ht hspares hs
  obtain ⟨-, hname, hparams, -⟩ := TaskRow.eq_of_origin horigin
  use t', ht'
  rwa [hname, hparams]

/-- The id of the target stays the id of the target as long as the target keeps its key. -/
theorem NamesTarget.mono {value : Option Json} (h : NamesTarget setup key s value)
    (hkept : KeepsKeys key s s') :
  NamesTarget setup key s' value
  := by
  obtain ⟨id, hholds, hvalue⟩ := h
  exact ⟨id, hkept false id hholds, hvalue⟩

/-- A call that spares the tasks with the keys, spawns with them what belongs there, and
records the step of a wrapper with the id of the target alone. -/
theorem QueueSound.step (h : QueueSound setup definition key s)
    (hspares : ∀ deferred id, s.life.Holds (spawnedKey deferred key) id → Spares id l)
    (hspawns : ∀ deferred now name params options, l = .spawn now name params options →
      textMember options "idempotency_key" = some (spawnedKey deferred key) →
      (deferred = false → name = definition.modulePath)
        ∧ (deferred = true → Wraps setup definition key name params))
    (hcheckpoints : ∀ c ∈ s'.checkpoints.rows,
      c.checkpointName = enqueueStep definition.modulePath → c ∈ s.checkpoints.rows
        ∨ NamesTarget setup key s c.state ∨ OtherTask setup definition key s c.taskId)
    (hwaits : ∀ w ∈ s'.waits.rows, w.stepName = enqueueStep definition.modulePath →
      w ∈ s.waits.rows ∨ OtherTask setup definition key s w.taskId)
    (hs : Engine.step setup.pg s l = some s') :
  QueueSound setup definition key s' ∧ KeepsKeys key s s'
  := by
  have hconsistent := h.keyed.consistent
  have hkept : KeepsKeys key s s' := fun deferred id hholds =>
    holds_step h.keyed hholds (hspares deferred id hholds) hs
  use ?_, hkept
  obtain ⟨hsparesC, hsparesW⟩ := spared_step hs
  have hrows := rows_step hconsistent hs
  constructor
  · exact h.keyed.step hs
  · intro t' ht' hkey
    rcases hrows t' ht' with
      ⟨t, ht, horigin⟩ | ⟨-, -, ⟨now, options, rfl, hoptions⟩ | ⟨_, -, -, -, hnone⟩⟩
    · obtain ⟨-, hname, -, hkey'⟩ := TaskRow.eq_of_origin horigin
      rw [hname]
      exact h.target t ht (hkey'.symm.trans hkey)
    · exact (hspawns false now _ _ options rfl (hoptions.symm.trans hkey)).1 rfl
    · rw [hnone] at hkey
      cases hkey
  · intro t' ht' hkey
    rcases hrows t' ht' with
      ⟨t, ht, horigin⟩ | ⟨-, -, ⟨now, options, rfl, hoptions⟩ | ⟨_, -, -, -, hnone⟩⟩
    · obtain ⟨-, hname, hparams, hkey'⟩ := TaskRow.eq_of_origin horigin
      rw [hname, hparams]
      exact h.wrapper t ht (hkey'.symm.trans hkey)
    · exact (hspawns true now _ _ options rfl (hoptions.symm.trans hkey)).2 rfl
    · rw [hnone] at hkey
      cases hkey
  · intro c hc hname
    have hknown : NamesTarget setup key s c.state ∨ OtherTask setup definition key s c.taskId := by
      rcases hcheckpoints c hc hname with hc | hknown
      · exact h.checkpoints c hc hname
      · exact hknown
    rcases hknown with hnames | hother
    · exact .inl (hnames.mono hkept)
    · exact .inr (hother.step hconsistent (hsparesC c hc) hs)
  · intro w hw hname
    have hknown : OtherTask setup definition key s w.taskId := by
      rcases hwaits w hw hname with hw | hknown
      · exact h.waits w hw hname
      · exact hknown
    exact hknown.step hconsistent (hsparesW w hw) hs

/-- A call that does not record the step of a wrapper leaves its records as they are. -/
theorem QueueSound.recorded (h : QueueSound setup definition key s)
    (hrecords : ∀ id, l.Records id (enqueueStep definition.modulePath) →
      OtherTask setup definition key s id)
    (hs : Engine.step setup.pg s l = some s') :
  (∀ c ∈ s'.checkpoints.rows, c.checkpointName = enqueueStep definition.modulePath →
      c ∈ s.checkpoints.rows
        ∨ NamesTarget setup key s c.state ∨ OtherTask setup definition key s c.taskId)
    ∧ ∀ w ∈ s'.waits.rows, w.stepName = enqueueStep definition.modulePath →
      w ∈ s.waits.rows ∨ OtherTask setup definition key s w.taskId
  := by
  have hrecorded := recorded_step hs
  constructor
  · intro c hc hname
    rcases hrecorded.checkpoints c hc with hc | hl | ⟨w, hw, hid, hwname⟩
    · exact .inl hc
    · rw [hname] at hl
      exact .inr (.inr (hrecords c.taskId hl))
    · rw [← hid]
      exact .inr (.inr (h.waits w hw (hwname.trans hname)))
  · intro w hw hname
    rcases hrecorded.waits w hw with hw | hl
    · exact .inl hw
    · rw [hname] at hl
      exact .inr (hrecords w.taskId hl)

/-- An unrelated call keeps the tables sound. -/
theorem QueueSound.unrelated (h : QueueSound setup definition key s)
    (hunrelated : Unrelated setup definition key s l)
    (hs : Engine.step setup.pg s l = some s') :
  QueueSound setup definition key s' ∧ KeepsKeys key s s'
  := by
  obtain ⟨hcheckpoints, hwaits⟩ := h.recorded hunrelated.records hs
  apply h.step hunrelated.spares _ hcheckpoints hwaits hs
  intro deferred now name params options hl hkey
  exact absurd hkey (hunrelated.spawns deferred now name params options hl)

/-- A spawn with the key keeps the tables sound, and the task it is given has the key. -/
theorem QueueSound.spawn (h : QueueSound setup definition key s) {deferred : Bool} {id : Uuid}
    (hspawns : SpawnsKeyed setup definition key deferred s s' id) :
  (QueueSound setup definition key s' ∧ KeepsKeys key s s')
    ∧ s'.life.Holds (spawnedKey deferred key) id
  := by
  obtain ⟨now, name, params, options, spawned, hspawn, rfl, hkey, htarget, hwrapper⟩ := hspawns
  have hs : Engine.step setup.pg s (.spawn now name params options) = some s' :=
    congrArg (fun x => (Except.map Prod.fst x).toOption) hspawn
  obtain ⟨hcheckpoints, hwaits⟩ :=
    h.recorded (fun _ hl => absurd hl (not_records rfl _ _)) hs
  have hspares : ∀ id, Spares id (.spawn now name params options) := fun _ => trivial
  refine ⟨?_, (spawnTask_keyed h.keyed hkey hspawn).1⟩
  apply h.step (fun _ id _ => hspares id) _ hcheckpoints hwaits hs
  intro deferred' now' name' params' options' hl hkey'
  cases hl
  have hsame : deferred = deferred' := by
    have hkeys := Option.some.inj (hkey.symm.trans hkey')
    by_contra hne
    have hlength := congrArg String.length hkeys
    cases deferred <;> cases deferred' <;> simp [spawnedKey, deferNameSuffix] at hlength hne
  subst hsame
  exact ⟨htarget, hwrapper⟩

end

/-! ### The attempts -/

/-- What an attempt has of the step is the id of the target. -/
def WakingPhase.Names (setup : WakingSetup) (key : String) (s : QueueState) : WakingPhase → Prop
  | .enqueuing => True
  | .enqueued id => NamesTarget setup key s (some (.str id))
  | .returned value => NamesTarget setup key s (some value)

/-- The tables are sound, and every attempt is one of a wrapper with the key and returns the
id of the target. -/
structure WakingState.Sound (setup : WakingSetup) (definition : Task) (key : String)
    (S : WakingState) : Prop where
  queue : QueueSound setup definition key S.queue
  attempts : ∀ n a, S.attempts n = some a →
    Wraps setup definition key a.name a.params ∧ a.phase.Names setup key S.queue
  completed : ∀ entry ∈ S.completed, NamesTarget setup key S.queue (some entry.2)

section

variable {setup : WakingSetup} {definition : Task} {key : String} {S S' : WakingState}

/-- The name of a wrapper leads with the path of the definition. -/
theorem step_of_wraps (htask : KeyedTask setup definition key) {name : String} {params : Json}
    (h : Wraps setup definition key name params) :
  enqueueStep (removeSuffix name deferNameSuffix) = enqueueStep definition.modulePath
  := by
  obtain ⟨t, config, due, args, kwargs, wrapper, hkeyed, hdue, hrequest, rfl, -⟩ := h
  obtain ⟨hname, -⟩ := wrapper_carries hdue hrequest
  rw [hname, removeSuffix_append, htask.modulePath_eq hkeyed.derives]

/-- The tables go on, and the tasks with the keys keep them. -/
theorem WakingState.Sound.setQueue (h : S.Sound setup definition key) {s : QueueState}
    (hs : QueueSound setup definition key s ∧ KeepsKeys key S.queue s) :
  WakingState.Sound setup definition key { S with queue := s }
  := by
  obtain ⟨hsound, hkept⟩ := hs
  constructor
  · exact hsound
  · intro n a ha
    obtain ⟨hwraps, hnames⟩ := h.attempts n a ha
    use hwraps
    cases hphase : a.phase with
    | enqueuing => exact trivial
    | enqueued id =>
        rw [hphase] at hnames
        exact NamesTarget.mono hnames hkept
    | returned value =>
        rw [hphase] at hnames
        exact NamesTarget.mono hnames hkept
  · exact fun entry hentry => (h.completed entry hentry).mono hkept

/-- An attempt of a wrapper goes on, or is gone. -/
theorem WakingState.Sound.setAttempt (h : S.Sound setup definition key) (n : ℕ)
    {a : Option WakingAttempt}
    (ha : ∀ a', a = some a' →
      Wraps setup definition key a'.name a'.params ∧ a'.phase.Names setup key S.queue) :
  (S.setAttempt n a).Sound setup definition key
  := by
  constructor
  · exact h.queue
  · exact WakingState.forall_setAttempt h.attempts n ha
  · exact h.completed

theorem WakingState.Sound.crash (h : S.Sound setup definition key) (n : ℕ) :
  (S.setAttempt n none).Sound setup definition key
  := by
  apply h.setAttempt n
  intro a ha
  cases ha

/-- An attempt that comes to the step replays the id of the target. -/
theorem WakingState.Sound.arrived (htask : KeyedTask setup definition key)
    (h : S.Sound setup definition key) {run : Uuid} {a : WakingAttempt}
    (hallowed : ∀ r t, S.queue.runs.get? run = some r → S.queue.tasks.get? r.taskId = some t →
      Wraps setup definition key t.taskName t.params)
    (ha : WakingSetup.arrived S.queue run = some a) :
  Wraps setup definition key a.name a.params ∧ a.phase.Names setup key S.queue
  := by
  obtain ⟨r, hr, ha⟩ := Option.bind_eq_some_iff.mp ha
  obtain ⟨t, ht, ha⟩ := Option.bind_eq_some_iff.mp ha
  have hwraps := hallowed r t hr ht
  split at ha
  · dsimp only at ha
    split at ha
    · cases ha
      exact ⟨hwraps, trivial⟩
    · rename_i c hc
      cases ha
      use hwraps
      have hkey := Keyed.Table.key_of_get? hc
      obtain ⟨hid, hname⟩ := Prod.mk.inj hkey
      have hstep : c.checkpointName = enqueueStep definition.modulePath :=
        hname.trans (step_of_wraps htask hwraps)
      rcases h.queue.checkpoints c (Keyed.Table.mem_of_get? hc) hstep with
        ⟨id, hholds, hstate⟩ | ⟨t', ht', hother⟩
      · exact ⟨id, hholds, by rw [hstate]; rfl⟩
      · rw [hid, Keyed.Table.key_of_get? ht] at ht'
        rw [ht] at ht'
        obtain rfl := Option.some.inj ht'
        exact absurd hwraps hother
  · cases ha

/-- The target of a wrapper is spawned, and its attempt goes on with the id. -/
theorem WakingState.Sound.wake (htask : KeyedTask setup definition key)
    (hhere : WakesHere setup definition) (h : S.Sound setup definition key) {n : ℕ} {now : Time}
    {elsewhere : Spawn}
    (hs : setup.step S (.wake n now elsewhere) = some S') :
  S'.Sound setup definition key ∧ KeepsKeys key S.queue S'.queue
  := by
  rw [WakingSetup.step] at hs
  split at hs
  · rename_i run task name params hattempt
    obtain ⟨hwraps, -⟩ := h.attempts n _ hattempt
    split at hs
    · obtain rfl := Option.some.inj hs
      exact ⟨h.crash n, .refl key S.queue⟩
    · rename_i s result hwake
      obtain rfl := Option.some.inj hs
      obtain ⟨id, hspawns, hid⟩ := wake_spawnsKeyed htask hhere hwraps hwake
      obtain ⟨hqueue, hholds⟩ := h.queue.spawn hspawns
      use ?_, hqueue.2
      apply (h.setQueue hqueue).setAttempt n
      intro a ha
      obtain rfl := Option.some.inj ha
      exact ⟨hwraps, id, hholds, by rw [hid]⟩
  · cases hs

/-- The checkpoint of a wrapper is recorded with the id of the target. -/
theorem WakingState.Sound.commit (h : S.Sound setup definition key) {n : ℕ} {now : Time}
    {extendClaimBy : Option ℤ} (hs : setup.step S (.commit n now extendClaimBy) = some S') :
  S'.Sound setup definition key ∧ KeepsKeys key S.queue S'.queue
  := by
  rw [WakingSetup.step] at hs
  split at hs
  · rename_i run task name params id hattempt
    obtain ⟨hwraps, hnames⟩ := h.attempts n _ hattempt
    split at hs
    · obtain rfl := Option.some.inj hs
      exact ⟨h.crash n, .refl key S.queue⟩
    · rename_i s hset
      obtain rfl := Option.some.inj hs
      obtain ⟨hwaits, hcheckpoints⟩ := setTaskCheckpointState_eq_ok hset
      have hspares : ∀ id', Spares id' (.checkpoint now task
        (enqueueStep (removeSuffix name deferNameSuffix)) (some (.str id)) run
        extendClaimBy) := fun _ => trivial
      have hqueue := h.queue.step (fun _ id' _ => hspares id')
        (by
          intro _ _ _ _ _ hl
          cases hl)
        (by
          intro c hc _
          rcases hcheckpoints c hc with hc | ⟨-, -, hstate⟩
          · exact .inl hc
          · rw [hstate]
            exact .inr (.inl hnames))
        (by
          intro w hw _
          rw [hwaits] at hw
          exact .inl hw)
        (Except.toOption_eq_some.mpr hset)
      use ?_, hqueue.2
      apply (h.setQueue hqueue).setAttempt n
      intro a ha
      obtain rfl := Option.some.inj ha
      exact ⟨hwraps, hnames.mono hqueue.2⟩
  · cases hs

/-- A wrapper completes with the id of the target. -/
theorem WakingState.Sound.complete (h : S.Sound setup definition key) {n : ℕ} {now : Time}
    (hs : setup.step S (.complete n now) = some S') :
  S'.Sound setup definition key ∧ KeepsKeys key S.queue S'.queue
  := by
  rw [WakingSetup.step] at hs
  split at hs
  · rename_i run task name params value hattempt
    obtain ⟨-, hnames⟩ := h.attempts n _ hattempt
    split at hs
    · obtain rfl := Option.some.inj hs
      exact ⟨h.crash n, .refl key S.queue⟩
    · rename_i s hcomplete
      obtain rfl := Option.some.inj hs
      have hspares : ∀ id', Spares id' (.complete now run (some value)) := fun _ => trivial
      have hcompletes : Engine.step setup.pg S.queue (.complete now run (some value))
          = some s := Except.toOption_eq_some.mpr hcomplete
      obtain ⟨hcheckpoints, hwaits⟩ :=
        h.queue.recorded (fun _ hl => absurd hl (not_records rfl _ _)) hcompletes
      have hqueue := h.queue.step (fun _ id' _ => hspares id')
        (by
          intro _ _ _ _ _ hl
          cases hl)
        hcheckpoints hwaits hcompletes
      use ?_, hqueue.2
      apply WakingState.Sound.crash
      have hset := h.setQueue hqueue
      constructor
      · exact hset.queue
      · exact hset.attempts
      · intro entry hentry
        rcases List.mem_cons.mp hentry with rfl | hentry
        · exact NamesTarget.mono hnames hqueue.2
        · exact hset.completed entry hentry
  · cases hs

/-- A step keeps the attempts sound, and the tasks with the keys keep them. -/
theorem WakingState.Sound.step (htask : KeyedTask setup definition key)
    (hhere : WakesHere setup definition) (h : S.Sound setup definition key) {l : WakingLabel}
    (hallowed : l.Allowed setup definition key S) (hs : setup.step S l = some S') :
  S'.Sound setup definition key ∧ KeepsKeys key S.queue S'.queue
  := by
  cases l with
  | call l =>
      obtain ⟨s, hcall, rfl⟩ := Option.map_eq_some_iff.mp hs
      have hqueue := h.queue.unrelated hallowed hcall
      exact ⟨h.setQueue hqueue, hqueue.2⟩
  | enqueue now t args kwargs elsewhere =>
      rw [WakingSetup.step] at hs
      split at hs
      · obtain rfl := Option.some.inj hs
        exact ⟨h, .refl key S.queue⟩
      · rename_i s result henqueue
        obtain rfl := Option.some.inj hs
        obtain ⟨id, hspawns⟩ := KeyedEnqueue.spawnsKeyed htask hallowed henqueue
        have hqueue := (h.queue.spawn hspawns).1
        exact ⟨h.setQueue hqueue, hqueue.2⟩
  | arrive n run =>
      obtain ⟨a, ha, rfl⟩ := Option.map_eq_some_iff.mp hs
      use ?_, .refl key S.queue
      apply h.setAttempt n
      intro a' ha'
      obtain rfl := Option.some.inj ha'
      exact h.arrived htask hallowed ha
  | wake n now elsewhere => exact h.wake htask hhere hs
  | commit n now extendClaimBy => exact h.commit hs
  | complete n now => exact h.complete hs
  | crash n =>
      obtain rfl := Option.some.inj hs
      exact ⟨h.crash n, .refl key S.queue⟩

theorem sound_create (setup : WakingSetup) (definition : Task) (key : String)
    (storage : StorageMode) :
  (WakingState.create storage).Sound setup definition key
  where
  queue := {
    keyed := .create storage
    target := fun _ ht => absurd ht List.not_mem_nil
    wrapper := fun _ ht => absurd ht List.not_mem_nil
    checkpoints := fun _ hc => absurd hc List.not_mem_nil
    waits := fun _ hw => absurd hw List.not_mem_nil }
  attempts _ _ ha := by cases ha
  completed _ hentry := absurd hentry List.not_mem_nil

/-- A run keeps the attempts sound, and the tasks with the keys keep them. -/
theorem WakingState.Sound.run (htask : KeyedTask setup definition key)
    (hhere : WakesHere setup definition) (h : S.Sound setup definition key)
    {ls : List WakingLabel} (hr : setup.wakingMachine.run S ls = some S')
    (hallowed : setup.wakingMachine.Along
      (fun S l => l.Allowed setup definition key S) S ls) :
  S'.Sound setup definition key ∧ KeepsKeys key S.queue S'.queue
  := by
  apply Machine.invariant_along (I := fun S' => S'.Sound setup definition key
    ∧ KeepsKeys key S.queue S'.queue) _ hallowed ⟨h, .refl key S.queue⟩ hr
  rintro S₁ l S₂ hl ⟨hsound, hkept⟩ hs
  obtain ⟨hsound', hkept'⟩ := hsound.step htask hhere hl hs
  exact ⟨hsound', fun deferred id hholds => hkept' deferred id (hkept deferred id hholds)⟩

end

/-! ### One target, one wrapper -/

/-- Over both states one task at most has the key, and it is a wrapper or it is none. -/
def OnlyTask (key : String) (wrapper : Bool) (s₁ s₂ : QueueState) : Prop :=
  ∀ t₁ ∈ s₁.tasks.rows, ∀ t₂ ∈ s₂.tasks.rows, t₁.idempotencyKey = some key →
    t₂.idempotencyKey = some key → t₁.taskId = t₂.taskId ∧ isDeferredWrapper t₂ = wrapper

/-- The key has one target, the wrappers' key has one wrapper, and every attempt that
completed has returned the id of the target. -/
structure EnqueuesOnce (setup : WakingSetup) (key : String) (S₁ S₂ : WakingState) : Prop where
  target : OnlyTask key false S₁.queue S₂.queue
  wrapper : OnlyTask (key ++ deferNameSuffix) true S₁.queue S₂.queue
  returns : ∀ entry ∈ S₂.completed, ∃ t ∈ S₂.queue.tasks.rows, t.idempotencyKey = some key
    ∧ entry.2 = .str (buildResultId setup.project setup.queue t.taskId)

/-- A row that has a key in one state and one that has it later are of one task. -/
theorem taskId_eq_of_kept {s₁ s₂ : QueueState} {key : String} (hkeys : s₂.life.KeysSound)
    (hkept : ∀ id, s₁.life.Holds key id → s₂.life.Holds key id) {t₁ t₂ : TaskRow}
    (ht₁ : t₁ ∈ s₁.tasks.rows) (ht₂ : t₂ ∈ s₂.tasks.rows) (hkey₁ : t₁.idempotencyKey = some key)
    (hkey₂ : t₂.idempotencyKey = some key) :
  t₁.taskId = t₂.taskId
  := by
  have hholds₁ : s₁.life.Holds key t₁.taskId := ⟨t₁, ht₁, rfl, hkey₁⟩
  have hholds₂ : s₂.life.Holds key t₂.taskId := ⟨t₂, ht₂, rfl, hkey₂⟩
  exact hkeys.unique key _ _ (hkept _ hholds₁) hholds₂

theorem isDeferredWrapper_of_wraps {setup : WakingSetup} {definition : Task} {key : String}
    {t : TaskRow} (h : Wraps setup definition key t.taskName t.params) :
  isDeferredWrapper t = true
  := by
  obtain ⟨t', config, due, args, kwargs, wrapper, -, hdue, hrequest, hname, -⟩ := h
  obtain ⟨hwrapper, -⟩ := wrapper_carries hdue hrequest
  rw [isDeferredWrapper, hname, hwrapper]
  exact endsWith_append _ _

/-- Whatever the enqueues with a key, the attempts of their wrapper and the other calls of
the engine do, and in whatever order, one target has the key, one wrapper has the wrappers'
key, and the attempts that complete return the id of that target. -/
theorem deferral_enqueues_once (setup : WakingSetup) {definition : Task} {key : String}
    (htask : KeyedTask setup definition key) (hhere : WakesHere setup definition)
    {storage : StorageMode} {ls₁ ls₂ : List WakingLabel} {S₁ S₂ : WakingState}
    (hrun₁ : setup.wakingMachine.run (.create storage) ls₁ = some S₁)
    (hrun₂ : setup.wakingMachine.run S₁ ls₂ = some S₂)
    (hallowed : setup.wakingMachine.Along (fun S l => l.Allowed setup definition key S)
      (.create storage) (ls₁ ++ ls₂)) :
  EnqueuesOnce setup key S₁ S₂
  := by
  obtain ⟨hallowed₁, hallowed₂⟩ := hallowed.append hrun₁
  obtain ⟨hsound₁, -⟩ :=
    (sound_create setup definition key storage).run htask hhere hrun₁ hallowed₁
  obtain ⟨hsound₂, hkept⟩ := hsound₁.run htask hhere hrun₂ hallowed₂
  have hkeys := hsound₂.queue.keyed.keys
  constructor
  · intro t₁ ht₁ t₂ ht₂ hkey₁ hkey₂
    use taskId_eq_of_kept hkeys (hkept false) ht₁ ht₂ hkey₁ hkey₂
    rw [isDeferredWrapper, hsound₂.queue.target t₂ ht₂ hkey₂]
    exact setup.project.importString_plain htask.imported
  · intro t₁ ht₁ t₂ ht₂ hkey₁ hkey₂
    use taskId_eq_of_kept hkeys (hkept true) ht₁ ht₂ hkey₁ hkey₂
    exact isDeferredWrapper_of_wraps (hsound₂.queue.wrapper t₂ ht₂ hkey₂)
  · intro entry hentry
    obtain ⟨id, ⟨t, ht, rfl, hkey⟩, hvalue⟩ := hsound₂.completed entry hentry
    exact ⟨t, ht, hkey, Option.some.inj hvalue⟩

/-! ### Deferred enqueues of `tasks.add` -/

/-- A project whose `tasks.add` is defined on another Absurd backend than `absurd`, on the same
database or on its own. -/
def ownBackend (shared : Bool) : Project :=
  { twoBackends (addTask .absurdTask "own") with
    backends := fun name =>
      if name = "absurd" then some absurdBackend
      else if name = "own" then
        some { absurdBackend with
          absurd := some ⟨if shared then "default" else "own", 5, ["default"]⟩ }
      else none }

/-- The queue the wrappers are on. -/
def ownSetup (shared : Bool) : WakingSetup where
  project := ownBackend shared
  sdk := plainSdk
  pg := plainPostgres
  raised _ := .other ""
  database := "default"
  queue := "default"

/-- The task `tasks.add` routed to the backend `absurd` and deferred, with a key. -/
theorem derives_keyedAdd (shared : Bool) (key : String) (due : DateTime) :
  Derives (ownBackend shared).backends (addTask .absurdTask "own") (keyedAdd key (some due))
  := by
  have hparams : buildMergedSpawnOptions none (some (buildMergedSpawnOptions none
      (some (keyOnly key)))) = keyOnly key := by
    funext f
    cases f <;> rfl
  have hrouted : (addTask .absurdTask "own").usingWith (ownBackend shared).backends
      ⟨none, none, some due, some "absurd"⟩
        = .ok { addTask .absurdTask "absurd" with runAfter := some due } := rfl
  have hbound : bind (ownBackend shared).backends (keyOnly key)
      { addTask .absurdTask "absurd" with runAfter := some due }
        = .ok (keyedAdd key (some due)) := by
    calc bind (ownBackend shared).backends (keyOnly key)
          { addTask .absurdTask "absurd" with runAfter := some due }
      _ = .ok { keyedAdd key (some due) with
            absurdParams := some (buildMergedSpawnOptions none (some (buildMergedSpawnOptions none
              (some (keyOnly key))))) } := rfl
      _ = .ok (keyedAdd key (some due)) := by rw [hparams]; rfl
  exact .bound (keyOnly key) (.routed _ .refl hrouted) hbound

theorem keyedAdd_keyed (shared : Bool) (key : String) :
  KeyedEnqueue (ownSetup shared) (addTask .absurdTask "own") key
    (keyedAdd key (some ⟨0, true⟩))
  where
  derives := derives_keyedAdd shared key ⟨0, true⟩
  layer := rfl
  queue := rfl
  database := ⟨absurdBackend, _, rfl, rfl, rfl⟩

theorem addTask_keyed (shared : Bool) {key : String} (hkey : key ≠ "") :
  KeyedTask (ownSetup shared) (addTask .absurdTask "own") key
  where
  built := built_of_postInit (t := addTask .absurdTask "own") rfl
  imported := rfl
  immediate := rfl
  sent := plainSdk.normalize_key key hkey

/-- A wrapper of `tasks.add` is spawned. -/
def keyedSpawned : QueueState :=
  insertSpawned (.create .unpartitioned) 0
    (spawnedTask (.create .unpartitioned) 0 ("tasks.add" ++ deferNameSuffix)
      (.obj [("args", .arr []), ("kwargs", .obj [("args", .arr []), ("kwargs", .obj []),
        ("queue", .str "default"),
        ("options", .obj [("max_attempts", .num ⟨5, 0⟩), ("idempotency_key", .str "k")]),
        ("due", .str "2026-01-01T00:00:00+00:00")])])
      ⟨none, none, some 5, none, some ("k" ++ deferNameSuffix)⟩)

/-- The wrapper is claimed. -/
def keyedClaimed : WakingState :=
  { WakingState.create .unpartitioned with
    queue := markClaimed 0 "worker" (some (seconds 60)) keyedSpawned
      (newRun ⟨1⟩ ⟨0⟩ 1 .pending 0 0) }

/-- The enqueues outside the queue. -/
def spawnElsewhere : Spawn := fun _ => .ok ⟨7⟩

/-- A wrapper is spawned and claimed. -/
def claimLabels : List WakingLabel :=
  [.enqueue 0 (keyedAdd "k" (some ⟨0, true⟩)) [] [] spawnElsewhere, .call (.claim 0 "worker" 60 1)]

/-- Two attempts of the wrapper come to the step and run its function: the first one dies,
the second one completes. -/
def wakeLabels : List WakingLabel :=
  [.arrive 0 ⟨1⟩, .arrive 1 ⟨1⟩, .wake 0 0 spawnElsewhere, .wake 1 0 spawnElsewhere, .crash 0,
    .commit 1 0 none, .complete 1 1]

theorem run_claimLabels (shared : Bool) :
  (ownSetup shared).wakingMachine.run (.create .unpartitioned) claimLabels = some keyedClaimed
  := by
  have hspawn : (ownSetup shared).step (.create .unpartitioned)
      (.enqueue 0 (keyedAdd "k" (some ⟨0, true⟩)) [] [] spawnElsewhere)
        = some { WakingState.create .unpartitioned with queue := keyedSpawned } := by
    cases shared <;> rfl
  have hclaim : Engine.step plainPostgres keyedSpawned (.claim 0 "worker" 60 1)
      = some keyedClaimed.queue := step_claim_spawned _ _ rfl rfl
  apply Machine.run_cons.mpr
  refine ⟨_, hspawn, Machine.run_cons.mpr ⟨keyedClaimed, ?_, rfl⟩⟩
  exact congrArg (Option.map _) hclaim

theorem run_wakeLabels (shared : Bool) :
  ∃ S, (ownSetup shared).wakingMachine.run keyedClaimed wakeLabels = some S
    ∧ S.queue.tasks.rows.map TaskRow.taskId = (if shared then [⟨0⟩, ⟨2⟩] else [⟨0⟩])
    ∧ S.completed = [(⟨0⟩,
      .str (buildResultId (ownBackend shared) "default" ⟨if shared then 2 else 7⟩))]
  := by
  cases shared <;> exact ⟨_, rfl, rfl, rfl⟩

/-- The claimed wrapper carries the key. -/
theorem arrive_allowed (shared : Bool) {S : WakingState} (n : ℕ)
    (hS : S.queue = keyedClaimed.queue) :
  (WakingLabel.arrive n ⟨1⟩).Allowed (ownSetup shared) (addTask .absurdTask "own") "k" S
  := by
  intro r t hr ht
  rw [hS] at hr ht
  obtain rfl := Option.some.inj hr
  obtain rfl := Option.some.inj ht
  exact ⟨_, ⟨"default", 5, ["default"]⟩, _, [], [], _, keyedAdd_keyed shared "k", rfl, rfl, rfl,
    rfl⟩

theorem unrelated_claim {setup : WakingSetup} (definition : Task) (key : String) (s : QueueState)
    (now : Time) (worker : String) (timeout qty : ℤ) :
  Unrelated setup definition key s (.claim now worker timeout qty)
  where
  spares _ _ _ := trivial
  spawns _ _ _ _ _ hl := by cases hl
  records _ hl := absurd hl (not_records rfl _ _)

/-- Every step is one of the enqueues with the key or has nothing to do with them. -/
theorem labels_allowed (shared : Bool) :
  (ownSetup shared).wakingMachine.Along
    (fun S l => l.Allowed (ownSetup shared) (addTask .absurdTask "own") "k" S)
    (.create .unpartitioned) (claimLabels ++ wakeLabels)
  := by
  use keyedAdd_keyed shared "k"
  intro s₁ h₁
  use unrelated_claim _ _ _ _ _ _ _
  intro s₂ h₂
  have hclaimed : s₂ = keyedClaimed := by
    have hrun : (ownSetup shared).wakingMachine.run (.create .unpartitioned) claimLabels = some s₂ :=
      Machine.run_cons.mpr ⟨s₁, h₁, Machine.run_cons.mpr ⟨s₂, h₂, rfl⟩⟩
    exact Option.some.inj (hrun.symm.trans (run_claimLabels shared))
  subst hclaimed
  use arrive_allowed shared 0 rfl
  intro s₃ h₃
  have harrived : (WakingSetup.arrived keyedClaimed.queue ⟨1⟩).map
      (fun a => keyedClaimed.setAttempt 0 (some a)) = some s₃ := h₃
  obtain ⟨a, -, rfl⟩ := Option.map_eq_some_iff.mp harrived
  use arrive_allowed shared 1 rfl
  intro s₄ _
  apply Machine.along_of_forall
  intro s l hl
  simp only [List.mem_cons, List.not_mem_nil, or_false] at hl
  rcases hl with rfl | rfl | rfl | rfl | rfl
  all_goals trivial

/-- A task defined on another Absurd backend of the database: the second attempt returns the
id of the target the first one enqueued. -/
theorem deferral_enqueues_once_shared :
  ∃ S, (ownSetup true).wakingMachine.run keyedClaimed wakeLabels = some S
    ∧ EnqueuesOnce (ownSetup true) "k" keyedClaimed S
    ∧ S.completed = [(⟨0⟩, .str (buildResultId (ownBackend true) "default" ⟨2⟩))]
  := by
  obtain ⟨S, hrun, -, hcompleted⟩ := run_wakeLabels true
  have hhere : WakesHere (ownSetup true) (addTask .absurdTask "own") := ⟨_, _, rfl, rfl, rfl⟩
  use S, hrun
  constructor
  · exact deferral_enqueues_once (ownSetup true) (addTask_keyed true (by decide)) hhere
      (run_claimLabels true) hrun (labels_allowed true)
  · exact hcompleted

/-- A task defined on an Absurd backend of another database: the attempt returns an id that is
no target's on the queue of the wrapper. -/
theorem wake_leaves_queue :
  ¬ ∀ (setup : WakingSetup) (definition : Task) (key : String) (storage : StorageMode)
      (ls₁ ls₂ : List WakingLabel) (S₁ S₂ : WakingState), KeyedTask setup definition key →
      setup.wakingMachine.run (.create storage) ls₁ = some S₁ →
      setup.wakingMachine.run S₁ ls₂ = some S₂ →
      setup.wakingMachine.Along (fun S l => l.Allowed setup definition key S)
        (.create storage) (ls₁ ++ ls₂) →
      EnqueuesOnce setup key S₁ S₂
  := by
  intro h
  obtain ⟨S, hrun, hids, hcompleted⟩ := run_wakeLabels false
  have honce := h (ownSetup false) (addTask .absurdTask "own") "k" .unpartitioned claimLabels
    wakeLabels keyedClaimed S (addTask_keyed false (by decide)) (run_claimLabels false) hrun
    (labels_allowed false)
  have hentry : ((⟨0⟩ : Uuid), Json.str (buildResultId (ownBackend false) "default" ⟨7⟩))
      ∈ S.completed := by
    rw [hcompleted]
    exact List.mem_singleton_self _
  obtain ⟨t, ht, -, hvalue⟩ := honce.returns _ hentry
  have hid : t.taskId = ⟨7⟩ := buildResultId_injective (Json.str.inj hvalue.symm)
  have hmem : t.taskId ∈ S.queue.tasks.rows.map TaskRow.taskId := List.mem_map_of_mem ht
  rw [hid, hids] at hmem
  revert hmem
  decide

end DjangoAbsurd
