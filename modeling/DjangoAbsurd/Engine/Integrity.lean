import DjangoAbsurd.Engine.Events
import DjangoAbsurd.Engine.Keys

/-!
# What a deleted task leaves behind

The rows of the other tables name a task that is there (`Owned`), as long as a handler records
the steps of its own task. So a cleanup that deletes a task leaves nothing of it, and since its
id is not drawn again, nothing of it ever comes back.
-/

namespace DjangoAbsurd.Engine

/-- The queue has the task. -/
def QueueState.Has (s : QueueState) (id : Uuid) : Prop := ∃ t ∈ s.tasks.rows, t.taskId = id

/-- A checkpoint is recorded by a run of the task it is for. -/
def RecordsOwn (s : QueueState) : Label → Prop
  | .checkpoint _ id _ _ ownerRun _ => ∀ r ∈ s.runs.rows, r.runId = ownerRun → r.taskId = id
  | _ => True

/-- Every row of the other tables is of a task the queue has. -/
structure Owned (s : QueueState) : Prop where
  runs : ∀ r ∈ s.runs.rows, s.Has r.taskId
  checkpoints : ∀ c ∈ s.checkpoints.rows, s.Has c.taskId
  waits : ∀ w ∈ s.waits.rows, s.Has w.taskId
  keys : ∀ k ∈ s.keys.rows, s.Has k.taskId

section

variable {pg : Postgres} {s s' : QueueState} {l : Label} {ls : List Label} {id : Uuid}

/-- A move that does not delete a task spares it. -/
theorem Move.Shows.spares {m : Move} {k : Lifecycle} {c : Change} (h : m.Shows k c)
    (hspares : ∀ batch, m = .change (.delete batch) → id ∉ batch) :
  c.Spares id
  := by
  cases c with
  | delete batch =>
      rcases h with ⟨hm, -⟩ | hquiet
      · exact hspares batch hm
      · exact hquiet.elim
  | _ => trivial

/-- A change that spares a task leaves it there. -/
theorem has_apply {k : Lifecycle} {c : Change} (hk : k.Consistent) (hc : c.Allowed k)
    (hspares : c.Spares id) (h : ∃ t ∈ k.tasks.rows, t.taskId = id) :
  ∃ t ∈ (c.apply k).tasks.rows, t.taskId = id
  := by
  obtain ⟨t, ht, rfl⟩ := h
  have hget := Change.get?_tasks_apply hk hc hspares (Keyed.Table.get?_of_mem ht)
  exact ⟨_, Keyed.Table.mem_of_get? hget, Keyed.Table.key_of_get? hget⟩

/-- A move that spares a task leaves it there. -/
theorem has_move {m : Move} (hspares : ∀ batch, m = .change (.delete batch) → id ∉ batch)
    (hallowed : m.Allowed s) (hs : s.life.Consistent) (h : s.Has id) :
  (m.apply s).Has id
  := by
  apply preserved_move (J := fun k => ∃ t ∈ k.tasks.rows, t.taskId = id) hs hallowed _ h
  exact fun k c hshows hc hk hhas => has_apply hk hc (hshows.spares hspares) hhas

/-! ### Checkpoints -/

/-- Every checkpoint is of a task the queue has. -/
def CheckpointsOwned (s : QueueState) : Prop := ∀ c ∈ s.checkpoints.rows, s.Has c.taskId

theorem checkpointsOwned_put (h : CheckpointsOwned s) {c : CheckpointRow} (hc : s.Has c.taskId) :
  CheckpointsOwned (s.putCheckpoint c)
  := by
  intro c' hc'
  rcases Keyed.Table.mem_put.mp hc' with rfl | ⟨hc', -⟩
  · exact hc
  · exact h c' hc'

theorem checkpointsOwned_move {m : Move} (hallowed : m.Allowed s) (hs : s.life.Consistent)
    (hwaits : WaitsSound s) (hrecord : ∀ r c, m = .record r c → c.taskId = r.taskId)
    (h : CheckpointsOwned s) :
  CheckpointsOwned (m.apply s)
  := by
  have hsame : (∀ c, m ≠ .change c) → (m.apply s).checkpoints = s.checkpoints →
      CheckpointsOwned (m.apply s) := by
    intro hquiet heq c hc
    rw [heq] at hc
    exact has_move (fun batch heq => absurd heq (hquiet _)) hallowed hs (h c hc)
  cases m with
  | change c =>
      intro row hrow
      have hold : row ∈ s.checkpoints.rows ∧ c.Spares row.taskId := by
        cases c with
        | delete batch =>
            obtain ⟨hmem, hleft⟩ := Keyed.Table.mem_delete.mp hrow
            exact ⟨hmem, of_decide_eq_false hleft⟩
        | _ => exact ⟨hrow, trivial⟩
      exact has_apply hs hallowed.1 hold.2 (h row hold.1)
  | record r c =>
      apply checkpointsOwned_put h
      rw [hrecord r c rfl]
      exact hs.owned r hallowed.1
  | receive now r stepName eventName payload =>
      exact checkpointsOwned_put h (hs.owned r hallowed.1)
  | ask r eventName =>
      apply hsame (fun _ heq => by cases heq)
      rw [← checkpoints_ensureEvent s eventName]
      rfl
  | emit now eventName payload =>
      intro c hc
      apply has_move (fun _ heq => by cases heq) hallowed hs
      rw [Move.apply, emitted, pendings_eq] at hc
      have hget := Keyed.Table.get?_of_mem hc
      rcases checkpoint_markWokens (announced s now eventName payload) now payload c.taskId
        c.checkpointName with ⟨heq, -⟩ | ⟨w, hw, ⟨hid, -⟩, -⟩
      · exact h c (Keyed.Table.mem_of_get? (heq.symm.trans hget))
      · obtain ⟨r, hr, has⟩ := hwaits.sleeper w ((mem_wokenWaits hwaits).mp hw).1
        rw [← hid, ← has.taskId]
        exact hs.owned r hr
  | _ => exact hsame (fun _ heq => by cases heq) rfl

/-- A run with its task and its attempt. -/
def RunRow.identity (r : RunRow) : Uuid × Uuid × ℤ := (r.runId, r.taskId, r.attempt)

/-- The moves of a call that records a step leave the runs with their tasks and attempts. -/
theorem run_of_recording {now : Time} {stepName : String} {state : Option Json} {ownerRun : Uuid}
    {extendClaimBy : Option ℤ} {m : Move}
    (htakes : (Label.checkpoint now id stepName state ownerRun extendClaimBy).Takes m)
    (hallowed : m.Allowed s) {r' : RunRow} (hr' : r' ∈ (m.apply s).runs.rows) :
  ∃ r ∈ s.runs.rows, r.identity = r'.identity
  := by
  cases m with
  | change c =>
      cases c with
      | draw drawn => exact ⟨r', hr', rfl⟩
      | adjust | park | wakeRun | wakeTask => exact hallowed.2.1.elim
      | _ => simp [Label.Takes, Label.Makes] at htakes
  | extend r claimUntil =>
      obtain ⟨r₀, hr₀, rfl⟩ := Keyed.Table.mem_update.mp hr'
      use r₀, hr₀
      split
      · simp only [RunRow.identity, RunEdit.taskId_apply, keepsAttempt_extendClaim claimUntil r₀]
        rw [(RunRow.extendClaim claimUntil).key_apply r₀]
      · rfl
  | record r c => exact ⟨r', hr', rfl⟩
  | _ => simp [Label.Takes] at htakes

theorem recordsOwn_move {m : Move} (htakes : l.Takes m) (hallowed : m.Allowed s)
    (h : RecordsOwn s l) :
  RecordsOwn (m.apply s) l
  := by
  cases l with
  | checkpoint now id stepName state ownerRun extendClaimBy =>
      intro r' hr' hid
      obtain ⟨r, hr, hsame⟩ := run_of_recording htakes hallowed hr'
      simp only [RunRow.identity, Prod.mk.injEq] at hsame
      exact hsame.2.1.symm.trans (h r hr (hsame.1.trans hid))
  | _ => trivial

/-- A call of a handler that records its own steps keeps the checkpoints owned. -/
theorem checkpointsOwned_step (hs : s.life.Consistent) (hwaits : WaitsSound s)
    (hl : RecordsOwn s l) (h : CheckpointsOwned s) (hstep : step pg s l = some s') :
  CheckpointsOwned s' ∧ WaitsSound s'
  := by
  have hmove : ∀ s (m : Move), l.Takes m → m.Allowed s → s.life.Consistent →
      WaitsSound s ∧ RecordsOwn s l ∧ CheckpointsOwned s →
      WaitsSound (m.apply s) ∧ RecordsOwn (m.apply s) l ∧ CheckpointsOwned (m.apply s) := by
    rintro s m htakes hallowed hs ⟨hwaits, hl, h⟩
    refine ⟨waitsSound_move hallowed hs hwaits, recordsOwn_move htakes hallowed hl,
      checkpointsOwned_move hallowed hs hwaits ?_ h⟩
    rintro r c rfl
    obtain ⟨now, extendClaimBy, -, rfl⟩ := htakes
    exact (hl r hallowed.1 rfl).symm
  obtain ⟨⟨hwaits', -, h'⟩, -⟩ := preserved_of_moves hmove hs ⟨hwaits, hl, h⟩ hstep
  exact ⟨h', hwaits'⟩

/-! ### Every table -/

/-- A queue whose tasks are not partitioned has no table of keys. -/
def NoKeys (k : Lifecycle) : Prop := k.storage = .unpartitioned → k.keys.rows = []

theorem noKeys_apply {k : Lifecycle} {c : Change} (h : NoKeys k) :
  NoKeys (c.apply k)
  := by
  intro hstorage
  cases c with
  | spawn now t =>
      have hk : k.storage = .unpartitioned := hstorage
      simp only [Change.apply, Lifecycle.insertTask, hk]
      exact h hk
  | delete batch =>
      have hk : k.storage = .unpartitioned := hstorage
      simp [Change.apply, Lifecycle.delete, Keyed.Table.delete, h hk]
  | _ => exact h hstorage

/-- What the tables of a queue are like whose handlers record their own steps. -/
structure Intact (s : QueueState) : Prop where
  keyed : KeyedQueue s
  waits : WaitsSound s
  checkpoints : CheckpointsOwned s
  noKeys : NoKeys s.life

theorem Intact.create (storage : StorageMode) :
  Intact (.create storage)
  := ⟨.create storage, .create storage, fun _ hc => absurd hc List.not_mem_nil, fun _ => rfl⟩

theorem Intact.step (h : Intact s) (hl : RecordsOwn s l) (hs : Engine.step pg s l = some s') :
  Intact s'
  := by
  obtain ⟨hcheckpoints, hwaits⟩ :=
    checkpointsOwned_step h.keyed.consistent h.waits hl h.checkpoints hs
  refine ⟨h.keyed.step hs, hwaits, hcheckpoints, ?_⟩
  exact (refines_step hs).invariant (fun _ _ _ _ hk => noKeys_apply hk) h.noKeys

theorem Intact.run (h : Intact s) (hown : (machine pg).Along RecordsOwn s ls)
    (hrun : (machine pg).run s ls = some s') :
  Intact s'
  := Machine.invariant_along (fun _ _ _ hl h hs => h.step hl hs) hown h hrun

theorem Intact.owned (h : Intact s) :
  Owned s
  := by
  constructor
  · exact h.keyed.consistent.owned
  · exact h.checkpoints
  · intro w hw
    obtain ⟨r, hr, has⟩ := h.waits.sleeper w hw
    rw [← has.taskId]
    exact h.keyed.consistent.owned r hr
  · intro k hk
    cases hstorage : s.storage with
    | unpartitioned =>
        have hnone : s.keys.rows = [] := h.noKeys hstorage
        rw [hnone] at hk
        cases hk
    | partitioned =>
        obtain ⟨t, ht, hid, -⟩ := (h.keyed.keys.stored hstorage k).mp hk
        exact ⟨t, ht, hid⟩

/-- Nothing in the queue is of the task. -/
structure Gone (id : Uuid) (s : QueueState) : Prop where
  task : s.tasks.get? id = none
  runs : ∀ r ∈ s.runs.rows, r.taskId ≠ id
  checkpoints : ∀ c ∈ s.checkpoints.rows, c.taskId ≠ id
  waits : ∀ w ∈ s.waits.rows, w.taskId ≠ id
  keys : ∀ k ∈ s.keys.rows, k.taskId ≠ id

/-- When the rows of a queue are owned, a task that is not there has none. -/
theorem Owned.gone (h : Owned s) (hnone : s.tasks.get? id = none) :
  Gone id s
  := by
  have habsent : ¬ s.Has id := by
    rintro ⟨t, ht, hid⟩
    exact Keyed.Table.get?_eq_none.mp hnone t ht hid
  constructor
  case task => exact hnone
  all_goals rintro row hrow rfl
  · exact habsent (h.runs row hrow)
  · exact habsent (h.checkpoints row hrow)
  · exact habsent (h.waits row hrow)
  · exact habsent (h.keys row hrow)

/-- A task that a cleanup deletes leaves nothing behind, and nothing of it ever comes back: in
every queue later calls lead to, no row of any table is of it. -/
theorem cleaned_forever {storage : StorageMode} {s₁ : QueueState} {ls' : List Label} {now : Time}
    {ttlSeconds : ℤ} {limit : ℕ} {batch : List Uuid}
    (hrun : (machine pg).run (.create storage) ls = some s)
    (hclean : step pg s (.cleanupTasks now ttlSeconds limit batch) = some s₁)
    (hrun' : (machine pg).run s₁ ls' = some s')
    (hown : (machine pg).Along RecordsOwn (.create storage) ls)
    (hown' : (machine pg).Along RecordsOwn s₁ ls') (hid : id ∈ batch) :
  Gone id s'
  := by
  have hintact : Intact s := (Intact.create storage).run hown hrun
  have hclean₁ : (machine pg).run s [.cleanupTasks now ttlSeconds limit batch] = some s₁ :=
    Machine.run_cons.mpr ⟨s₁, hclean, rfl⟩
  have hown₁ : (machine pg).Along RecordsOwn s [.cleanupTasks now ttlSeconds limit batch] :=
    ⟨trivial, fun _ _ => trivial⟩
  have hintact₁ : Intact s₁ := hintact.run hown₁ hclean₁
  apply (hintact₁.run hown' hrun').owned.gone
  have hreachable : Reachable pg s := reachable_iff.mpr ⟨storage, ls, hrun⟩
  have hsound : Sound s₁ := sound_of_reachable (hreachable.run hclean₁)
  replace hclean := (step_eq_some.mp hclean).2
  rw [call, cleanupTasks] at hclean
  split at hclean
  · rename_i hbatch
    cases hclean
    obtain ⟨t, ht, rfl⟩ := List.mem_map.mp (hbatch.2.2.1 id hid)
    have hdrawn := hintact.keyed.consistent.taskDrawn t (List.mem_filter.mp ht).1
    apply absent_run hsound hdrawn _ hrun'
    apply Keyed.Table.get?_eq_none.mpr
    rintro t' ht' heq
    have hleft := of_decide_eq_false (Keyed.Table.mem_delete.mp ht').2
    exact hleft (heq ▸ hid)
  · cases hclean

end

/-- The order is charged and shipped. -/
def orderShipped : QueueState :=
  markCompleted (orderClaimed.putCheckpoint ⟨⟨0⟩, "charge", some (.bool true), some ⟨1⟩, 1⟩) 2
    ((RunRow.claim 0 "worker" (some (seconds 60))).apply (newRun ⟨1⟩ ⟨0⟩ 1 .pending 0 0)) none

/-- Charging and shipping the order. -/
def shipCalls : List Label :=
  [.checkpoint 1 ⟨0⟩ "charge" (some (.bool true)) ⟨1⟩ none, .complete 2 ⟨1⟩ none]

theorem orderShipped_cleaned :
  ∃ s, (machine plainPostgres).run (deleteTasks orderShipped [⟨0⟩])
      [.spawn 6000000 "ship_order" (.obj []) (.obj [])] = some s ∧ Gone ⟨0⟩ s
  := by
  have hship : (machine plainPostgres).run orderClaimed shipCalls = some orderShipped := rfl
  have hcalls : (machine plainPostgres).run (.create .unpartitioned) (orderCalls ++ shipCalls)
      = some orderShipped := (Machine.run_append run_orderCalls).trans hship
  have hown : ∀ s, RecordsOwn s (.spawn 6000000 "ship_order" (.obj []) (.obj [])) := fun _ => trivial
  refine ⟨_, rfl, ?_⟩
  have hclean : step plainPostgres orderShipped (.cleanupTasks 5000000 1 10 [⟨0⟩])
      = some (deleteTasks orderShipped [⟨0⟩]) := rfl
  have hagain : (machine plainPostgres).run (deleteTasks orderShipped [⟨0⟩])
      [.spawn 6000000 "ship_order" (.obj []) (.obj [])] = some _ := rfl
  apply cleaned_forever hcalls hclean hagain
  · have hfirst : (machine plainPostgres).Along RecordsOwn (.create .unpartitioned) orderCalls := by
      apply Machine.along_of_forall
      intro s l hl
      simp only [orderCalls, List.mem_cons, List.not_mem_nil, or_false] at hl
      rcases hl with rfl | rfl <;> trivial
    have hcharge : RecordsOwn orderClaimed
        (.checkpoint 1 ⟨0⟩ "charge" (some (.bool true)) ⟨1⟩ none) := by
      intro r hr _
      obtain rfl := List.mem_singleton.mp hr
      rfl
    exact hfirst.join run_orderCalls ⟨hcharge, fun _ _ => ⟨trivial, fun _ _ => trivial⟩⟩
  · exact ⟨hown _, fun _ _ => trivial⟩
  · exact List.mem_singleton_self _

end DjangoAbsurd.Engine
