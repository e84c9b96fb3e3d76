import DjangoAbsurd.Engine.Budget
import DjangoAbsurd.Engine.Integrity

/-!
# Steps that are done once

A worker that attempts a task again reads the steps earlier attempts recorded and skips them. It
reads every step of the task, and a worker that lost the task to a later attempt can no longer
change what that attempt recorded.
-/

namespace DjangoAbsurd.Engine

/-! ### Reading checkpoints -/

/-- What `absurd.get_task_checkpoint_states` raises. -/
inductive ReadError where
  | runNotFound
  | runOfOtherTask
  deriving DecidableEq, Repr

/-- The attempt that recorded a checkpoint, when its run is there. -/
def QueueState.attemptOf (s : QueueState) (c : CheckpointRow) : Option ℤ :=
  (c.ownerRunId.bind s.runs.get?).map RunRow.attempt

/-- The checkpoints of the task of a run that no later attempt recorded, the oldest first. -/
def QueueState.visible (s : QueueState) (r : RunRow) : List CheckpointRow :=
  (s.checkpoints.rows.filter (fun c =>
    c.taskId = r.taskId ∧ (s.attemptOf c).all (· ≤ r.attempt))).mergeSort
      (fun a b => a.updatedAt ≤ b.updatedAt)

/-- `absurd.get_task_checkpoint_states`. -/
def getTaskCheckpointStates (s : QueueState) (taskId runId : Uuid) :
    Except ReadError (List CheckpointRow) :=
  match s.runs.get? runId with
  | none => .error .runNotFound
  | some r => if r.taskId ≠ taskId then .error .runOfOtherTask else .ok (s.visible r)

theorem mem_visible {s : QueueState} {r : RunRow} {c : CheckpointRow} :
  c ∈ s.visible r
    ↔ c ∈ s.checkpoints.rows ∧ c.taskId = r.taskId ∧ ∀ n, s.attemptOf c = some n → n ≤ r.attempt
  := by
  simp only [QueueState.visible, List.mem_mergeSort, List.mem_filter, decide_eq_true_eq,
    Option.all_eq_true]

/-- A run of a task reads what it may see. -/
theorem getTaskCheckpointStates_eq {s : QueueState} {r : RunRow} (hr : r ∈ s.runs.rows) :
  getTaskCheckpointStates s r.taskId r.runId = .ok (s.visible r)
  := by
  rw [getTaskCheckpointStates, Keyed.Table.get?_of_mem hr]
  exact if_neg (not_not_intro rfl)

section

variable {pg : Postgres} {s s' : QueueState} {l : Label} {ls : List Label} {id : Uuid}
  {stepName : String} {r r' : RunRow} {n : ℤ}

/-! ### Runs under moves -/

theorem identity_run {c : Change} (hc : c.Numbered) (r : RunRow) :
  (c.run r).identity = r.identity
  := by
  rw [RunRow.identity, RunRow.identity, Change.runId_run, Change.taskId_run, Change.attempt_run hc]

/-- The runs of ids drawn before are what they were. -/
def SameRuns (k k' : Lifecycle) : Prop :=
  k.drawn ≤ k'.drawn ∧ ∀ r' ∈ k'.runs.rows, r'.runId.index < k.drawn →
    ∃ r ∈ k.runs.rows, r.identity = r'.identity

theorem sameRuns_apply {k : Lifecycle} {c : Change} (hc : c.Allowed k) (hnumbered : c.Numbered) :
  SameRuns k (c.apply k)
  := by
  use Change.drawn_le_apply hc
  intro r' hr' hdrawn
  rcases Change.mem_runs_apply hr' with ⟨r, hr, rfl⟩ | hadded
  · exact ⟨r, hr, (identity_run hnumbered r).symm⟩
  · exact absurd hdrawn (not_lt.mpr (Change.added_fresh hc hadded).1)

theorem SameRuns.trans {k₁ k₂ k₃ : Lifecycle} (h : SameRuns k₁ k₂) (h' : SameRuns k₂ k₃) :
  SameRuns k₁ k₃
  := by
  use h.1.trans h'.1
  intro r₃ hr₃ hdrawn
  obtain ⟨r₂, hr₂, hsame⟩ := h'.2 r₃ hr₃ (hdrawn.trans_le h.1)
  have hid : r₂.runId = r₃.runId := congrArg Prod.fst hsame
  obtain ⟨r₁, hr₁, hsame'⟩ := h.2 r₂ hr₂ (hid ▸ hdrawn)
  exact ⟨r₁, hr₁, hsame'.trans hsame⟩

theorem sameRuns_move {m : Move} (hallowed : m.Allowed s) (hs : s.life.Consistent) :
  SameRuns s.life (m.apply s).life
  := by
  apply preserved_move (J := fun k => SameRuns s.life k) hs hallowed
  · exact fun k c hshows hc _ h => h.trans (sameRuns_apply hc hshows.numbered)
  · exact ⟨le_rfl, fun r hr _ => ⟨r, hr, rfl⟩⟩

/-- A run of a task that is spared is there after a move. -/
theorem run_kept_move {m : Move} (hspares : ∀ batch, m = .change (.delete batch) → r.taskId ∉ batch)
    (hallowed : m.Allowed s) (hs : s.life.Consistent) (hr : r ∈ s.runs.rows) :
  ∃ r' ∈ (m.apply s).runs.rows, r'.identity = r.identity
  := by
  apply preserved_move (J := fun k => ∃ r' ∈ k.runs.rows, r'.identity = r.identity) hs hallowed _
    ⟨r, hr, rfl⟩
  rintro k c hshows hc hk ⟨r', hr', hsame⟩
  have hid : r'.taskId = r.taskId := congrArg (fun i => i.2.1) hsame
  exact ⟨c.run r', run_mem_apply hk hc hr' (hid ▸ hshows.spares hspares),
    (identity_run hshows.numbered r').trans hsame⟩

/-! ### Who recorded a step -/

/-- A checkpoint was recorded by a run, which is one of its task if it is there. -/
def OwnersSound (s : QueueState) : Prop :=
  ∀ c ∈ s.checkpoints.rows, ∃ o, c.ownerRunId = some o ∧ o.index < s.drawn
    ∧ ∀ r ∈ s.runs.rows, r.runId = o → r.taskId = c.taskId

theorem OwnersSound.create (storage : StorageMode) :
  OwnersSound (.create storage)
  := fun _ hc => absurd hc List.not_mem_nil

/-- Checkpoints that were there are recorded by the runs they were. -/
theorem OwnersSound.move_old (h : OwnersSound s) {m : Move} (hallowed : m.Allowed s)
    (hs : s.life.Consistent) {c : CheckpointRow} (hc : c ∈ s.checkpoints.rows) :
  ∃ o, c.ownerRunId = some o ∧ o.index < (m.apply s).drawn
    ∧ ∀ r ∈ (m.apply s).runs.rows, r.runId = o → r.taskId = c.taskId
  := by
  obtain ⟨o, ho, hdrawn, htask⟩ := h c hc
  obtain ⟨hle, hsame⟩ := sameRuns_move hallowed hs
  refine ⟨o, ho, hdrawn.trans_le hle, ?_⟩
  intro r' hr' hid
  obtain ⟨r, hr, hidentity⟩ := hsame r' hr' (hid ▸ hdrawn)
  simp only [RunRow.identity, Prod.mk.injEq] at hidentity
  rw [← hidentity.2.1]
  exact htask r hr (hidentity.1.trans hid)

/-- A checkpoint recorded by a run of its task is recorded by a run of its task after a move. -/
theorem owner_move {m : Move} (hallowed : m.Allowed s) (hs : s.life.Consistent) (hr : r ∈ s.runs.rows) :
  r.runId.index < (m.apply s).drawn
    ∧ ∀ r' ∈ (m.apply s).runs.rows, r'.runId = r.runId → r'.taskId = r.taskId
  := by
  obtain ⟨hle, hsame⟩ := sameRuns_move hallowed hs
  have hdrawn : r.runId.index < s.drawn := hs.runDrawn r hr
  use hdrawn.trans_le hle
  intro r' hr' hid
  obtain ⟨r₀, hr₀, hidentity⟩ := hsame r' hr' (hid ▸ hdrawn)
  simp only [RunRow.identity, Prod.mk.injEq] at hidentity
  rw [← hidentity.2.1, Keyed.Table.eq_of_key_eq hr₀ hr (hidentity.1.trans hid)]

theorem ownersSound_move {m : Move} (hallowed : m.Allowed s) (hs : s.life.Consistent)
    (hwaits : WaitsSound s) (hrecord : ∀ r c, m = .record r c → c.taskId = r.taskId)
    (h : OwnersSound s) :
  OwnersSound (m.apply s)
  := by
  have hsame : (m.apply s).checkpoints = s.checkpoints → OwnersSound (m.apply s) := by
    intro heq c hc
    rw [heq] at hc
    exact h.move_old hallowed hs hc
  cases m with
  | change c =>
      intro row hrow
      apply h.move_old hallowed hs
      cases c with
      | delete batch => exact (Keyed.Table.mem_delete.mp hrow).1
      | _ => exact hrow
  | record r c =>
      intro c' hc'
      rcases Keyed.Table.mem_put.mp hc' with rfl | ⟨hc', -⟩
      · obtain ⟨hdrawn, htask⟩ := owner_move hallowed hs hallowed.1
        refine ⟨r.runId, hallowed.2.2.1, hdrawn, ?_⟩
        intro r' hr' hid
        rw [hrecord r c' rfl]
        exact htask r' hr' hid
      · exact h.move_old hallowed hs hc'
  | receive now r stepName eventName payload =>
      intro c' hc'
      rcases Keyed.Table.mem_put.mp hc' with rfl | ⟨hc', -⟩
      · exact ⟨r.runId, rfl, owner_move hallowed hs hallowed.1⟩
      · exact h.move_old hallowed hs hc'
  | ask r eventName =>
      apply hsame
      rw [← checkpoints_ensureEvent s eventName]
      rfl
  | emit now eventName payload =>
      intro c hc
      have hget := Keyed.Table.get?_of_mem hc
      rw [Move.apply, emitted, pendings_eq] at hget
      rcases checkpoint_markWokens (announced s now eventName payload) now payload c.taskId
        c.checkpointName with ⟨heq, -⟩ | ⟨w, hw, ⟨hid, -⟩, hnew⟩
      · exact h.move_old hallowed hs (Keyed.Table.mem_of_get? (heq.symm.trans hget))
      · obtain ⟨r, hr, has⟩ := hwaits.sleeper w ((mem_wokenWaits hwaits).mp hw).1
        obtain ⟨hdrawn, htask⟩ := owner_move hallowed hs hr
        have howner : c.ownerRunId = some w.runId := by
          rw [Option.some.inj (hget.symm.trans hnew)]
        refine ⟨r.runId, howner.trans (congrArg some has.runId.symm), hdrawn, ?_⟩
        intro r' hr' hid'
        rw [htask r' hr' hid', has.taskId, hid]
  | _ => exact hsame rfl

/-- What the tables are like of a queue whose handlers record their own steps. -/
structure Traced (s : QueueState) : Prop where
  consistent : s.life.Consistent
  waits : WaitsSound s
  counted : s.life.Counted
  owners : OwnersSound s

theorem Traced.create (storage : StorageMode) :
  Traced (.create storage)
  := ⟨.create storage, .create storage, fun _ ht => absurd ht List.not_mem_nil, .create storage⟩

theorem Traced.move (h : Traced s) (hown : RecordsOwn s l) {m : Move} (htakes : l.Takes m)
    (hallowed : m.Allowed s) :
  Traced (m.apply s)
  := by
  refine ⟨consistent_move h.consistent hallowed, waitsSound_move hallowed h.consistent h.waits,
    counted_move hallowed h.consistent h.counted,
    ownersSound_move hallowed h.consistent h.waits ?_ h.owners⟩
  rintro r c rfl
  obtain ⟨now, extendClaimBy, -, rfl⟩ := htakes
  exact (hown r hallowed.1 rfl).symm

theorem Traced.step (h : Traced s) (hown : RecordsOwn s l) (hs : Engine.step pg s l = some s') :
  Traced s'
  := by
  have hmove : ∀ s₁ (m : Move), l.Takes m → m.Allowed s₁ → s₁.life.Consistent →
      Traced s₁ ∧ RecordsOwn s₁ l → Traced (m.apply s₁) ∧ RecordsOwn (m.apply s₁) l := by
    rintro s₁ m htakes hallowed - ⟨h₁, hown₁⟩
    exact ⟨h₁.move hown₁ htakes hallowed, recordsOwn_move htakes hallowed hown₁⟩
  exact (preserved_of_moves hmove h.consistent ⟨h, hown⟩ hs).1.1

theorem Traced.run (h : Traced s) (hown : (machine pg).Along RecordsOwn s ls)
    (hrun : (machine pg).run s ls = some s') :
  Traced s'
  := Machine.invariant_along (fun _ _ _ hl h hs => h.step hl hs) hown h hrun

/-- A run that may still act sees every checkpoint of its task. -/
theorem mem_visible_of_active (h : Traced s) (hr : r ∈ s.runs.rows) (ha : r.Active)
    {c : CheckpointRow} :
  c ∈ s.visible r ↔ c ∈ s.checkpoints.rows ∧ c.taskId = r.taskId
  := by
  rw [mem_visible]
  constructor
  · rintro ⟨hc, hid, -⟩
    exact ⟨hc, hid⟩
  · rintro ⟨hc, hid⟩
    refine ⟨hc, hid, ?_⟩
    intro n hn
    obtain ⟨o, ho, -, htask⟩ := h.owners c hc
    rw [QueueState.attemptOf, ho, Option.bind_some] at hn
    obtain ⟨r₀, hr₀, rfl⟩ := Option.map_eq_some_iff.mp hn
    obtain ⟨hmem, hrun⟩ := Keyed.Table.get?_eq_some.mp hr₀
    obtain ⟨t, ht, htid⟩ := h.consistent.owned r hr
    have hr' : r ∈ s.life.runsOf t.taskId := Lifecycle.mem_runsOf.mpr ⟨hr, htid.symm⟩
    have hr₀' : r₀ ∈ s.life.runsOf t.taskId :=
      Lifecycle.mem_runsOf.mpr ⟨hmem, (htask r₀ hmem hrun).trans (hid.trans htid.symm)⟩
    rw [(last_of_active h.counted h.consistent ht hr' ha).2]
    exact (h.counted t ht).attempt_le hr₀'

/-! ### Steps that stay recorded -/

/-- The call records the step with an earlier attempt only, and nobody awaits an event at it. -/
def Label.Outdated (id : Uuid) (stepName : String) (n : ℤ) (s : QueueState) : Label → Prop
  | .checkpoint _ id' stepName' _ ownerRun _ =>
      id' = id → stepName' = stepName → ∀ r ∈ s.runs.rows, r.runId = ownerRun → r.attempt < n
  | .await _ id' _ stepName' _ _ => ¬ (id' = id ∧ stepName' = stepName)
  | _ => True

theorem outdated_move {m : Move} (htakes : l.Takes m) (hallowed : m.Allowed s)
    (h : l.Outdated id stepName n s) :
  l.Outdated id stepName n (m.apply s)
  := by
  cases l with
  | checkpoint now id' stepName' state ownerRun extendClaimBy =>
      intro hid hstep r' hr' hrun
      obtain ⟨r, hr, hsame⟩ := run_of_recording htakes hallowed hr'
      simp only [RunRow.identity, Prod.mk.injEq] at hsame
      rw [← hsame.2.2]
      exact h hid hstep r hr (hsame.1.trans hrun)
  | await => exact h
  | _ => trivial

/-- The checkpoint is the one of its step, the attempt recorded it, and nobody waits at it. -/
structure Holds (c : CheckpointRow) (n : ℤ) (s : QueueState) : Prop where
  row : s.checkpoints.get? c.key = some c
  attempt : s.attemptOf c = some n
  idle : ∀ w ∈ s.waits.rows, ¬ (w.taskId = c.taskId ∧ w.stepName = c.checkpointName)

theorem recordedBy_of_holds {c : CheckpointRow} (h : Holds c n s) :
  s.recordedBy c.taskId c.checkpointName = some n
  := by
  have hrow : s.checkpoints.get? (c.taskId, c.checkpointName) = some c := h.row
  rw [← h.attempt, QueueState.recordedBy, QueueState.attemptOf, hrow, Option.bind_some]
  cases c.ownerRunId <;> rfl

/-- The attempt that recorded a checkpoint of a task that is spared is there after a move. -/
theorem attemptOf_move {c : CheckpointRow} (h : Traced s) (hc : c ∈ s.checkpoints.rows)
    (hn : s.attemptOf c = some n) (hspares : Spares c.taskId l) {m : Move} (htakes : l.Takes m)
    (hallowed : m.Allowed s) :
  (m.apply s).attemptOf c = some n
  := by
  obtain ⟨o, ho, -, htask⟩ := h.owners c hc
  rw [QueueState.attemptOf, ho, Option.bind_some] at hn ⊢
  obtain ⟨r, hr, rfl⟩ := Option.map_eq_some_iff.mp hn
  obtain ⟨hmem, rfl⟩ := Keyed.Table.get?_eq_some.mp hr
  have hspared : ∀ batch, m = .change (.delete batch) → r.taskId ∉ batch := by
    rintro batch rfl
    obtain ⟨now, ttlSeconds, limit, rfl⟩ := htakes
    rw [htask r hmem rfl]
    exact hspares
  obtain ⟨r', hr', hsame⟩ := run_kept_move hspared hallowed h.consistent hmem
  simp only [RunRow.identity, Prod.mk.injEq] at hsame
  rw [← hsame.1, Keyed.Table.get?_of_mem hr', Option.map_some, hsame.2.2]

theorem Holds.move {c : CheckpointRow} (h : Traced s) (hold : Holds c n s)
    (hspares : Spares c.taskId l) (hstale : l.Outdated c.taskId c.checkpointName n s) {m : Move}
    (htakes : l.Takes m) (hallowed : m.Allowed s) :
  Holds c n (m.apply s)
  := by
  have hmem := Keyed.Table.mem_of_get? hold.row
  have hput : ∀ c' : CheckpointRow, ¬ (c'.taskId = c.taskId ∧ c'.checkpointName = c.checkpointName) →
      (s.checkpoints.put c').get? c.key = some c := by
    intro c' hne
    rw [Keyed.Table.get?_put_of_ne s.checkpoints _]
    · exact hold.row
    · intro heq
      simp only [CheckpointRow.key, Prod.mk.injEq] at heq
      exact hne ⟨heq.1.symm, heq.2.symm⟩
  refine ⟨?_, attemptOf_move h hmem hold.attempt hspares htakes hallowed, ?_⟩
  · cases m with
    | change c' =>
        cases c' with
        | delete batch =>
            obtain ⟨now, ttlSeconds, limit, rfl⟩ := htakes
            have hspared : c.taskId ∉ batch := hspares
            rw [Move.apply, QueueState.change, Change.checkpoints, Keyed.Table.get?_delete, hold.row,
              Option.filter_some, if_pos (by simp [hspared])]
        | _ => exact hold.row
    | record r c' =>
        apply hput
        rintro ⟨hid, hstep⟩
        obtain ⟨now, extendClaimBy, -, rfl⟩ := htakes
        -- the attempt that records must not be earlier than the one that did
        have hle := hallowed.2.2.2.2 n
        rw [hid, hstep] at hle
        exact absurd (hle (recordedBy_of_holds hold)) (not_le.mpr (hstale hid hstep r hallowed.1 rfl))
    | receive now r stepName eventName payload =>
        apply hput
        obtain ⟨timeout, rfl⟩ := htakes
        exact hstale
    | ask r eventName =>
        rw [← hold.row, ← checkpoints_ensureEvent s eventName]
        rfl
    | emit now eventName payload =>
        rw [Move.apply, emitted, pendings_eq]
        rcases checkpoint_markWokens (announced s now eventName payload) now payload c.taskId
          c.checkpointName with ⟨heq, -⟩ | ⟨w, hw, hkey, -⟩
        · exact heq.trans hold.row
        · exact absurd hkey (hold.idle w ((mem_wokenWaits h.waits).mp hw).1)
    | _ => exact hold.row
  · cases m with
    | change c' => exact fun w hw => hold.idle w (WaitsSound.mem_of_mem_waits hw)
    | ask r eventName =>
        intro w hw
        rw [Move.apply, QueueState.updateRun, QueueState.updateRuns, waits_ensureEvent] at hw
        exact hold.idle w hw
    | wait now r stepName eventName timeoutAt =>
        intro w hw
        rcases Keyed.Table.mem_put.mp hw with rfl | ⟨hw, -⟩
        · obtain ⟨timeout, -, rfl⟩ := htakes
          exact hstale
        · exact hold.idle w hw
    | emit now eventName payload =>
        exact fun w hw => hold.idle w ((mem_waits_emitted h.waits).mp hw).1
    | _ => exact hold.idle

theorem Holds.step {c : CheckpointRow} (h : Traced s) (hold : Holds c n s)
    (hspares : Spares c.taskId l) (hown : RecordsOwn s l)
    (hstale : l.Outdated c.taskId c.checkpointName n s) (hs : step pg s l = some s') :
  Holds c n s'
  := by
  have hmove : ∀ s₁ (m : Move), l.Takes m → m.Allowed s₁ → s₁.life.Consistent →
      (Traced s₁ ∧ Holds c n s₁) ∧ RecordsOwn s₁ l ∧ l.Outdated c.taskId c.checkpointName n s₁ →
      (Traced (m.apply s₁) ∧ Holds c n (m.apply s₁)) ∧ RecordsOwn (m.apply s₁) l
        ∧ l.Outdated c.taskId c.checkpointName n (m.apply s₁) := by
    rintro s₁ m htakes hallowed - ⟨⟨h₁, hold₁⟩, hown₁, hstale₁⟩
    exact ⟨⟨h₁.move hown₁ htakes hallowed, Holds.move h₁ hold₁ hspares hstale₁ htakes hallowed⟩,
      recordsOwn_move htakes hallowed hown₁, outdated_move htakes hallowed hstale₁⟩
  exact (preserved_of_moves hmove h.consistent ⟨⟨h, hold⟩, hown, hstale⟩ hs).1.1.2

/-- A run that may still act reads every step recorded for its task, when every worker records
the steps of its own task. -/
theorem reads_every_step {storage : StorageMode}
    (hrun : (machine pg).run (.create storage) ls = some s)
    (hown : (machine pg).Along RecordsOwn (.create storage) ls) (hr : r ∈ s.runs.rows)
    (ha : r.Active) :
  ∃ cs, getTaskCheckpointStates s r.taskId r.runId = .ok cs
    ∧ ∀ c, c ∈ cs ↔ c ∈ s.checkpoints.rows ∧ c.taskId = r.taskId
  := by
  have htraced : Traced s := (Traced.create storage).run hown hrun
  exact ⟨s.visible r, getTaskCheckpointStates_eq hr, fun c => mem_visible_of_active htraced hr ha⟩

/-- Charging the order is a step. -/
def chargeCall : Label := .checkpoint 1 ⟨0⟩ "charge" (some (.bool true)) ⟨1⟩ none

/-- The checkpoint of the charge. -/
def chargeRow : CheckpointRow := ⟨⟨0⟩, "charge", some (.bool true), some ⟨1⟩, 1⟩

/-- The order is charged. -/
def orderCharged : QueueState := orderClaimed.putCheckpoint chargeRow

theorem run_orderCharged :
  (machine plainPostgres).run (.create .unpartitioned) (orderCalls ++ [chargeCall])
    = some orderCharged
  := (Machine.run_append run_orderCalls).trans rfl

theorem recordsOwn_orderCharged :
  (machine plainPostgres).Along RecordsOwn (.create .unpartitioned) (orderCalls ++ [chargeCall])
  := by
  have hfirst : (machine plainPostgres).Along RecordsOwn (.create .unpartitioned) orderCalls := by
    apply Machine.along_of_forall
    intro s l hl
    simp only [orderCalls, List.mem_cons, List.not_mem_nil, or_false] at hl
    rcases hl with rfl | rfl <;> trivial
  have hcharge : RecordsOwn orderClaimed chargeCall := by
    intro r hr _
    obtain rfl := List.mem_singleton.mp hr
    rfl
  exact hfirst.join run_orderCalls ⟨hcharge, fun _ _ => trivial⟩

theorem orderCharged_read :
  ∃ cs, getTaskCheckpointStates orderCharged ⟨0⟩ ⟨1⟩ = .ok cs ∧ chargeRow ∈ cs
  := by
  obtain ⟨cs, hread, hmem⟩ := reads_every_step run_orderCharged recordsOwn_orderCharged
    (List.mem_singleton_self _) rfl
  exact ⟨cs, hread, (hmem chargeRow).mpr ⟨List.mem_singleton_self _, rfl⟩⟩

/-- A step is done once: what an attempt recorded is what every run reads that acts for the task
later, as long as neither it nor a later attempt records the step again. -/
theorem step_done_once {storage : StorageMode} {ls' : List Label} {c : CheckpointRow}
    (hrun : (machine pg).run (.create storage) ls = some s)
    (hown : (machine pg).Along RecordsOwn (.create storage) ls) (hold : Holds c n s)
    (hrun' : (machine pg).run s ls' = some s') (hspares : ∀ l ∈ ls', Spares c.taskId l)
    (hstale : (machine pg).Along (fun s l => RecordsOwn s l
      ∧ l.Outdated c.taskId c.checkpointName n s) s ls')
    (hr : r ∈ s'.runs.rows) (hid : r.taskId = c.taskId) (ha : r.Active) :
  ∃ cs, getTaskCheckpointStates s' c.taskId r.runId = .ok cs ∧ c ∈ cs
    ∧ ∀ c' ∈ cs, c'.checkpointName = c.checkpointName → c' = c
  := by
  have htraced : Traced s := (Traced.create storage).run hown hrun
  have halong := (Machine.along_of_forall (m := machine pg) (s := s) (fun _ l hl => hspares l hl)).and
    hstale
  obtain ⟨htraced', hold'⟩ : Traced s' ∧ Holds c n s' := by
    apply Machine.invariant_along (I := fun s => Traced s ∧ Holds c n s) _ halong ⟨htraced, hold⟩
      hrun'
    rintro s l s' ⟨hl, hown, hstale⟩ ⟨h, hold⟩ hs
    exact ⟨h.step hown hs, Holds.step h hold hl hown hstale hs⟩
  have hmem := Keyed.Table.mem_of_get? hold'.row
  refine ⟨s'.visible r, hid ▸ getTaskCheckpointStates_eq hr, ?_, ?_⟩
  · exact (mem_visible_of_active htraced' hr ha).mpr ⟨hmem, hid.symm⟩
  · intro c' hc' hname
    obtain ⟨hc', hid', -⟩ := mem_visible.mp hc'
    exact Keyed.Table.eq_of_key_eq hc' hmem (Prod.ext (hid'.trans hid) hname)

/-- The charge is remembered when the order is attempted again. -/
theorem orderCharged_once :
  ∃ s, (machine plainPostgres).run orderCharged [.fail 2 ⟨1⟩ .null (some 2)] = some s
    ∧ ∃ cs, getTaskCheckpointStates s ⟨0⟩ ⟨2⟩ = .ok cs ∧ chargeRow ∈ cs
  := by
  refine ⟨_, rfl, ?_⟩
  have hold : Holds chargeRow 1 orderCharged := ⟨rfl, rfl, fun w hw => absurd hw List.not_mem_nil⟩
  have hspares : ∀ l ∈ [Label.fail 2 ⟨1⟩ .null (some 2)], Spares chargeRow.taskId l := by
    intro l hl
    rw [List.mem_singleton.mp hl]
    trivial
  have hstale : (machine plainPostgres).Along (fun s l => RecordsOwn s l
      ∧ l.Outdated chargeRow.taskId chargeRow.checkpointName 1 s) orderCharged
      [.fail 2 ⟨1⟩ .null (some 2)] := ⟨⟨trivial, trivial⟩, fun _ _ => trivial⟩
  obtain ⟨cs, hread, hmem, -⟩ := step_done_once (r := newRun ⟨2⟩ ⟨0⟩ 2 .pending 2 2)
    run_orderCharged recordsOwn_orderCharged hold rfl hspares hstale
    (List.mem_cons_of_mem _ List.mem_cons_self) rfl rfl
  exact ⟨cs, hread, hmem⟩

end

end DjangoAbsurd.Engine
