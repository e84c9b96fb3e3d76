import DjangoAbsurd.Engine.Finality
import DjangoAbsurd.Engine.Moves

/-!
# Events over the calls of a queue

A row of the waits is a run that sleeps until its event, and a run that sleeps until an event
with no end has such a row (`WaitsSound`). So no wakeup is lost: while such a run sleeps its
event has not been emitted, and the emission wakes it. An event keeps the payload of its first
emission, and every wait for it ends with that payload.
-/

namespace DjangoAbsurd.Engine

/-- The moment a wait ends. -/
def WaitRow.deadline (w : WaitRow) : WithTop Time := w.timeoutAt.elim ⊤ (fun t => (t : WithTop Time))

/-- The wait is over at a time. -/
def WaitRow.Expired (now : Time) (w : WaitRow) : Prop := w.timeoutAt.any (· ≤ now)

instance (now : Time) (w : WaitRow) : Decidable (w.Expired now) :=
  inferInstanceAs (Decidable (_ = true))

theorem WaitRow.expired_iff {now : Time} {w : WaitRow} :
  w.Expired now ↔ w.deadline ≤ (now : WithTop Time)
  := by
  rw [Expired, deadline]
  cases w.timeoutAt with
  | none => simp
  | some t => simp

/-- The run sleeps until an event, and no time ends its sleep. -/
structure RunRow.Endless (r : RunRow) : Prop where
  state : r.state = .sleeping
  wakeEvent : r.wakeEvent ≠ none
  availableAt : r.availableAt = ⊤

/-- The run sleeps as a row of the waits says. -/
structure RunRow.WaitsAs (r : RunRow) (w : WaitRow) : Prop where
  runId : r.runId = w.runId
  taskId : r.taskId = w.taskId
  state : r.state = .sleeping
  wakeEvent : r.wakeEvent = some w.eventName
  availableAt : r.availableAt = w.deadline

/-- The waits are the runs that sleep until an event, which has not been emitted. -/
structure WaitsSound (s : QueueState) : Prop where
  sleeper : ∀ w ∈ s.waits.rows, ∃ r ∈ s.runs.rows, r.WaitsAs w
  once : ∀ w ∈ s.waits.rows, ∀ w' ∈ s.waits.rows, w.runId = w'.runId → w = w'
  pending : ∀ w ∈ s.waits.rows, s.payloadOf w.eventName = none
  named : ∀ w ∈ s.waits.rows, blank w.eventName = false
  kept : ∀ r ∈ s.runs.rows, r.Endless → ∃ w ∈ s.waits.rows, w.runId = r.runId

namespace WaitsSound

variable {s s' : QueueState}

theorem create (storage : StorageMode) :
  WaitsSound (.create storage)
  := by
  constructor
  case kept => exact fun r hr => absurd hr List.not_mem_nil
  all_goals exact fun w hw => absurd hw List.not_mem_nil

/-- The run of a wait is the one that waits. -/
theorem sleeper_of_runId (h : WaitsSound s) {w : WaitRow} (hw : w ∈ s.waits.rows) {r : RunRow}
    (hr : r ∈ s.runs.rows) (hid : r.runId = w.runId) :
  r.WaitsAs w
  := by
  obtain ⟨r', hr', hwaits⟩ := h.sleeper w hw
  rwa [Keyed.Table.eq_of_key_eq hr hr' (hid.trans hwaits.runId.symm)]

/-- Runs that sleep stay as they are, none starts to sleep with no end, and the waits stay. -/
theorem edit (h : WaitsSound s) {f : RunRow → RunRow}
    (hruns : ∀ r', r' ∈ s'.runs.rows ↔ ∃ r ∈ s.runs.rows, f r = r')
    (hid : ∀ r, (f r).runId = r.runId) (hsleep : ∀ r ∈ s.runs.rows, r.state = .sleeping → f r = r)
    (hendless : ∀ r ∈ s.runs.rows, (f r).Endless → r.Endless) (hwaits : s'.waits = s.waits)
    (hpayload : ∀ w ∈ s.waits.rows, s'.payloadOf w.eventName = s.payloadOf w.eventName) :
  WaitsSound s'
  := by
  constructor
  · intro w hw
    rw [hwaits] at hw
    obtain ⟨r, hr, has⟩ := h.sleeper w hw
    use r, (hruns r).mpr ⟨r, hr, hsleep r hr has.state⟩
  · rw [hwaits]
    exact h.once
  · intro w hw
    rw [hwaits] at hw
    rw [hpayload w hw]
    exact h.pending w hw
  · rw [hwaits]
    exact h.named
  · intro r' hr' hend
    obtain ⟨r, hr, rfl⟩ := (hruns r').mp hr'
    rw [hwaits, hid]
    exact h.kept r hr (hendless r hr hend)

/-- A run that does not sleep is edited. -/
theorem editRun (h : WaitsSound s) {r : RunRow} (hr : r ∈ s.runs.rows) (hawake : r.state ≠ .sleeping)
    {e : RunEdit} (hendless : ¬ (e.apply r).Endless)
    (hruns : s'.runs = s.runs.update (fun r' => r'.runId = r.runId) e.toEdit)
    (hwaits : s'.waits = s.waits) (hpayload : ∀ name, s'.payloadOf name = s.payloadOf name) :
  WaitsSound s'
  := by
  have hself : ∀ r' ∈ s.runs.rows, r'.runId = r.runId → r' = r :=
    fun r' hr' hid => Keyed.Table.eq_of_key_eq hr' hr hid
  apply h.edit (f := fun r' => if r'.runId = r.runId then e.apply r' else r') _ _ _ _ hwaits
    (fun w _ => hpayload w.eventName)
  · intro r'
    rw [hruns, Keyed.Table.mem_update]
    simp
  · intro r'
    split
    · exact e.key_apply r'
    · rfl
  · intro r' hr' hsleeping
    rw [if_neg]
    intro hid
    rw [hself r' hr' hid] at hsleeping
    exact hawake hsleeping
  · intro r' hr' hend
    split at hend
    · rename_i hid
      rw [hself r' hr' hid] at hend
      exact absurd hend hendless
    · exact hend

/-! ### Changes -/

/-- A wait that is left after a change is of a run that the change leaves as it is. -/
theorem run_of_mem_waits {c : Change} (hallowed : c.Allowed s.life)
    (hplain : c.Plain) (hchecked : c.Checked s.life) {w : WaitRow} (hw : w ∈ (c.waits s).rows)
    {r : RunRow} (hr : r ∈ s.runs.rows) (has : r.WaitsAs w) :
  c.run r = r ∧ c.Spares r.taskId
  := by
  cases c with
  | draw | spawn | retry => exact ⟨rfl, trivial⟩
  | park | wakeRun | wakeTask | adjust => exact hplain.elim
  | claim now worker claimUntil r₀ =>
      refine ⟨if_neg ?_, trivial⟩
      intro hid
      obtain ⟨-, hleft⟩ := Keyed.Table.mem_delete.mp hw
      have hdue : r₀.availableAt ≤ (now : WithTop Time) := hchecked
      rw [← Keyed.Table.eq_of_key_eq hr hallowed.1 hid, has.availableAt, ← WaitRow.expired_iff] at hdue
      simp only [decide_eq_false_iff_not] at hleft
      exact hleft ⟨has.runId.symm.trans hid, hdue⟩
  | complete _ r₀ _ | failForGood _ r₀ _ | failCancelled _ r₀ _ | failRetried _ r₀ _ _ =>
      refine ⟨if_neg ?_, trivial⟩
      intro hid
      obtain ⟨-, hleft⟩ := Keyed.Table.mem_delete.mp hw
      exact of_decide_eq_false hleft (has.runId.symm.trans hid)
  | cancel now id =>
      refine ⟨if_neg ?_, trivial⟩
      rintro ⟨hid, -⟩
      obtain ⟨-, hleft⟩ := Keyed.Table.mem_delete.mp hw
      exact of_decide_eq_false hleft (has.taskId.symm.trans hid)
  | delete batch =>
      refine ⟨rfl, ?_⟩
      obtain ⟨-, hleft⟩ := Keyed.Table.mem_delete.mp hw
      rw [has.taskId]
      exact of_decide_eq_false hleft

/-- A run that sleeps with no end after a change did so before, and its wait is left. -/
theorem wait_of_endless (h : WaitsSound s) {c : Change} (hplain : c.Plain) {r' : RunRow}
    (hr' : r' ∈ (c.apply s.life).runs.rows) (hend : r'.Endless) (hspares : c.Spares r'.taskId) :
  ∃ w ∈ (c.waits s).rows, w.runId = r'.runId
  := by
  have hadded : r' ∉ c.added s.life := by
    intro hadded
    apply hend.wakeEvent
    cases c with
    | spawn | failRetried | retry =>
        obtain rfl := List.mem_singleton.mp hadded
        rfl
    | _ => cases hadded
  obtain ⟨r, hr, rfl⟩ := (Change.mem_runs_apply hr').resolve_right hadded
  rw [Change.runId_run]
  rw [Change.taskId_run] at hspares
  have hsame : ∀ {e : RunEdit} {p : Prop} [Decidable p], (∀ r, ((e.apply r).state ≠ .sleeping)) →
      (if p then e.apply r else r).Endless → ¬ p ∧ r.Endless := by
    intro e p _ he hend
    split at hend
    · exact absurd hend.state (he r)
    · exact ⟨‹_›, hend⟩
  cases c with
  | draw | spawn | retry => exact h.kept r hr hend
  | park | wakeRun | wakeTask | adjust => exact hplain.elim
  | claim now worker claimUntil r₀ =>
      obtain ⟨hne, hend⟩ := hsame (fun _ => by simp [RunRow.claim]) hend
      obtain ⟨w, hw, hid⟩ := h.kept r hr hend
      refine ⟨w, Keyed.Table.mem_delete.mpr ⟨hw, ?_⟩, hid⟩
      apply decide_eq_false
      exact fun hover => hne (hid.symm.trans hover.1)
  | complete now r₀ payload =>
      obtain ⟨hne, hend⟩ := hsame (fun _ => by simp [RunRow.complete]) hend
      obtain ⟨w, hw, hid⟩ := h.kept r hr hend
      refine ⟨w, Keyed.Table.mem_delete.mpr ⟨hw, ?_⟩, hid⟩
      apply decide_eq_false
      exact fun hover => hne (hid.symm.trans hover)
  | failForGood _ r₀ _ | failCancelled _ r₀ _ | failRetried _ r₀ _ _ =>
      obtain ⟨hne, hend⟩ := hsame (fun _ => by simp [RunRow.fail]) hend
      obtain ⟨w, hw, hid⟩ := h.kept r hr hend
      refine ⟨w, Keyed.Table.mem_delete.mpr ⟨hw, ?_⟩, hid⟩
      apply decide_eq_false
      exact fun hover => hne (hid.symm.trans hover)
  | cancel now id =>
      obtain ⟨hne, hend⟩ := hsame (fun _ => by simp [RunRow.cancel]) hend
      obtain ⟨w, hw, hid⟩ := h.kept r hr hend
      refine ⟨w, Keyed.Table.mem_delete.mpr ⟨hw, ?_⟩, hid⟩
      apply decide_eq_false
      intro hover
      have has := h.sleeper_of_runId hw hr hid.symm
      exact hne ⟨has.taskId.trans hover, active_of_sleeping hend.state⟩
  | delete batch =>
      obtain ⟨w, hw, hid⟩ := h.kept r hr hend
      refine ⟨w, Keyed.Table.mem_delete.mpr ⟨hw, ?_⟩, hid⟩
      apply decide_eq_false
      rw [← (h.sleeper_of_runId hw hr hid.symm).taskId]
      exact hspares

/-- The waits a change leaves. -/
theorem mem_of_mem_waits {c : Change} {w : WaitRow} (hw : w ∈ (c.waits s).rows) :
  w ∈ s.waits.rows
  := by
  cases c with
  | draw | spawn | retry | park | wakeRun | wakeTask | adjust => exact hw
  | _ => exact (Keyed.Table.mem_delete.mp hw).1

theorem change (h : WaitsSound s) (hs : s.life.Consistent) {c : Change} (hallowed : c.Allowed s.life)
    (hplain : c.Plain) (hchecked : c.Checked s.life) :
  WaitsSound (s.change c)
  := by
  constructor
  · intro w hw
    obtain ⟨r, hr, has⟩ := h.sleeper w (mem_of_mem_waits hw)
    obtain ⟨hrun, hspares⟩ := run_of_mem_waits hallowed hplain hchecked hw hr has
    use r, hrun ▸ run_mem_apply hs hallowed hr hspares
  · exact fun w hw w' hw' => h.once w (mem_of_mem_waits hw) w' (mem_of_mem_waits hw')
  · exact fun w hw => h.pending w (mem_of_mem_waits hw)
  · exact fun w hw => h.named w (mem_of_mem_waits hw)
  · intro r' hr' hend
    apply h.wait_of_endless hplain hr' hend
    obtain ⟨t, ht, hid⟩ := (hs.step (step_lifecycle.mpr ⟨hallowed, rfl⟩)).owned r' hr'
    rw [← hid]
    exact spares_of_mem ht

/-! ### The other moves -/

theorem wait (h : WaitsSound s) {now : Time} {r : RunRow} {stepName eventName : String}
    {timeoutAt : Option Time} (hr : r ∈ s.runs.rows) (hrunning : r.state = .running)
    (hname : blank eventName = false) (hpending : s.payloadOf eventName = none) :
  WaitsSound (markWaiting s now r.taskId r.runId stepName eventName timeoutAt)
  := by
  have hself : ∀ r' ∈ s.runs.rows, r'.runId = r.runId → r' = r :=
    fun r' hr' hid => Keyed.Table.eq_of_key_eq hr' hr hid
  -- no row of the waits is of the run, since it is running
  have hnone : ∀ w ∈ s.waits.rows, w.runId ≠ r.runId := by
    intro w hw hid
    have hsleeping := (h.sleeper_of_runId hw hr hid.symm).state
    rw [hrunning] at hsleeping
    cases hsleeping
  have hrow : ∀ r' ∈ s.runs.rows, r'.runId ≠ r.runId →
      r' ∈ (markWaiting s now r.taskId r.runId stepName eventName timeoutAt).runs.rows := by
    intro r' hr' hne
    exact Keyed.Table.mem_update.mpr ⟨r', hr', if_neg (by simpa using hne)⟩
  constructor
  · intro w hw
    rcases Keyed.Table.mem_put.mp hw with rfl | ⟨hw, -⟩
    · use (RunRow.wait eventName timeoutAt).apply r, mem_updateRun hr (RunRow.wait eventName timeoutAt)
      exact ⟨rfl, rfl, rfl, rfl, rfl⟩
    · obtain ⟨r', hr', has⟩ := h.sleeper w hw
      use r', hrow r' hr' (has.runId ▸ hnone w hw)
  · intro w hw w' hw' hid
    rcases Keyed.Table.mem_put.mp hw with rfl | ⟨hw, -⟩
    · rcases Keyed.Table.mem_put.mp hw' with rfl | ⟨hw', -⟩
      · rfl
      · exact absurd hid.symm (hnone w' hw')
    · rcases Keyed.Table.mem_put.mp hw' with rfl | ⟨hw', -⟩
      · exact absurd hid (hnone w hw)
      · exact h.once w hw w' hw' hid
  · intro w hw
    rcases Keyed.Table.mem_put.mp hw with rfl | ⟨hw, -⟩
    · exact hpending
    · exact h.pending w hw
  · intro w hw
    rcases Keyed.Table.mem_put.mp hw with rfl | ⟨hw, -⟩
    · exact hname
    · exact h.named w hw
  · intro r' hr' hend
    obtain ⟨r₀, hr₀, rfl⟩ := Keyed.Table.mem_update.mp hr'
    by_cases hid : r₀.runId = r.runId
    · rw [if_pos (by simpa using hid)]
      exact ⟨_, Keyed.Table.mem_put.mpr (.inl rfl), hid.symm⟩
    · rw [if_neg (by simpa using hid)] at hend ⊢
      obtain ⟨w, hw, hw'⟩ := h.kept r₀ hr₀ hend
      refine ⟨w, Keyed.Table.mem_put.mpr (.inr ⟨hw, ?_⟩), hw'⟩
      intro hkey
      exact hnone w hw (congrArg Prod.fst hkey)

theorem forget (h : WaitsSound s) (batch : List String) :
  WaitsSound ((Move.forget batch).apply s)
  := by
  refine h.edit (f := id) ?_ (fun _ => rfl) (fun _ _ _ => rfl)
    (fun _ _ hend => hend) rfl ?_
  · intro r'
    simp [Move.apply]
  · intro w hw
    have hnone := h.pending w hw
    rw [hnone]
    rw [QueueState.payloadOf] at hnone ⊢
    rw [Move.apply, Keyed.Table.get?_delete]
    cases hevent : s.events.get? w.eventName with
    | none => rfl
    | some e =>
        rw [hevent] at hnone
        rw [Option.filter_some]
        split
        · exact hnone
        · rfl

end WaitsSound

/-! ### What an emission does -/

section

variable {s : QueueState} {now : Time} {eventName : String} {payload : Json} {woken : List WaitRow}

/-- The run of one of the waits. -/
def RunRow.Among (r : RunRow) (woken : List WaitRow) : Prop := ∃ w ∈ woken, w.runId = r.runId

instance (r : RunRow) (woken : List WaitRow) : Decidable (r.Among woken) :=
  inferInstanceAs (Decidable (∃ w ∈ woken, w.runId = r.runId))

/-- The runs that wake. -/
theorem mem_runs_markWokens {r' : RunRow} :
  r' ∈ (woken.foldl (markWoken now payload) s).runs.rows
    ↔ ∃ r ∈ s.runs.rows, (if r.Among woken then (RunRow.wake now payload).apply r else r) = r'
  := by
  induction woken generalizing s with
  | nil => simp [RunRow.Among]
  | cons w woken ih =>
      rw [List.foldl_cons, ih]
      have hrow : ∀ r ∈ s.runs.rows, (if w.runId = r.runId then (RunRow.wake now payload).apply r else r)
          ∈ (markWoken now payload s w).runs.rows := by
        intro r hr
        apply Keyed.Table.mem_update.mpr
        use r, hr
        simp [eq_comm]
      have hwake : ∀ r : RunRow,
          (if RunRow.Among (if w.runId = r.runId then (RunRow.wake now payload).apply r else r) woken
            then (RunRow.wake now payload).apply
              (if w.runId = r.runId then (RunRow.wake now payload).apply r else r)
            else (if w.runId = r.runId then (RunRow.wake now payload).apply r else r))
          = if r.Among (w :: woken) then (RunRow.wake now payload).apply r else r := by
        intro r
        by_cases hw : w.runId = r.runId
        · have hthere : r.Among (w :: woken) := ⟨w, List.mem_cons_self, hw⟩
          simp only [if_pos hw, if_pos hthere]
          split <;> rfl
        · have hiff : r.Among (w :: woken) ↔ r.Among woken := by simp [RunRow.Among, hw]
          simp only [if_neg hw, hiff]
      constructor
      · rintro ⟨r₁, hr₁, rfl⟩
        obtain ⟨r, hr, rfl⟩ := Keyed.Table.mem_update.mp hr₁
        use r, hr
        rw [← hwake r]
        simp [eq_comm]
      · rintro ⟨r, hr, rfl⟩
        exact ⟨_, hrow r hr, hwake r⟩

/-- The waits of the runs that wake are gone. -/
theorem mem_waits_markWokens {w' : WaitRow} :
  w' ∈ (woken.foldl (markWoken now payload) s).waits.rows
    ↔ w' ∈ s.waits.rows ∧ ∀ w ∈ woken, ¬ (w'.eventName = w.eventName ∧ w'.runId = w.runId)
  := by
  induction woken generalizing s with
  | nil => simp
  | cons w woken ih =>
      rw [List.foldl_cons, ih, List.forall_mem_cons, ← and_assoc]
      apply and_congr_left'
      rw [markWoken]
      simp [QueueState.deleteWaits, QueueState.putCheckpoint, QueueState.updateRun,
        QueueState.updateRuns]

theorem events_markWokens :
  (woken.foldl (markWoken now payload) s).events = s.events
  := by
  induction woken generalizing s with
  | nil => rfl
  | cons w woken ih => exact ih

/-- A checkpoint after runs wake is one of before, or a run that woke at the step recorded the
payload. -/
theorem checkpoint_markWokens (s : QueueState) (now : Time) (payload : Json) (id : Uuid)
    (stepName : String) :
  (woken.foldl (markWoken now payload) s).checkpoints.get? (id, stepName)
      = s.checkpoints.get? (id, stepName)
    ∧ (∀ w ∈ woken, ¬ (w.taskId = id ∧ w.stepName = stepName))
  ∨ ∃ w ∈ woken, (w.taskId = id ∧ w.stepName = stepName)
    ∧ (woken.foldl (markWoken now payload) s).checkpoints.get? (id, stepName)
      = some ⟨id, stepName, some payload, some w.runId, now⟩
  := by
  induction woken generalizing s with
  | nil => exact .inl ⟨rfl, fun w hw => absurd hw List.not_mem_nil⟩
  | cons w woken ih =>
      rw [List.foldl_cons, List.forall_mem_cons]
      rcases ih (markWoken now payload s w) with ⟨heq, hnone⟩ | ⟨w', hw', hkey, hget⟩
      · by_cases hw : w.taskId = id ∧ w.stepName = stepName
        · right
          refine ⟨w, List.mem_cons_self, hw, ?_⟩
          obtain ⟨rfl, rfl⟩ := hw
          rw [heq]
          exact Keyed.Table.get?_put_self s.checkpoints
            ⟨w.taskId, w.stepName, some payload, some w.runId, now⟩
        · left
          refine ⟨heq.trans ?_, hw, hnone⟩
          apply Keyed.Table.get?_put_of_ne
          rintro heq
          simp only [CheckpointRow.key, Prod.mk.injEq] at heq
          exact hw ⟨heq.1.symm, heq.2.symm⟩
      · exact .inr ⟨w', List.mem_cons_of_mem w hw', hkey, hget⟩

/-- Tasks are made pending one after another. -/
theorem pendings_eq (ids : List Uuid) (s : QueueState) :
  (ids.foldl (fun s id => s.updateTask id (TaskRow.withState .pending)) s)
    = { s with tasks := (ids.foldl (fun s id => s.updateTask id (TaskRow.withState .pending)) s).tasks }
  := by
  induction ids generalizing s with
  | nil => rfl
  | cons id ids ih =>
      rw [List.foldl_cons, ih]
      rfl

/-- The tasks that are made pending are. -/
theorem get?_pendings (ids : List Uuid) (s : QueueState) (id : Uuid) :
  (ids.foldl (fun s id => s.updateTask id (TaskRow.withState .pending)) s).tasks.get? id
    = (s.tasks.get? id).map (fun t => if id ∈ ids then (TaskRow.withState .pending).apply t else t)
  := by
  induction ids generalizing s with
  | nil => simp
  | cons id' ids ih =>
      rw [List.foldl_cons, ih]
      rw [QueueState.updateTask, Keyed.Table.get?_update, Option.map_map]
      cases ht : s.tasks.get? id with
      | none => rfl
      | some t =>
          have hid := Keyed.Table.key_of_get? ht
          simp only [Option.map_some, Function.comp_apply, Option.some.injEq, List.mem_cons]
          by_cases heq : t.taskId = id'
          · have heq' : id = id' := hid.symm.trans heq
            simp only [heq, heq', decide_true, if_true, true_or]
            split <;> rfl
          · have heq' : id ≠ id' := fun heq' => heq (hid.trans heq')
            simp [heq, heq']

/-- The emission of an event at a time wakes the run. -/
def QueueState.Wakes (s : QueueState) (now : Time) (eventName : String) (r : RunRow) : Prop :=
  ∃ w ∈ s.waits.rows, w.eventName = eventName ∧ ¬ w.Expired now ∧ w.runId = r.runId

instance (s : QueueState) (now : Time) (eventName : String) (r : RunRow) :
    Decidable (s.Wakes now eventName r) :=
  inferInstanceAs (Decidable (∃ w ∈ s.waits.rows, _))

theorem waits_announced {w : WaitRow} :
  w ∈ (announced s now eventName payload).waits.rows
    ↔ w ∈ s.waits.rows ∧ ¬ (w.eventName = eventName ∧ w.Expired now)
  := by
  rw [announced, QueueState.deleteWaits, Keyed.Table.mem_delete]
  apply and_congr_right'
  exact decide_eq_false_iff_not

/-- The waits an emission ends are those for the event that are not over. -/
theorem mem_wokenWaits (h : WaitsSound s) {w : WaitRow} :
  w ∈ wokenWaits (announced s now eventName payload) eventName
    ↔ w ∈ s.waits.rows ∧ w.eventName = eventName ∧ ¬ w.Expired now
  := by
  rw [wokenWaits, List.mem_filter, List.mem_filter, waits_announced, decide_eq_true_iff]
  constructor
  · rintro ⟨⟨⟨hw, hover⟩, hevent⟩, -⟩
    exact ⟨hw, hevent, fun hexpired => hover ⟨hevent, hexpired⟩⟩
  · rintro ⟨hw, hevent, hover⟩
    refine ⟨⟨⟨hw, fun hexpired => hover hexpired.2⟩, hevent⟩, ?_⟩
    obtain ⟨r, hr, has⟩ := h.sleeper w hw
    have hget : s.runs.get? w.runId = some r := Keyed.Table.get?_eq_some.mpr ⟨hr, has.runId⟩
    rw [show (announced s now eventName payload).runs = s.runs from rfl, hget, Option.any_some]
    simpa using has.state

theorem among_wokenWaits (h : WaitsSound s) {r : RunRow} :
  r.Among (wokenWaits (announced s now eventName payload) eventName) ↔ s.Wakes now eventName r
  := by
  simp only [RunRow.Among, QueueState.Wakes, mem_wokenWaits h, and_assoc]

/-- The runs after an emission. -/
theorem mem_runs_emitted (h : WaitsSound s) {r' : RunRow} :
  r' ∈ (emitted s now eventName payload).runs.rows
    ↔ ∃ r ∈ s.runs.rows,
      (if s.Wakes now eventName r then (RunRow.wake now payload).apply r else r) = r'
  := by
  rw [emitted, pendings_eq]
  simp only [mem_runs_markWokens, among_wokenWaits h]
  rfl

/-- The waits after an emission are those for other events. -/
theorem mem_waits_emitted (h : WaitsSound s) {w : WaitRow} :
  w ∈ (emitted s now eventName payload).waits.rows ↔ w ∈ s.waits.rows ∧ w.eventName ≠ eventName
  := by
  rw [emitted, pendings_eq]
  simp only [mem_waits_markWokens, waits_announced]
  constructor
  · rintro ⟨⟨hw, hover⟩, hnone⟩
    refine ⟨hw, fun hevent => ?_⟩
    apply hnone w _ ⟨rfl, rfl⟩
    exact (mem_wokenWaits h).mpr ⟨hw, hevent, fun hexpired => hover ⟨hevent, hexpired⟩⟩
  · rintro ⟨hw, hevent⟩
    refine ⟨⟨hw, fun hover => hevent hover.1⟩, ?_⟩
    rintro w' hw' ⟨heq, -⟩
    exact hevent (heq.trans ((mem_wokenWaits h).mp hw').2.1)

/-- The events after an emission. -/
theorem payloadOf_emitted (eventName' : String) :
  (emitted s now eventName payload).payloadOf eventName'
    = if eventName' = eventName then some payload else s.payloadOf eventName'
  := by
  rw [emitted, pendings_eq]
  simp only [QueueState.payloadOf, events_markWokens, announced, QueueState.deleteWaits]
  split
  · rename_i heq
    rw [heq, Keyed.Table.get?_put_self s.events
      { eventName, payload := some payload, emittedAt := now }]
    rfl
  · rename_i hne
    rw [Keyed.Table.get?_put_of_ne s.events hne]

/-- The row of a task after an emission. -/
theorem get?_tasks_emitted (h : WaitsSound s) {r : RunRow} (hr : r ∈ s.runs.rows)
    (hwakes : s.Wakes now eventName r) {t : TaskRow} (ht : s.tasks.get? r.taskId = some t) :
  (emitted s now eventName payload).tasks.get? r.taskId
    = some ((TaskRow.withState .pending).apply t)
  := by
  have htasks : ∀ (woken : List WaitRow) (s : QueueState),
      (woken.foldl (markWoken now payload) s).tasks = s.tasks := by
    intro woken
    induction woken with
    | nil => exact fun _ => rfl
    | cons w woken ih => exact fun s => ih _
  rw [emitted, get?_pendings, htasks]
  rw [show (announced s now eventName payload).tasks = s.tasks from rfl, ht, Option.map_some, if_pos]
  obtain ⟨w, hw, hevent, hover, hid⟩ := hwakes
  apply List.mem_filterMap.mpr
  refine ⟨w, (mem_wokenWaits h).mpr ⟨hw, hevent, hover⟩, ?_⟩
  rw [show (announced s now eventName payload).runs = s.runs from rfl, hid,
    Keyed.Table.get?_of_mem hr]
  rfl

theorem WaitsSound.emit (h : WaitsSound s) :
  WaitsSound (emitted s now eventName payload)
  := by
  have hsame : ∀ w ∈ s.waits.rows, w.eventName ≠ eventName → ∀ r : RunRow, r.runId = w.runId →
      ¬ s.Wakes now eventName r := by
    rintro w hw hevent r hid ⟨w', hw', hevent', -, hid'⟩
    rw [h.once w hw w' hw' (hid.symm.trans hid'.symm)] at hevent
    exact hevent hevent'
  constructor
  · intro w hw
    obtain ⟨hw, hevent⟩ := (mem_waits_emitted h).mp hw
    obtain ⟨r, hr, has⟩ := h.sleeper w hw
    use r, (mem_runs_emitted h).mpr ⟨r, hr, if_neg (hsame w hw hevent r has.runId)⟩
  · intro w hw w' hw'
    exact h.once w ((mem_waits_emitted h).mp hw).1 w' ((mem_waits_emitted h).mp hw').1
  · intro w hw
    obtain ⟨hw, hevent⟩ := (mem_waits_emitted h).mp hw
    rw [payloadOf_emitted, if_neg hevent]
    exact h.pending w hw
  · exact fun w hw => h.named w ((mem_waits_emitted h).mp hw).1
  · intro r' hr' hend
    obtain ⟨r, hr, rfl⟩ := (mem_runs_emitted h).mp hr'
    split at hend
    · exact absurd hend.state (by simp [RunRow.wake])
    · rename_i hasleep
      rw [if_neg hasleep]
      obtain ⟨w, hw, hid⟩ := h.kept r hr hend
      refine ⟨w, (mem_waits_emitted h).mpr ⟨hw, fun hevent => ?_⟩, hid⟩
      apply hasleep
      refine ⟨w, hw, hevent, ?_, hid⟩
      rw [WaitRow.expired_iff, ← (h.sleeper_of_runId hw hr hid.symm).availableAt, hend.availableAt]
      simp

end

/-! ### Every queue -/

/-- Every move keeps the waits sound. -/
theorem waitsSound_move {s : QueueState} {m : Move} (hallowed : m.Allowed s)
    (hs : s.life.Consistent) (h : WaitsSound s) :
  WaitsSound (m.apply s)
  := by
  have hrunning : ∀ {r : RunRow}, r.state = .running → r.state ≠ .sleeping := by
    intro r hstate
    simp [hstate]
  cases m with
  | change c => exact h.change hs hallowed.1 hallowed.2.1 hallowed.2.2
  | sleep r wakeAt =>
      have hendless : ¬ ((RunRow.sleep wakeAt).apply r).Endless := fun hend => hend.wakeEvent rfl
      exact h.editRun hallowed.1 (hrunning hallowed.2) hendless rfl rfl (fun _ => rfl)
  | extend r claimUntil =>
      refine h.edit (f := fun r' =>
        if r'.runId = r.runId then (RunRow.extendClaim claimUntil).apply r' else r')
        ?_ ?_ ?_ ?_ rfl (fun _ _ => rfl)
      · intro r'
        rw [Move.apply, QueueState.updateRun, QueueState.updateRuns, Keyed.Table.mem_update]
        simp
      · intro r'
        split
        · exact (RunRow.extendClaim claimUntil).key_apply r'
        · rfl
      · intro r' _ hsleeping
        simp [RunRow.extendClaim, hsleeping]
      · intro r' _ hend
        split at hend
        · have hstate := hend.state
          rw [(keeps_extendClaim claimUntil).state] at hstate
          simpa [RunRow.extendClaim, hstate] using hend
        · exact hend
  | ask r eventName =>
      apply h.editRun (e := RunRow.clearPayload) hallowed.1 (hrunning hallowed.2.1)
      · exact fun hend => hrunning hallowed.2.1 hend.state
      · rw [← runs_ensureEvent s eventName]
        rfl
      · rw [← waits_ensureEvent s eventName]
        rfl
      · intro name
        rw [← payloadOf_ensureEvent s eventName name]
        rfl
  | record _ _ | receive _ _ _ _ _ => exact ⟨h.sleeper, h.once, h.pending, h.named, h.kept⟩
  | giveUp r =>
      have hendless : ¬ (RunRow.clearWakeEvent.apply r).Endless := fun hend => hend.wakeEvent rfl
      exact h.editRun hallowed.1 (hrunning hallowed.2) hendless rfl rfl (fun _ => rfl)
  | wait now r stepName eventName timeoutAt =>
      exact h.wait hallowed.1 hallowed.2.1 hallowed.2.2.1 hallowed.2.2.2.1
  | emit now eventName payload => exact h.emit
  | forget batch => exact h.forget batch

theorem waitsSound_of_reachable {pg : Postgres} {s : QueueState} (h : Reachable pg s) :
  WaitsSound s
  := of_reachable WaitsSound.create (fun _ _ hallowed hs h => waitsSound_move hallowed hs h) h

section

variable {pg : Postgres} {s s' : QueueState} {now : Time} {eventName stepName : String}
  {payload : Json} {id : Uuid} {l : Label} {ls : List Label}

/-- The run of a wait that is not over wakes with the event, its task is pending, and its step
has the payload. -/
theorem emitted_wakes (h : WaitsSound s) (hs : s.life.Consistent) (payload : Json) {w : WaitRow}
    (hw : w ∈ s.waits.rows) (hover : ¬ w.Expired now) {r : RunRow} (hr : r ∈ s.runs.rows)
    (has : r.WaitsAs w) :
  (emitted s now w.eventName payload).runs.get? r.runId = some ((RunRow.wake now payload).apply r)
    ∧ (∃ t, (emitted s now w.eventName payload).tasks.get? r.taskId = some t ∧ t.state = .pending)
    ∧ ∃ c, (emitted s now w.eventName payload).checkpoints.get? (w.taskId, w.stepName) = some c
      ∧ c.state = some payload
  := by
  have hwakes : s.Wakes now w.eventName r := ⟨w, hw, rfl, hover, has.runId.symm⟩
  refine ⟨?_, ?_, ?_⟩
  · apply Keyed.Table.get?_eq_some.mpr
    exact ⟨(mem_runs_emitted h).mpr ⟨r, hr, if_pos hwakes⟩, rfl⟩
  · obtain ⟨t, ht, hid⟩ := hs.owned r hr
    have hget : s.tasks.get? r.taskId = some t := Keyed.Table.get?_eq_some.mpr ⟨ht, hid⟩
    exact ⟨_, get?_tasks_emitted h hr hwakes hget, rfl⟩
  · have hwoken : w ∈ wokenWaits (announced s now w.eventName payload) w.eventName :=
      (mem_wokenWaits h).mpr ⟨hw, rfl, hover⟩
    rw [emitted, pendings_eq]
    rcases checkpoint_markWokens (announced s now w.eventName payload) now payload w.taskId
      w.stepName with ⟨-, hnone⟩ | ⟨w', -, -, hget⟩
    · exact absurd ⟨rfl, rfl⟩ (hnone w hwoken)
    · exact ⟨_, hget, rfl⟩

/-! ### What a wait ends with -/

/-- The step of the task has a value, and nobody waits at it. -/
structure Settled (id : Uuid) (stepName : String) (value : Json) (s : QueueState) : Prop where
  value : (s.checkpoints.get? (id, stepName)).bind CheckpointRow.state = some value
  idle : ∀ w ∈ s.waits.rows, ¬ (w.taskId = id ∧ w.stepName = stepName)

/-- The call neither records the step itself nor deletes the task. -/
def Label.Leaves (id : Uuid) (stepName : String) (l : Label) : Prop :=
  Spares id l ∧ ∀ now state ownerRun extendClaimBy,
    l ≠ .checkpoint now id stepName state ownerRun extendClaimBy

theorem settled_move {value : Json} {m : Move} (hl : l.Leaves id stepName) (htakes : l.Takes m)
    (hallowed : m.Allowed s) (h : Settled id stepName value s) :
  Settled id stepName value (m.apply s)
  := by
  have hput : ∀ c : CheckpointRow, c.key ≠ (id, stepName) →
      ((s.checkpoints.put c).get? (id, stepName)).bind CheckpointRow.state = some value := by
    intro c hne
    rw [Keyed.Table.get?_put_of_ne s.checkpoints hne.symm]
    exact h.value
  cases m with
  | change c =>
      refine ⟨?_, fun w hw => h.idle w (WaitsSound.mem_of_mem_waits hw)⟩
      cases c with
      | delete batch =>
          obtain ⟨now, ttlSeconds, limit, rfl⟩ := htakes
          have hspared : id ∉ batch := hl.1
          have hvalue := h.value
          rw [Move.apply, QueueState.change, Change.checkpoints, Keyed.Table.get?_delete]
          cases hget : s.checkpoints.get? (id, stepName) with
          | none =>
              rw [hget] at hvalue
              cases hvalue
          | some c =>
              have hkey : c.taskId = id := congrArg Prod.fst (Keyed.Table.key_of_get? hget)
              rw [hget] at hvalue
              rw [Option.filter_some, if_pos (by simp [hkey, hspared])]
              exact hvalue
      | _ => exact h.value
  | record r c =>
      refine ⟨hput c ?_, h.idle⟩
      intro hkey
      obtain ⟨now, extendClaimBy, -, hcall⟩ := htakes
      simp only [CheckpointRow.key, Prod.mk.injEq] at hkey
      rw [hkey.1, hkey.2] at hcall
      exact hl.2 _ _ _ _ hcall
  | receive now r stepName' eventName payload =>
      refine ⟨hput _ ?_, h.idle⟩
      intro hkey
      simp only [CheckpointRow.key, Prod.mk.injEq] at hkey
      have hfresh := hallowed.2.2.2
      rw [hkey.1, hkey.2, h.value] at hfresh
      cases hfresh
  | ask r eventName =>
      constructor
      · rw [← h.value, ← checkpoints_ensureEvent s eventName]
        rfl
      · intro w hw
        rw [Move.apply, QueueState.updateRun, QueueState.updateRuns, waits_ensureEvent] at hw
        exact h.idle w hw
  | wait now r stepName' eventName timeoutAt =>
      refine ⟨h.value, fun w hw => ?_⟩
      rcases Keyed.Table.mem_put.mp hw with rfl | ⟨hw, -⟩
      · rintro ⟨rfl, rfl⟩
        have hfresh := hallowed.2.2.2.2.1
        rw [h.value] at hfresh
        cases hfresh
      · exact h.idle w hw
  | emit now eventName payload =>
      have hidle : ∀ w ∈ (announced s now eventName payload).waits.rows,
          ¬ (w.taskId = id ∧ w.stepName = stepName) :=
        fun w hw => h.idle w (waits_announced.mp hw).1
      constructor
      · rw [Move.apply, emitted, pendings_eq]
        rcases checkpoint_markWokens (announced s now eventName payload) now payload id
          stepName with ⟨heq, -⟩ | ⟨w, hw, hkey, -⟩
        · exact (congrArg (fun c => Option.bind c CheckpointRow.state) heq).trans h.value
        · exact absurd hkey (hidle w (List.mem_filter.mp (List.mem_filter.mp hw).1).1)
      · intro w hw
        rw [Move.apply, emitted, pendings_eq] at hw
        exact hidle w (mem_waits_markWokens.mp hw).1
  | _ => exact ⟨h.value, h.idle⟩

/-- A wait for a step that has a value ends at once with it, and changes nothing. -/
theorem awaitEvent_of_settled {value : Json} (h : Settled id stepName value s) (now : Time)
    (runId : Uuid) {timeout : Option ℤ} (hname : blank eventName = false)
    (htimeout : ∀ n, timeout = some n → 0 ≤ n) :
  awaitEvent s now id runId stepName eventName timeout = .ok (s, false, some value)
  := by
  have hnonneg : timeout.any (· < 0) = false := by
    cases timeout with
    | none => rfl
    | some n => simpa using htimeout n rfl
  rw [awaitEvent, if_neg (by simp [hname]), if_neg (by simp [hnonneg])]
  simp only [h.value]

/-- Nobody waits at a step once the emission its run waited for has been made. -/
theorem settled_emitted (h : WaitsSound s) (hs : s.life.Consistent) {w : WaitRow}
    (hw : w ∈ s.waits.rows) (hover : ¬ w.Expired now) :
  Settled w.taskId w.stepName payload (emitted s now w.eventName payload)
  := by
  obtain ⟨r, hr, has⟩ := h.sleeper w hw
  obtain ⟨-, -, c, hc, hstate⟩ := emitted_wakes h hs payload hw hover hr has
  constructor
  · rw [hc]
    exact hstate
  · rintro w' hw' ⟨hid, -⟩
    obtain ⟨hw', hevent⟩ := (mem_waits_emitted h).mp hw'
    obtain ⟨r', hr', has'⟩ := h.sleeper w' hw'
    have htask : r'.taskId = r.taskId := has'.taskId.trans (hid.trans has.taskId.symm)
    -- a task has one active run, so both waits are of the same run
    obtain rfl := eq_of_active hs hr hr' (active_of_sleeping has.state)
      (active_of_sleeping has'.state) htask
    rw [h.once w' hw' w hw (has'.runId.symm.trans has.runId)] at hevent
    exact hevent rfl

/-! ### What events agree on -/

/-- The call does not clean the event up. -/
def Label.Remembers (eventName : String) : Label → Prop
  | .cleanupEvents _ _ _ batch => eventName ∉ batch
  | _ => True

/-- The call records the step of the task by a wait for the event only. -/
def Label.OnlyAwaits (id : Uuid) (stepName eventName : String) : Label → Prop
  | .checkpoint _ id' stepName' _ _ _ => ¬ (id' = id ∧ stepName' = stepName)
  | .await _ id' _ stepName' eventName' _ => id' = id ∧ stepName' = stepName → eventName' = eventName
  | _ => True

/-- An event keeps the payload of its first emission. -/
theorem payloadOf_move {m : Move} (hl : l.Remembers eventName) (htakes : l.Takes m)
    (hallowed : m.Allowed s) (h : s.payloadOf eventName = some payload) :
  (m.apply s).payloadOf eventName = some payload
  := by
  cases m with
  | ask r eventName' =>
      rw [← h, ← payloadOf_ensureEvent s eventName' eventName]
      rfl
  | emit now eventName' payload' =>
      rw [Move.apply, payloadOf_emitted, if_neg]
      · exact h
      · rintro rfl
        rw [hallowed.2] at h
        cases h
  | forget batch =>
      obtain ⟨now, ttlSeconds, limit, rfl⟩ := htakes
      have hkept : eventName ∉ batch := hl
      rw [QueueState.payloadOf] at h ⊢
      rw [Move.apply, Keyed.Table.get?_delete]
      cases hget : s.events.get? eventName with
      | none =>
          rw [hget] at h
          cases h
      | some e =>
          rw [hget] at h
          rw [Option.filter_some, if_pos (by simp [Keyed.Table.key_of_get? hget, hkept])]
          exact h
  | _ => exact h

/-- The step of the task has no value but the payload of the event, and is waited at for the
event only. -/
structure Told (id : Uuid) (stepName eventName : String) (s : QueueState) : Prop where
  value : ∀ value, (s.checkpoints.get? (id, stepName)).bind CheckpointRow.state = some value →
    s.payloadOf eventName = some value
  waits : ∀ w ∈ s.waits.rows, w.taskId = id → w.stepName = stepName → w.eventName = eventName

theorem told_create (storage : StorageMode) :
  Told id stepName eventName (.create storage)
  := by
  constructor
  · intro value hvalue
    cases hvalue
  · exact fun w hw => absurd hw List.not_mem_nil

/-- A checkpoint that is put tells the payload where it is put at the step. -/
theorem Told.value_put {c : CheckpointRow} (h : Told id stepName eventName s)
    (hc : c.key = (id, stepName) → c.state = s.payloadOf eventName) {value : Json}
    (hvalue : ((s.checkpoints.put c).get? (id, stepName)).bind CheckpointRow.state
      = some value) :
  s.payloadOf eventName = some value
  := by
  by_cases hkey : c.key = (id, stepName)
  · rw [← hkey, Keyed.Table.get?_put_self s.checkpoints c] at hvalue
    rw [← hc hkey]
    exact hvalue
  · rw [Keyed.Table.get?_put_of_ne s.checkpoints (Ne.symm hkey)] at hvalue
    exact h.value value hvalue

/-- A change puts no checkpoint. -/
theorem value_change {c : Change} {value : Json}
    (hvalue : ((s.change c).checkpoints.get? (id, stepName)).bind CheckpointRow.state
      = some value) :
  (s.checkpoints.get? (id, stepName)).bind CheckpointRow.state = some value
  := by
  cases c with
  | delete batch =>
      rw [QueueState.change, Change.checkpoints, Keyed.Table.get?_delete] at hvalue
      cases hget : s.checkpoints.get? (id, stepName) with
      | none =>
          rw [hget] at hvalue
          cases hvalue
      | some c =>
          rw [hget, Option.filter_some] at hvalue
          split at hvalue
          · exact hvalue
          · cases hvalue
  | _ => exact hvalue

/-- The checkpoints an emission writes tell its payload. -/
theorem Told.emit {now : Time} {eventName' : String} {payload : Json}
    (h : Told id stepName eventName s)
    (hkeep : ∀ value, s.payloadOf eventName = some value →
      ((Move.emit now eventName' payload).apply s).payloadOf eventName = some value) :
  Told id stepName eventName ((Move.emit now eventName' payload).apply s)
  := by
  have hold : ∀ w ∈ (announced s now eventName' payload).waits.rows, w ∈ s.waits.rows :=
    fun w hw => (waits_announced.mp hw).1
  constructor
  · intro value hvalue
    rw [Move.apply, emitted, pendings_eq] at hvalue
    rcases checkpoint_markWokens (announced s now eventName' payload) now payload id
      stepName with ⟨heq, -⟩ | ⟨w, hw, ⟨hid, hstep⟩, hget⟩
    · apply hkeep value (h.value value _)
      exact (congrArg (fun c => Option.bind c CheckpointRow.state) heq).symm.trans hvalue
    · obtain ⟨hw, hevent⟩ := List.mem_filter.mp (List.mem_filter.mp hw).1
      have hname := h.waits w (hold w hw) hid hstep
      have hnew : some payload = some value :=
        (congrArg (fun c => Option.bind c CheckpointRow.state) hget).symm.trans hvalue
      rw [Move.apply, payloadOf_emitted, if_pos (hname.symm.trans (of_decide_eq_true hevent)), hnew]
  · intro w hw
    rw [Move.apply, emitted, pendings_eq] at hw
    exact h.waits w (hold w (mem_waits_markWokens.mp hw).1)

theorem told_move {m : Move} (hremembers : l.Remembers eventName)
    (hl : l.OnlyAwaits id stepName eventName) (htakes : l.Takes m) (hallowed : m.Allowed s)
    (h : Told id stepName eventName s) :
  Told id stepName eventName (m.apply s)
  := by
  have hkeep : ∀ value, s.payloadOf eventName = some value →
      (m.apply s).payloadOf eventName = some value :=
    fun value hvalue => payloadOf_move hremembers htakes hallowed hvalue
  cases m with
  | change c =>
      exact ⟨fun value hvalue => hkeep value (h.value value (value_change hvalue)),
        fun w hw => h.waits w (WaitsSound.mem_of_mem_waits hw)⟩
  | record r c =>
      refine ⟨fun _ => h.value_put ?_, h.waits⟩
      intro hkey
      obtain ⟨now, extendClaimBy, -, rfl⟩ := htakes
      exact absurd ⟨congrArg Prod.fst hkey, congrArg Prod.snd hkey⟩ hl
  | receive now r stepName' eventName' payload =>
      refine ⟨fun _ => h.value_put ?_, h.waits⟩
      intro hkey
      obtain ⟨timeout, rfl⟩ := htakes
      obtain rfl := hl ⟨congrArg Prod.fst hkey, congrArg Prod.snd hkey⟩
      exact hallowed.2.2.1.symm
  | ask r eventName' =>
      constructor
      · intro value hvalue
        apply hkeep value (h.value value _)
        rw [← hvalue, ← checkpoints_ensureEvent s eventName']
        rfl
      · intro w hw
        rw [Move.apply, QueueState.updateRun, QueueState.updateRuns, waits_ensureEvent] at hw
        exact h.waits w hw
  | wait now r stepName' eventName' timeoutAt =>
      refine ⟨h.value, fun w hw => ?_⟩
      rcases Keyed.Table.mem_put.mp hw with rfl | ⟨hw, -⟩
      · rintro hid hstep
        obtain ⟨timeout, -, rfl⟩ := htakes
        exact hl ⟨hid, hstep⟩
      · exact h.waits w hw
  | emit now eventName' payload =>
      exact h.emit hkeep
  | forget batch => exact ⟨fun value hvalue => hkeep value (h.value value hvalue), h.waits⟩
  | _ => exact ⟨h.value, h.waits⟩

/-- A wait that ends with a value ends with what is told of the event. -/
theorem payload_of_awaitEvent {runId : Uuid} {timeout : Option ℤ}
    (h : Told id stepName eventName s)
    (hs : awaitEvent s now id runId stepName eventName timeout = .ok (s', false, some payload)) :
  s.payloadOf eventName = some payload
  := by
  rw [awaitEvent] at hs
  split at hs
  · cases hs
  · split at hs
    · cases hs
    · split at hs
      · rename_i value hvalue
        cases hs
        exact h.value payload hvalue
      · split at hs
        · cases hs
        · split at hs
          · cases hs
          · split at hs
            · cases hs
            · split at hs
              · cases hs
              · dsimp only at hs
                split at hs
                · rename_i payload' hpayload
                  cases hs
                  rw [← payloadOf_ensureEvent s eventName eventName]
                  exact hpayload
                · split at hs <;> cases hs

theorem blank_of_awaitEvent {runId : Uuid} {timeout : Option ℤ} {suspend : Bool}
    {value : Option Json}
    (hs : awaitEvent s now id runId stepName eventName timeout = .ok (s', suspend, value)) :
  blank eventName = false
  := by
  rw [awaitEvent] at hs
  split at hs
  · cases hs
  · rename_i hname
    simpa using hname

/-- An emission of an event that has its payload changes nothing. -/
theorem emitEvent_of_emitted (hname : blank eventName = false)
    (h : s.payloadOf eventName = some payload) (now : Time) (given : Option Json) :
  emitEvent s now eventName given = .ok s
  := by
  rw [QueueState.payloadOf] at h
  rw [emitEvent, if_neg (by simp [hname]), if_pos (by simp [h])]

end

/-! ### An order that waits to be paid -/

/-- What a spawn with no options reads. -/
def noOptions : SpawnOptions := ⟨none, none, none, none, none⟩

/-- An order is spawned. -/
def orderSpawned : QueueState :=
  insertSpawned (.create .unpartitioned) 0
    (spawnedTask (.create .unpartitioned) 0 "ship_order" (.obj []) noOptions)

/-- A worker claims the order. -/
def orderClaimed : QueueState :=
  markClaimed 0 "worker" (some (seconds 60)) orderSpawned (newRun ⟨1⟩ ⟨0⟩ 1 .pending 0 0)

/-- The order waits until it is paid. -/
def orderAsleep : QueueState :=
  markWaiting ((ensureEvent orderClaimed "paid").updateRun ⟨1⟩ RunRow.clearPayload) 1 ⟨0⟩ ⟨1⟩
    "payment" "paid" none

/-- The row of the waits of the order. -/
def orderWait : WaitRow := ⟨⟨0⟩, ⟨1⟩, "payment", "paid", none, 1⟩

/-- The order is paid. -/
def orderPaid : QueueState := emitted orderAsleep 2 "paid" (.bool true)

/-- Spawning the order and claiming it. -/
def orderCalls : List Label :=
  [.spawn 0 "ship_order" (.obj []) (.obj []), .claim 0 "worker" 60 1]

theorem run_orderCalls :
  (machine plainPostgres).run (.create .unpartitioned) orderCalls = some orderClaimed
  := by
  have hclaim : claimTask plainPostgres orderSpawned 0 "worker" 60 1 = .ok (orderClaimed, [⟨1⟩]) :=
    claimTask_one rfl rfl rfl
  have hstep := step_claim hclaim
  apply Machine.run_cons.mpr
  use orderSpawned, rfl
  exact Machine.run_cons.mpr ⟨orderClaimed, hstep, rfl⟩

theorem reachable_orderClaimed :
  Reachable plainPostgres orderClaimed
  := reachable_iff.mpr ⟨.unpartitioned, orderCalls, run_orderCalls⟩

theorem reachable_orderAsleep :
  Reachable plainPostgres orderAsleep
  := by
  have hrun : (machine plainPostgres).run orderClaimed [.await 1 ⟨0⟩ ⟨1⟩ "payment" "paid" none]
      = some orderAsleep := rfl
  exact reachable_orderClaimed.run hrun

/-- The run of the order while it waits. -/
def orderRun : RunRow :=
  (RunRow.wait "paid" none).apply
    ((RunRow.claim 0 "worker" (some (seconds 60))).apply (newRun ⟨1⟩ ⟨0⟩ 1 .pending 0 0))

theorem endless_orderRun :
  orderRun.Endless
  := ⟨rfl, by simp [orderRun, RunRow.wait], rfl⟩

theorem emit_orderPaid :
  emitEvent orderAsleep 2 "paid" (some (.bool true)) = .ok orderPaid
  := rfl

/-! ### Wakeups, deliveries and agreement -/

section

variable {pg : Postgres} {s s' : QueueState} {now : Time} {eventName stepName : String}
  {payload : Json} {id : Uuid} {ls : List Label}

/-- No wakeup is lost: while a run sleeps until an event, with no time to end its sleep, the
event has not been emitted, and whoever emits it first wakes the run. -/
theorem no_lost_wakeup (h : Reachable pg s) {r : RunRow} (hr : r ∈ s.runs.rows) (hend : r.Endless) :
  ∃ w ∈ s.waits.rows, r.WaitsAs w ∧ s.payloadOf w.eventName = none
    ∧ ∀ now payload, ∃ s', emitEvent s now w.eventName payload = .ok s'
      ∧ s'.runs.get? r.runId = some ((RunRow.wake now (payload.getD .null)).apply r)
      ∧ (∃ t, s'.tasks.get? r.taskId = some t ∧ t.state = .pending)
      ∧ ∃ c, s'.checkpoints.get? (r.taskId, w.stepName) = some c
        ∧ c.state = some (payload.getD .null)
  := by
  have hwaits := waitsSound_of_reachable h
  obtain ⟨w, hw, hid⟩ := hwaits.kept r hr hend
  have has := hwaits.sleeper_of_runId hw hr hid.symm
  have hpending := hwaits.pending w hw
  refine ⟨w, hw, has, hpending, fun now payload => ?_⟩
  refine ⟨_, emitEvent_of_pending (hwaits.named w hw) hpending, ?_⟩
  have hover : ¬ w.Expired now := by
    rw [WaitRow.expired_iff, ← has.availableAt, hend.availableAt]
    simp
  rw [has.taskId]
  have hwakes := emitted_wakes hwaits (consistent_of_reachable h) (payload.getD .null) hw
    hover hr has
  rwa [has.taskId] at hwakes

theorem orderRun_not_lost :
  ∃ w ∈ orderAsleep.waits.rows, orderRun.WaitsAs w ∧ orderAsleep.payloadOf w.eventName = none
  := by
  obtain ⟨w, hw, has, hpending, -⟩ := no_lost_wakeup reachable_orderAsleep
    (Keyed.Table.mem_of_get? (k := ⟨1⟩) rfl) endless_orderRun
  exact ⟨w, hw, has, hpending⟩

/-- What an event wakes a run with is what its step is worth from then on: however often and by
whichever attempt the step is waited at again, the wait ends at once with the payload. -/
theorem delivery_final (h : Reachable pg s) {w : WaitRow} (hw : w ∈ s.waits.rows)
    (hover : ¬ w.Expired now) {given : Option Json} {s₁ : QueueState}
    (hemit : emitEvent s now w.eventName given = .ok s₁) (hrun : (machine pg).run s₁ ls = some s')
    (hleave : ∀ l ∈ ls, l.Leaves w.taskId w.stepName) (now' : Time) (runId : Uuid)
    {timeout : Option ℤ} (hname : blank eventName = false) (htimeout : ∀ n, timeout = some n → 0 ≤ n) :
  awaitEvent s' now' w.taskId runId w.stepName eventName timeout
    = .ok (s', false, some (given.getD .null))
  := by
  have hwaits := waitsSound_of_reachable h
  have hs := consistent_of_reachable h
  have hallowed : (Move.emit now w.eventName (given.getD .null)).Allowed s :=
    ⟨hwaits.named w hw, hwaits.pending w hw⟩
  rw [emitEvent_of_pending hallowed.1 hallowed.2] at hemit
  obtain rfl := Except.ok.inj hemit
  have hsettled := preserved_along (D := fun l => l.Leaves w.taskId w.stepName)
    (I := Settled w.taskId w.stepName (given.getD .null))
    (fun s l m hl htakes hallowed _ hI => settled_move hl htakes hallowed hI)
    (consistent_move hs hallowed) (settled_emitted hwaits hs hw hover) hleave hrun
  exact awaitEvent_of_settled hsettled.1 now' runId hname htimeout

/-- The order that was paid for and then cancelled still sees the payment. -/
theorem orderWait_delivered :
  ∃ s, (machine plainPostgres).run orderPaid [.cancel 3 ⟨0⟩] = some s
    ∧ awaitEvent s 4 ⟨0⟩ ⟨1⟩ "payment" "paid" none = .ok (s, false, some (.bool true))
  := by
  refine ⟨_, rfl, ?_⟩
  have hcancel : (machine plainPostgres).run orderPaid [.cancel 3 ⟨0⟩] = some _ := rfl
  apply delivery_final (w := orderWait) reachable_orderAsleep
    (Keyed.Table.mem_of_get? (k := (⟨1⟩, "payment")) rfl) (by decide) emit_orderPaid hcancel _ 4 ⟨1⟩
    rfl (fun _ h => by cases h)
  intro l hl
  obtain rfl := List.mem_singleton.mp hl
  exact ⟨trivial, fun _ _ _ _ h => by cases h⟩

/-- The first emission wins: two waits for an event, of any two tasks at any two moments, end
with the same payload, and no later emission changes anything. -/
theorem awaits_agree {storage : StorageMode} {ls' : List Label} {s₁ s₂ : QueueState}
    {now' : Time} {id' runId runId' : Uuid} {stepName' : String} {timeout timeout' : Option ℤ}
    {payload' : Json} (hrun : (machine pg).run (.create storage) ls = some s)
    (hrun' : (machine pg).run s ls' = some s')
    (hcalls : ∀ l ∈ ls ++ ls', l.Remembers eventName ∧ l.OnlyAwaits id stepName eventName
      ∧ l.OnlyAwaits id' stepName' eventName)
    (hawait : awaitEvent s now id runId stepName eventName timeout = .ok (s₁, false, some payload))
    (hawait' : awaitEvent s' now' id' runId' stepName' eventName timeout'
      = .ok (s₂, false, some payload')) :
  payload' = payload ∧ ∀ now given, emitEvent s' now eventName given = .ok s'
  := by
  have hrest : ∀ l ∈ ls', l.Remembers eventName ∧ l.OnlyAwaits id stepName eventName
      ∧ l.OnlyAwaits id' stepName' eventName := fun l hl => hcalls l (List.mem_append_right ls hl)
  have hfirst : ∀ l ∈ ls, l.Remembers eventName ∧ l.OnlyAwaits id stepName eventName
      ∧ l.OnlyAwaits id' stepName' eventName := fun l hl => hcalls l (List.mem_append_left ls' hl)
  obtain ⟨⟨htold, htold'⟩, hs⟩ := preserved_along
    (I := fun s => Told id stepName eventName s ∧ Told id' stepName' eventName s)
    (fun s l m hD htakes hallowed _ hI => ⟨told_move hD.1 hD.2.1 htakes hallowed hI.1,
      told_move hD.1 hD.2.2 htakes hallowed hI.2⟩)
    (.create storage) ⟨told_create storage, told_create storage⟩ hfirst hrun
  obtain ⟨⟨htold', hpayload⟩, -⟩ := preserved_along
    (I := fun s => Told id' stepName' eventName s ∧ s.payloadOf eventName = some payload)
    (fun s l m hD htakes hallowed _ hI => ⟨told_move hD.1 hD.2.2 htakes hallowed hI.1,
      payloadOf_move hD.1 htakes hallowed hI.2⟩)
    hs ⟨htold', payload_of_awaitEvent htold hawait⟩ hrest hrun'
  constructor
  · have hsame := payload_of_awaitEvent htold' hawait'
    rw [hpayload] at hsame
    exact (Option.some.inj hsame).symm
  · exact emitEvent_of_emitted (blank_of_awaitEvent hawait) hpayload

/-- The payment the order sees is the first one: a second one changes nothing. -/
theorem orderPaid_agrees :
  emitEvent orderPaid 6 "paid" (some (.bool false)) = .ok orderPaid
  := by
  have hrun : (machine plainPostgres).run (.create .unpartitioned)
      (orderCalls ++ [.await 1 ⟨0⟩ ⟨1⟩ "payment" "paid" none, .emit 2 "paid" (some (.bool true))])
        = some orderPaid := by
    rw [Machine.run_append run_orderCalls]
    rfl
  have hagain : (machine plainPostgres).run orderPaid [.emit 3 "paid" none] = some orderPaid := rfl
  have hfirst : awaitEvent orderPaid 4 ⟨0⟩ ⟨1⟩ "payment" "paid" none
      = .ok (orderPaid, false, some (.bool true)) := rfl
  have hsecond : awaitEvent orderPaid 5 ⟨0⟩ ⟨1⟩ "payment" "paid" none
      = .ok (orderPaid, false, some (.bool true)) := rfl
  apply (awaits_agree hrun hagain _ hfirst hsecond).2 6 (some (.bool false))
  intro l hl
  simp only [orderCalls, List.cons_append, List.nil_append, List.mem_cons, List.not_mem_nil, or_false]
    at hl
  rcases hl with rfl | rfl | rfl | rfl | rfl
  all_goals simp [Label.Remembers, Label.OnlyAwaits]

end

end DjangoAbsurd.Engine
