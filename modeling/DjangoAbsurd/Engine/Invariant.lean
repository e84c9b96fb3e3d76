import DjangoAbsurd.Engine.Machine

/-!
# What the SQL functions keep

`Sound` relates the runs of a queue to its tasks: an active run belongs to a task that is
not terminal, and no task has two of them. The edits the SQL functions are made of keep it
(`Sound.updateRuns`, `Sound.updateTask`, `Sound.insertRun`, `Sound.insertTask`,
`Sound.deleteTasks`). Together with it they leave the row of a completed or cancelled task
as it is (`Evolves`), unless a cleanup takes it.
-/

namespace DjangoAbsurd.Engine

/-- An active run belongs to a task that is not terminal, and is its only active run. -/
structure Sound (s : QueueState) : Prop where
  drawn : ∀ t ∈ s.tasks.rows, t.taskId.index < s.drawn
  live : ∀ r ∈ s.runs.rows, r.Active →
    ∃ t ∈ s.tasks.rows, t.taskId = r.taskId ∧ t.state.terminal = false
  single : ∀ r ∈ s.runs.rows, ∀ r' ∈ s.runs.rows, r.Active → r'.Active →
    r.taskId = r'.taskId → r = r'

namespace Sound

variable {s s' : QueueState}

theorem create (storage : StorageMode) :
  Sound (.create storage)
  := by
  constructor <;> simp [QueueState.create]

/-- Only the tasks, the runs and the ids drawn matter. -/
theorem congr (h : Sound s) (htasks : s'.tasks = s.tasks) (hruns : s'.runs = s.runs)
    (hdrawn : s.drawn ≤ s'.drawn) :
  Sound s'
  where
  drawn := by
    rw [htasks]
    intro t ht
    have := h.drawn t ht
    omega
  live := by
    rw [htasks, hruns]
    exact h.live
  single := by
    rw [hruns]
    exact h.single

/-- A terminal task has no active run. -/
theorem ne_of_terminal (h : Sound s) {id : Uuid} {t : TaskRow} (ht : s.tasks.get? id = some t)
    (hterminal : t.state.terminal = true) {r : RunRow} (hr : r ∈ s.runs.rows)
    (hactive : r.Active) :
  r.taskId ≠ id
  := by
  rintro rfl
  obtain ⟨t', ht', hid, hlive⟩ := h.live r hr hactive
  obtain ⟨hmem, hkey⟩ := Keyed.Table.get?_eq_some.mp ht
  rw [Keyed.Table.eq_of_key_eq hmem ht' (by rw [hkey, hid])] at hterminal
  rw [hterminal] at hlive
  cases hlive

/-- The runs satisfying a predicate change, and none of them becomes active. -/
theorem updateRuns (h : Sound s) {p : RunRow → Bool} {e : RunEdit}
    (hactive : ∀ r ∈ s.runs.rows, p r = true → (e.apply r).Active → r.Active) :
  Sound (s.updateRuns p e)
  := by
  have hold : ∀ r ∈ s.runs.rows, (if p r then e.apply r else r).Active → r.Active := by
    intro r hr ha
    by_cases hp : p r = true
    · rw [if_pos hp] at ha
      apply hactive r hr hp ha
    · rwa [if_neg hp] at ha
  have htask : ∀ r, (if p r then e.apply r else r).taskId = r.taskId := by
    intro r
    by_cases hp : p r = true
    · rw [if_pos hp, e.taskId_apply]
    · rw [if_neg hp]
  constructor
  · exact h.drawn
  · intro r hr ha
    obtain ⟨r₀, hr₀, rfl⟩ := Keyed.Table.mem_update.mp hr
    obtain ⟨t, ht, hid, hlive⟩ := h.live r₀ hr₀ (hold r₀ hr₀ ha)
    use t, ht
    rw [htask]
    apply And.intro hid hlive
  · intro r hr r' hr' ha ha' hid
    obtain ⟨r₀, hr₀, rfl⟩ := Keyed.Table.mem_update.mp hr
    obtain ⟨r₁, hr₁, rfl⟩ := Keyed.Table.mem_update.mp hr'
    rw [htask, htask] at hid
    rw [h.single r₀ hr₀ r₁ hr₁ (hold r₀ hr₀ ha) (hold r₁ hr₁ ha') hid]

/-- A run changes and does not become active. -/
theorem updateRun (h : Sound s) {id : Uuid} {e : RunEdit}
    (hactive : ∀ r ∈ s.runs.rows, r.runId = id → (e.apply r).Active → r.Active) :
  Sound (s.updateRun id e)
  := by
  apply h.updateRuns
  intro r hr hp
  apply hactive r hr (by simpa using hp)

/-- A task changes; it becomes terminal only when it has no active run. -/
theorem updateTask (h : Sound s) {id : Uuid} {e : Keyed.Edit TaskRow.taskId}
    (hlive : (∀ t, (e.apply t).state.terminal = false)
      ∨ ∀ r ∈ s.runs.rows, r.Active → r.taskId ≠ id) :
  Sound (s.updateTask id e)
  where
  drawn := by
    intro t ht
    obtain ⟨t₀, ht₀, rfl⟩ := Keyed.Table.mem_update.mp ht
    have := h.drawn t₀ ht₀
    split
    · rwa [e.key_apply]
    · exact this
  live := by
    intro r hr ha
    obtain ⟨t, ht, hid, hopen⟩ := h.live r hr ha
    refine ⟨_, Keyed.Table.mem_update.mpr ⟨t, ht, rfl⟩, ?_, ?_⟩
    · split
      · rw [e.key_apply, hid]
      · exact hid
    · split
      · rename_i htid
        rcases hlive with hlive | hlive
        · exact hlive t
        · exact absurd (hid ▸ of_decide_eq_true htid) (hlive r hr ha)
      · exact hopen
  single := h.single

/-- A run is added to a task that is not terminal and has no active run. -/
theorem insertRun (h : Sound s) {r : RunRow}
    (hnone : ∀ r' ∈ s.runs.rows, r'.Active → r'.taskId ≠ r.taskId)
    (hlive : ∃ t ∈ s.tasks.rows, t.taskId = r.taskId ∧ t.state.terminal = false) :
  Sound (s.insertRun r)
  where
  drawn := h.drawn
  live := by
    intro r' hr' ha
    rcases Keyed.Table.mem_put.mp hr' with rfl | ⟨hr', -⟩
    · exact hlive
    · exact h.live r' hr' ha
  single := by
    intro r₁ hr₁ r₂ hr₂ ha₁ ha₂ hid
    rcases Keyed.Table.mem_put.mp hr₁ with rfl | ⟨hm₁, -⟩
    · rcases Keyed.Table.mem_put.mp hr₂ with rfl | ⟨hm₂, -⟩
      · rfl
      · exact absurd hid.symm (hnone r₂ hm₂ ha₂)
    · rcases Keyed.Table.mem_put.mp hr₂ with rfl | ⟨hm₂, -⟩
      · exact absurd hid (hnone r₁ hm₁ ha₁)
      · exact h.single r₁ hm₁ r₂ hm₂ ha₁ ha₂ hid

/-- A task that is not terminal is added. -/
theorem insertTask (h : Sound s) {t : TaskRow} (hdrawn : t.taskId.index < s.drawn)
    (hlive : t.state.terminal = false) :
  Sound (s.insertTask t)
  where
  drawn := by
    intro t' ht'
    rcases Keyed.Table.mem_put.mp ht' with rfl | ⟨ht', -⟩
    · exact hdrawn
    · exact h.drawn t' ht'
  live := by
    intro r hr ha
    obtain ⟨t', ht', hid, hopen⟩ := h.live r hr ha
    by_cases heq : t'.taskId = t.taskId
    · use t, Keyed.Table.mem_put.mpr (.inl rfl)
      rw [← heq]
      apply And.intro hid hlive
    · use t', Keyed.Table.mem_put.mpr (.inr ⟨ht', heq⟩)
  single := h.single

/-- Tasks are deleted with their runs. -/
theorem deleteTasks (h : Sound s) (batch : List Uuid) :
  Sound (Engine.deleteTasks s batch)
  where
  drawn := by
    intro t ht
    apply h.drawn t (Keyed.Table.mem_delete.mp ht).1
  live := by
    intro r hr ha
    obtain ⟨hr, hbatch⟩ := Keyed.Table.mem_delete.mp hr
    obtain ⟨t, ht, hid, hopen⟩ := h.live r hr ha
    use t
    constructor
    · apply Keyed.Table.mem_delete.mpr
      use ht
      rwa [hid]
    · apply And.intro hid hopen
  single := by
    intro r hr r' hr'
    apply h.single r (Keyed.Table.mem_delete.mp hr).1 r' (Keyed.Table.mem_delete.mp hr').1

end Sound

/-! ### Rows that stay as they are -/

/-- A completed or cancelled task. No call but a cleanup changes its row. -/
def TaskRow.Frozen (t : TaskRow) : Prop := t.state = .completed ∨ t.state = .cancelled

theorem terminal_of_frozen {t : TaskRow} (h : t.Frozen) :
  t.state.terminal = true
  := by
  rcases h with h | h <;> rw [h] <;> rfl

/-- The later row has the name of the earlier one, and if it is completed it is the earlier
row itself or has a payload `done` allows. -/
def TaskRow.Continues (done : Option Json → Prop) (t t' : TaskRow) : Prop :=
  t'.taskName = t.taskName ∧ (t'.state = .completed → t' = t ∨ done t'.completedPayload)

/-- An edit that leaves the task in a state that is not completed. -/
theorem continues_of_ne {done : Option Json → Prop} {t t' : TaskRow}
    (hname : t'.taskName = t.taskName) (hstate : t'.state ≠ .completed) :
  t.Continues done t'
  := ⟨hname, fun hcompleted => absurd hcompleted hstate⟩

theorem ne_completed_of_live {t : TaskRow} (h : t.state.terminal = false) :
  t.state ≠ .completed
  := by
  intro hstate
  rw [hstate] at h
  cases h

/-- The later state is sound and has kept the rows of completed and cancelled tasks. Its
tasks continue tasks of the earlier one, or their ids were drawn since; `done` has the
payloads tasks may have been completed with. -/
structure Evolves (done : Uuid → Option Json → Prop) (s s' : QueueState) : Prop where
  sound : Sound s'
  keeps : ∀ id t, s.tasks.get? id = some t → t.Frozen → s'.tasks.get? id = some t
  traces : ∀ id t', id.index < s.drawn → s'.tasks.get? id = some t' →
    ∃ t, s.tasks.get? id = some t ∧ t.Continues (done id) t'
  drawn : s.drawn ≤ s'.drawn

/-- An update of one task keeps the row of any other. -/
theorem get?_updateTask_of_ne {s : QueueState} {id id' : Uuid} {e : Keyed.Edit TaskRow.taskId}
    {t : TaskRow} (ht : s.tasks.get? id' = some t) (hne : id' ≠ id) :
  (s.updateTask id e).tasks.get? id' = some t
  := by
  rw [QueueState.updateTask, Keyed.Table.get?_update, ht]
  have hkey := Keyed.Table.key_of_get? ht
  simp [hkey, hne]

namespace Evolves

variable {done : Uuid → Option Json → Prop} {s s₁ s₂ s₃ : QueueState}

theorem refl (h : Sound s) :
  Evolves done s s
  := ⟨h, fun _ _ ht _ => ht, fun _ t _ ht => ⟨t, ht, rfl, fun _ => .inl rfl⟩, le_refl _⟩

theorem trans (h : Evolves done s₁ s₂) (h' : Evolves done s₂ s₃) :
  Evolves done s₁ s₃
  where
  sound := h'.sound
  keeps id t ht hfrozen := h'.keeps id t (h.keeps id t ht hfrozen) hfrozen
  traces := by
    intro id t'' hid ht''
    obtain ⟨t', ht', hname', hcompleted'⟩ := h'.traces id t'' (lt_of_lt_of_le hid h.drawn) ht''
    obtain ⟨t, ht, hname, hcompleted⟩ := h.traces id t' hid ht'
    use t, ht, hname'.trans hname
    intro hstate
    rcases hcompleted' hstate with rfl | hdone
    · apply hcompleted hstate
    · right
      apply hdone
  drawn := le_trans h.drawn h'.drawn

/-- An edit that leaves the tasks and the runs alone. -/
theorem congr (h : Evolves done s s₁) (htasks : s₂.tasks = s₁.tasks) (hruns : s₂.runs = s₁.runs)
    (hdrawn : s₁.drawn ≤ s₂.drawn) :
  Evolves done s s₂
  where
  sound := h.sound.congr htasks hruns hdrawn
  keeps := by
    rw [htasks]
    exact h.keeps
  traces := by
    rw [htasks]
    exact h.traces
  drawn := le_trans h.drawn hdrawn

/-- An edit that leaves the tasks alone. -/
theorem of_tasks_eq (h : Sound s₁) (htasks : s₁.tasks = s.tasks) (hdrawn : s.drawn ≤ s₁.drawn) :
  Evolves done s s₁
  where
  sound := h
  keeps := by
    rw [htasks]
    intro id t ht _
    exact ht
  traces := by
    rw [htasks]
    intro id t _ ht
    exact ⟨t, ht, rfl, fun _ => .inl rfl⟩
  drawn := hdrawn

/-- An edit of a task that is not frozen, next to edits that leave the tasks alone. -/
theorem updateTask {id : Uuid} {e : Keyed.Edit TaskRow.taskId} (h : Sound (s₁.updateTask id e))
    (htasks : s₁.tasks = s.tasks) (hdrawn : s.drawn ≤ s₁.drawn)
    (hid : ∀ t, s.tasks.get? id = some t → ¬ t.Frozen)
    (he : ∀ t : TaskRow, t.Continues (done id) (e.apply t)) :
  Evolves done s (s₁.updateTask id e)
  where
  sound := h
  keeps := by
    intro id' t ht hfrozen
    rw [← htasks] at ht
    apply get?_updateTask_of_ne ht
    rintro rfl
    rw [htasks] at ht
    apply hid t ht hfrozen
  traces := by
    intro id' t' _ ht'
    rw [QueueState.updateTask, Keyed.Table.get?_update, htasks] at ht'
    obtain ⟨t, ht, rfl⟩ := Option.map_eq_some_iff.mp ht'
    use t, ht
    split
    · rename_i heq
      obtain rfl : id' = id := by
        rw [← Keyed.Table.key_of_get? ht]
        simpa using heq
      apply he
    · exact ⟨rfl, fun _ => .inl rfl⟩
  drawn := hdrawn

/-- A run is added to a task that is not terminal and has no active run. -/
theorem insertRun (h : Evolves done s s₁) {r : RunRow}
    (hnone : ∀ r' ∈ s₁.runs.rows, r'.Active → r'.taskId ≠ r.taskId)
    (hlive : ∃ t ∈ s₁.tasks.rows, t.taskId = r.taskId ∧ t.state.terminal = false) :
  Evolves done s (s₁.insertRun r)
  := ⟨h.sound.insertRun hnone hlive, h.keeps, h.traces, h.drawn⟩

end Evolves

/-- The task of an active run is not frozen. -/
theorem not_frozen_of_active {s : QueueState} (h : Sound s) {r : RunRow} (hr : r ∈ s.runs.rows)
    (ha : r.Active) {t : TaskRow} (ht : s.tasks.get? r.taskId = some t) :
  ¬ t.Frozen
  := by
  intro hfrozen
  apply h.ne_of_terminal ht (terminal_of_frozen hfrozen) hr ha rfl

end DjangoAbsurd.Engine
