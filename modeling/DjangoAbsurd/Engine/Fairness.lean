import DjangoAbsurd.Engine.Cancellation
import DjangoAbsurd.Library.Turns

/-!
# No run starves

A claim takes the runs that have been available for the longest. While clocks read later than
the moment a run became available, nothing that happens to a queue makes another run come before
it, so the run is claimed once more runs have been asked for than came before it.
-/

namespace DjangoAbsurd.Engine

/-- The run waits to be claimed. -/
def RunRow.Waiting (r : RunRow) : Prop := r.state = .pending ∨ r.state = .sleeping

instance (r : RunRow) : Decidable r.Waiting := inferInstanceAs (Decidable (_ ∨ _))

/-- The run is claimed before the other. -/
def RunRow.Precedes (pg : Postgres) (r' r : RunRow) : Prop :=
  r'.Waiting ∧ availableBefore pg r' r = true ∧ r'.runId ≠ r.runId

instance (pg : Postgres) (r' r : RunRow) : Decidable (r'.Precedes pg r) :=
  inferInstanceAs (Decidable (_ ∧ _ ∧ _))

/-- The runs that are claimed before the run. -/
def QueueState.ahead (pg : Postgres) (s : QueueState) (r : RunRow) : List RunRow :=
  s.runs.rows.filter (fun r' => r'.Precedes pg r)

/-- How many runs a call asks for. -/
def Label.slots : Label → ℕ
  | .claim _ _ _ qty => (max qty 1).toNat
  | _ => 0

/-- The clock reads later, and no run is put to sleep until an earlier moment. -/
def Label.Later (a : WithTop Time) : Label → Prop
  | .spawn now _ _ _ | .claim now _ _ _ | .fail now _ _ _ | .retry now _ _ _
  | .await now _ _ _ _ _ | .emit now _ _ => a < (now : WithTop Time)
  | .schedule _ wakeAt => a < wakeAt
  | _ => True

/-- The move claims no run. -/
def Move.Free : Move → Prop
  | .change (.claim _ _ _ _) => False
  | _ => True

/-- The runs the move makes available are so later. -/
def Move.Later (a : WithTop Time) : Move → Prop
  | .change (.spawn now _) | .change (.retry now _ _) | .emit now _ _ => a < (now : WithTop Time)
  | .change (.failRetried _ _ _ available) => a < (available : WithTop Time)
  | .sleep _ wakeAt => a < wakeAt
  | .wait _ _ _ _ timeoutAt => a < timeoutAt.elim ⊤ (fun x => (x : WithTop Time))
  | _ => True

section

variable {pg : Postgres} {s s' : QueueState} {l : Label} {ls : List Label} {r r' : RunRow}
  {a : WithTop Time}

/-- The moves of a call whose clock reads later. -/
theorem later_of_takes {m : Move} (hl : l.Later a) (htakes : l.Takes m) (hallowed : m.Allowed s) :
  m.Later a
  := by
  cases m with
  | change c =>
      cases c with
      | spawn now t =>
          rcases htakes with ⟨_, rfl, -⟩ | ⟨_, _, rfl, -⟩
          all_goals exact hl
      | retry now t n =>
          obtain ⟨_, rfl⟩ := htakes
          exact hl
      | failRetried now r reason available =>
          have hnow : a < (now : WithTop Time) := by
            rcases htakes with ⟨_, rfl⟩ | ⟨_, _, _, rfl⟩
            all_goals exact hl
          have hle : now ≤ available := hallowed.2.2.2
          exact hnow.trans_le (WithTop.coe_le_coe.mpr hle)
      | _ => trivial
  | sleep r wakeAt =>
      obtain rfl := htakes
      exact hl
  | wait now r stepName eventName timeoutAt =>
      obtain ⟨timeout, -, rfl⟩ := htakes
      have hnow : a < (now : WithTop Time) := hl
      cases timeoutAt with
      | none => exact hnow.trans (WithTop.coe_lt_top now)
      | some x => exact hnow.trans_le (WithTop.coe_le_coe.mpr (hallowed.2.2.2.2.2 x rfl))
  | emit now eventName payload =>
      obtain ⟨_, -, rfl⟩ := htakes
      exact hl
  | _ => trivial

/-! ### The run that waits -/

/-- The run is over, or gone. -/
def Over (id : Uuid) (k : Lifecycle) : Prop :=
  id.index < k.drawn ∧ ∀ r ∈ k.runs.rows, r.runId = id → ¬ r.Active

theorem over_apply {k : Lifecycle} {c : Change} {id : Uuid} (hc : c.Allowed k) (h : Over id k) :
  Over id (c.apply k)
  := by
  use h.1.trans_le (Change.drawn_le_apply hc)
  intro r hr hid
  rcases Change.mem_runs_apply hr with ⟨r₀, hr₀, rfl⟩ | hadded
  · rw [Change.runId_run] at hid
    have hended := h.2 r₀ hr₀ hid
    rw [RunRow.Active, (Change.run_of_ended hc hr₀ hended).1]
    exact hended
  · have hdrawn := (Change.added_fresh hc hadded).1
    rw [hid] at hdrawn
    exact absurd h.1 (not_lt.mpr hdrawn)

theorem over_step {id : Uuid} (hs : s.life.Consistent ∧ Over id s.life)
    (hstep : step pg s l = some s') :
  s'.life.Consistent ∧ Over id s'.life
  := by
  constructor
  · exact (refines_step hstep).consistent hs.1
  · exact preserved_step hs.1 (fun k c _ _ hc h => over_apply hc h) hs.2 hstep

theorem not_running_of_waiting (h : r.Waiting) :
  r.state ≠ .running
  := by
  rcases h with h | h
  all_goals simp [h]

/-- A plain change leaves a run as it is, claims it or ends it. -/
theorem run_of_plain {k : Lifecycle} {c : Change} (hc : c.Allowed k) (hplain : c.Plain)
    (hr : r ∈ k.runs.rows) :
  c.run r = r ∨ (∃ now worker claimUntil, c = .claim now worker claimUntil r) ∨ ¬ (c.run r).Active
  := by
  have hsame : ∀ {r₀ : RunRow}, r₀ ∈ k.runs.rows → r.runId = r₀.runId → r₀ = r :=
    fun hr₀ hid => (Keyed.Table.eq_of_key_eq hr hr₀ hid).symm
  cases c with
  | draw | spawn | retry | delete => exact .inl rfl
  | park | wakeRun | wakeTask | adjust => exact hplain.elim
  | claim now worker claimUntil r₀ =>
      by_cases hid : r.runId = r₀.runId
      · exact .inr (.inl ⟨now, worker, claimUntil, by rw [hsame hc.1 hid]⟩)
      · exact .inl (if_neg hid)
  | complete _ r₀ _ | failForGood _ r₀ _ | failCancelled _ r₀ _ | failRetried _ r₀ _ _ =>
      by_cases hid : r.runId = r₀.runId
      · right
        right
        rw [Change.run, if_pos hid]
        rintro (hactive : _ = false)
        cases hactive
      · exact .inl (if_neg hid)
  | cancel now id =>
      by_cases hactive : r.taskId = id ∧ r.Active
      · right
        right
        rw [Change.run, if_pos hactive]
        rintro (hactive : _ = false)
        cases hactive
      · exact .inl (if_neg hactive)

/-- A run that waits stays as it is, or is claimed, or is over. -/
theorem waiting_move {m : Move} (hlater : m.Later r.availableAt) (hallowed : m.Allowed s)
    (hs : s.life.Consistent) (hwaits : WaitsSound s) (hr : r ∈ s.runs.rows) (hwaiting : r.Waiting) :
  r ∈ (m.apply s).runs.rows ∨ (∃ now worker claimUntil, m = .change (.claim now worker claimUntil r))
    ∨ Over r.runId (m.apply s).life
  := by
  have hother : ∀ {r₀ : RunRow}, r₀.state = .running → r₀ ∈ s.runs.rows → r.runId ≠ r₀.runId := by
    intro r₀ hstate hr₀ hid
    rw [← Keyed.Table.eq_of_key_eq hr hr₀ hid] at hstate
    exact not_running_of_waiting hwaiting hstate
  cases m with
  | change c =>
      by_cases hspares : c.Spares r.taskId
      · have hrow := run_mem_apply hs hallowed.1 hr hspares
        rcases run_of_plain hallowed.1 hallowed.2.1 hr with
          hsame | ⟨now, worker, claimUntil, rfl⟩ | hended
        · exact .inl (hsame ▸ hrow)
        · exact .inr (.inl ⟨now, worker, claimUntil, rfl⟩)
        · refine .inr (.inr ⟨(hs.runDrawn r hr).trans_le (Change.drawn_le_apply hallowed.1), ?_⟩)
          intro r' hr' hid
          rw [Keyed.Table.eq_of_key_eq hr' hrow (hid.trans (Change.runId_run c r).symm)]
          exact hended
      · right
        right
        cases c with
        | delete batch =>
            use hs.runDrawn r hr
            intro r' hr' hid
            obtain ⟨hr', hkept⟩ := Keyed.Table.mem_delete.mp hr'
            rw [Keyed.Table.eq_of_key_eq hr' hr hid] at hkept
            exact absurd (of_decide_eq_false hkept) hspares
        | _ => exact absurd trivial hspares
  | sleep r₀ wakeAt =>
      exact .inl (mem_updateRun_of_runId_ne hr (hother hallowed.2 hallowed.1) _)
  | extend r₀ claimUntil =>
      left
      refine Keyed.Table.mem_update.mpr ⟨r, hr, ?_⟩
      split
      · apply if_neg
        rintro ⟨hstate, -⟩
        exact not_running_of_waiting hwaiting hstate
      · rfl
  | ask r₀ eventName =>
      left
      apply mem_updateRun_of_runId_ne _ (hother hallowed.2.1 hallowed.1)
      rwa [runs_ensureEvent]
  | giveUp r₀ => exact .inl (mem_updateRun_of_runId_ne hr (hother hallowed.2 hallowed.1) _)
  | wait now r₀ stepName eventName timeoutAt =>
      exact .inl (mem_updateRun_of_runId_ne (s := { s with waits := _ }) hr
        (hother hallowed.2.1 hallowed.1) _)
  | emit now eventName payload =>
      left
      refine (mem_runs_emitted hwaits).mpr ⟨r, hr, if_neg ?_⟩
      rintro ⟨w, hw, -, hover, hid⟩
      -- the clock reads past the end of the wait, so the emission finds it over
      apply hover
      rw [WaitRow.expired_iff, ← (hwaits.sleeper_of_runId hw hr hid.symm).availableAt]
      exact le_of_lt hlater
  | record | receive | forget => exact .inl hr

/-! ### The runs before it -/

/-- A run that waits and is available no later was so before the move. -/
theorem old_of_le {m : Move} (hlater : m.Later a) (hallowed : m.Allowed s) (hwaits : WaitsSound s)
    (hr' : r' ∈ (m.apply s).runs.rows) (hwaiting : r'.Waiting) (hle : r'.availableAt ≤ a) :
  r' ∈ s.runs.rows
  := by
  have hedited : ∀ (s₀ : QueueState) {r₀ : RunRow} {e : RunEdit}, r₀ ∈ s₀.runs.rows →
      r' ∈ (s₀.updateRun r₀.runId e).runs.rows → r' ≠ e.apply r₀ → r' ∈ s₀.runs.rows := by
    intro s₀ r₀ e hr₀ hmem hne
    obtain ⟨r₁, hr₁, rfl⟩ := Keyed.Table.mem_update.mp hmem
    split at hne
    · rename_i hid
      rw [Keyed.Table.eq_of_key_eq hr₁ hr₀ (of_decide_eq_true hid)] at hne
      exact absurd rfl hne
    · rename_i hid
      rwa [if_neg hid]
  cases m with
  | change c =>
      rcases Change.mem_runs_apply hr' with ⟨r₀, hr₀, rfl⟩ | hadded
      · have hsame : c.run r₀ = r₀ := by
          cases c with
          | draw | spawn | retry | delete => rfl
          | park | wakeRun | wakeTask | adjust => exact hallowed.2.1.elim
          | _ =>
              rw [Change.run] at hwaiting ⊢
              split at hwaiting
              · rcases hwaiting with hstate | hstate
                all_goals cases hstate
              · rename_i hid
                exact if_neg hid
        rwa [hsame]
      · cases c with
        | spawn now t | retry now t n | failRetried now r₀ reason available =>
            obtain rfl := List.mem_singleton.mp hadded
            exact absurd hle (not_le.mpr hlater)
        | _ => exact absurd hadded List.not_mem_nil
  | sleep r₀ wakeAt =>
      apply hedited s hallowed.1 hr'
      rintro rfl
      exact absurd hle (not_le.mpr hlater)
  | extend r₀ claimUntil =>
      obtain ⟨r₁, hr₁, rfl⟩ := Keyed.Table.mem_update.mp hr'
      split at hwaiting
      · rename_i hid
        rw [if_pos hid]
        have hstate := (keeps_extendClaim claimUntil).state r₁
        have hsame : (RunRow.extendClaim claimUntil).apply r₁ = r₁ := by
          apply if_neg
          rintro ⟨hrunning, -⟩
          exact not_running_of_waiting hwaiting (hstate.trans hrunning)
        rwa [hsame]
      · rename_i hid
        rwa [if_neg hid]
  | ask r₀ eventName =>
      rw [← runs_ensureEvent s eventName]
      apply hedited _ (by rw [runs_ensureEvent]; exact hallowed.1) hr'
      rintro rfl
      exact not_running_of_waiting hwaiting hallowed.2.1
  | giveUp r₀ =>
      apply hedited s hallowed.1 hr'
      rintro rfl
      exact not_running_of_waiting hwaiting hallowed.2
  | wait now r₀ stepName eventName timeoutAt =>
      apply hedited { s with waits := _ } hallowed.1 hr'
      rintro rfl
      exact absurd hle (not_le.mpr hlater)
  | emit now eventName payload =>
      obtain ⟨r₀, hr₀, rfl⟩ := (mem_runs_emitted hwaits).mp hr'
      split at hle
      · exact absurd hle (not_le.mpr hlater)
      · rename_i hwakes
        rwa [if_neg hwakes]
  | record | receive | forget => exact hr'

theorem over_move {m : Move} {id : Uuid} (hallowed : m.Allowed s) (hs : s.life.Consistent)
    (h : Over id s.life) :
  Over id (m.apply s).life
  := preserved_move hs hallowed (fun _ _ _ hc _ h => over_apply hc h) h

theorem mem_ahead :
  r' ∈ s.ahead pg r ↔ r' ∈ s.runs.rows ∧ r'.Precedes pg r
  := by
  simp [QueueState.ahead]

theorem RunRow.Precedes.le (h : r'.Precedes pg r) :
  r'.availableAt ≤ r.availableAt
  := by
  rcases of_decide_eq_true h.2.1 with hlt | ⟨heq, -⟩
  · exact le_of_lt hlt
  · exact le_of_eq heq

/-- The run still waits, after runs that came before it from the start, or it is over. -/
structure Lines (pg : Postgres) (r : RunRow) (s s' : QueueState) : Prop where
  consistent : s'.life.Consistent
  waits : WaitsSound s'
  turn : (r ∈ s'.runs.rows ∧ ∀ r' ∈ s'.ahead pg r, r' ∈ s.ahead pg r) ∨ Over r.runId s'.life

theorem Lines.refl (hs : s.life.Consistent) (hwaits : WaitsSound s) (hr : r ∈ s.runs.rows) :
  Lines pg r s s
  := ⟨hs, hwaits, .inl ⟨hr, fun _ h => h⟩⟩

theorem Lines.move {m : Move} (h : Lines pg r s s') (hwaiting : r.Waiting)
    (hlater : m.Later r.availableAt) (hfree : m.Free) (hallowed : m.Allowed s') :
  Lines pg r s (m.apply s')
  := by
  refine ⟨consistent_move h.consistent hallowed, waitsSound_move hallowed h.consistent h.waits, ?_⟩
  rcases h.turn with ⟨hr, hahead⟩ | hover
  · rcases waiting_move hlater hallowed h.consistent h.waits hr hwaiting with
      hr' | ⟨now, worker, claimUntil, rfl⟩ | hover
    · left
      use hr'
      intro r' hmem
      obtain ⟨hmem, hprecedes⟩ := mem_ahead.mp hmem
      apply hahead r'
      apply mem_ahead.mpr
      exact ⟨old_of_le hlater hallowed h.waits hmem hprecedes.1 hprecedes.le, hprecedes⟩
    · exact hfree.elim
    · exact .inr hover
  · exact .inr (over_move hallowed h.consistent hover)

/-- The moves of a call but for claiming runs keep the run in line. -/
theorem lines_leads (hwaiting : r.Waiting) (hl : l.Later r.availableAt) (h : Lines pg r s s')
    {s₂ : QueueState} (hleads : moves.Leads (fun m => l.Takes m ∧ m.Free) s' s₂) :
  Lines pg r s s₂
  := by
  apply hleads.invariant (I := fun s₂ => Lines pg r s s₂) _ h
  rintro s₂ m s₃ ⟨htakes, hfree⟩ h₂ hm
  obtain ⟨hallowed, rfl⟩ := step_moves.mp hm
  exact h₂.move hwaiting (later_of_takes hl htakes hallowed) hfree hallowed

/-! ### Claims -/

theorem nodup_ahead (pg : Postgres) (s : QueueState) (r : RunRow) :
  (s.ahead pg r).Nodup
  := (List.Nodup.of_map _ s.runs.nodup).filter _

/-- The order in which runs are claimed. -/
theorem availableBefore_trans (pg : Postgres) (r₁ r₂ r₃ : RunRow)
    (h : availableBefore pg r₁ r₂ = true) (h' : availableBefore pg r₂ r₃ = true) :
  availableBefore pg r₁ r₃ = true
  := by
  simp only [availableBefore, decide_eq_true_eq] at h h' ⊢
  rcases h with h | ⟨h, hid⟩
  · rcases h' with h' | ⟨h', -⟩
    · exact .inl (h.trans h')
    · exact .inl (h' ▸ h)
  · rcases h' with h' | ⟨h', hid'⟩
    · exact .inl (h ▸ h')
    · exact .inr ⟨h.trans h', hid.trans hid'⟩

theorem availableBefore_total (pg : Postgres) (r₁ r₂ : RunRow) :
  (availableBefore pg r₁ r₂ || availableBefore pg r₂ r₁) = true
  := by
  simp only [availableBefore, Bool.or_eq_true, decide_eq_true_eq]
  rcases lt_trichotomy r₁.availableAt r₂.availableAt with h | h | h
  · exact .inl (.inl h)
  · rcases Nat.le_total (pg.uuidNumber r₁.runId) (pg.uuidNumber r₂.runId) with hid | hid
    · exact .inl (.inr ⟨h, hid⟩)
    · exact .inr (.inr ⟨h.symm, hid⟩)
  · exact .inr (.inl h)

/-- A claim that does not take a run that is due takes as many as it asks for of those before
it. -/
theorem claims_before {now : Time} {limit : ℕ} (hs : s.life.Consistent) (hr : r ∈ s.runs.rows)
    (hwaiting : r.Waiting) (hdue : r.availableAt ≤ (now : WithTop Time))
    (hnot : r.runId ∉ (claimCandidates pg s now limit).map RunRow.runId) :
  (claimCandidates pg s now limit).length = limit
    ∧ ∀ r' ∈ claimCandidates pg s now limit, r' ∈ s.ahead pg r
  := by
  obtain ⟨t, ht, hlive, -⟩ := task_of_active hs hr (active_of_waiting hwaiting)
  have hmem : r ∈ s.runs.rows.filter (fun r => (r.state = .pending ∨ r.state = .sleeping)
      ∧ (s.tasks.get? r.taskId).any (fun t => !t.state.terminal)
      ∧ r.availableAt ≤ (now : WithTop Time)) := by
    have htask : s.tasks.get? r.taskId = some t := ht
    apply List.mem_filter.mpr
    refine ⟨hr, decide_eq_true ⟨hwaiting, ?_, hdue⟩⟩
    simp [htask, hlive]
  have hout : r ∉ claimCandidates pg s now limit := fun h => hnot (List.mem_map_of_mem h)
  obtain ⟨hlength, hbefore⟩ :=
    Turns.take_of_not_mem (availableBefore_trans pg) (availableBefore_total pg) hmem hout
  use hlength
  intro r' hr'
  obtain ⟨hrow, hwaiting'⟩ := mem_claimCandidates hr'
  refine mem_ahead.mpr ⟨hrow, hwaiting', hbefore r' hr', ?_⟩
  intro hid
  exact hnot (hid ▸ List.mem_map_of_mem hr')

/-- A run that a claim does not take stays as it is. -/
theorem mem_claims_of_not {now : Time} {worker : String} {claimUntil : Option Time}
    {claimed : List RunRow} (hr : r ∈ s.runs.rows) (hnot : r.runId ∉ claimed.map RunRow.runId) :
  r ∈ (claimed.foldl (markClaimed now worker claimUntil) s).runs.rows
  := by
  induction claimed generalizing s with
  | nil => exact hr
  | cons r₁ claimed ih =>
      rw [List.map_cons, List.mem_cons, not_or] at hnot
      apply ih _ hnot.2
      exact mem_updateRun_of_runId_ne hr hnot.1 _

/-- What a claim does before it takes runs claims none. -/
theorem claimTask_leads {now : Time} {worker : String} {timeout qty : ℤ} {claimed : List Uuid}
    (hclaim : claimTask pg s now worker timeout qty = .ok (s', claimed)) :
  ∃ s₂ worker' claimUntil,
    moves.Leads (fun m => (Label.claim now worker timeout qty).Takes m ∧ m.Free) s s₂
      ∧ claimed = (claimCandidates pg s₂ now (max qty 1).toNat).map RunRow.runId
      ∧ s' = (claimCandidates pg s₂ now (max qty 1).toNat).foldl
        (markClaimed now worker' claimUntil) s₂
  := by
  obtain ⟨due, s₁, s₂, -, hcancelled, hswept, hclaimed, hs'⟩ := claimTask_eq_ok hclaim
  have hcancels : moves.Leads
      (fun m => (Label.claim now worker timeout qty).Takes m ∧ m.Free) s s₁ := by
    apply Machine.Leads.foldlM _ hcancelled
    intro s id _ s' hs
    exact moves_cancelTask ⟨.inr ⟨worker, timeout, qty, rfl⟩, trivial⟩ hs
  have hsweeps : moves.Leads
      (fun m => (Label.claim now worker timeout qty).Takes m ∧ m.Free) s₁ s₂ := by
    apply Machine.Leads.foldlM _ hswept
    intro s r _ s' hs
    apply moves_failRun _ hs
    constructor
    · exact fun _ _ => ⟨.inr ⟨worker, timeout, qty, rfl⟩, trivial⟩
    · exact fun _ _ => ⟨.inr ⟨worker, timeout, qty, rfl⟩, trivial⟩
    · exact fun _ _ _ => ⟨.inr ⟨worker, timeout, qty, rfl⟩, trivial⟩
  exact ⟨s₂, _, _, hcancels.trans hsweeps, hclaimed, hs'⟩

/-- What remains before a run after a claim that does not take it. -/
theorem ahead_claims {now : Time} {worker : String} {claimUntil : Option Time}
    {claimed : List RunRow}
    (hr' : r' ∈ (claimed.foldl (markClaimed now worker claimUntil) s).ahead pg r) :
  r' ∈ s.ahead pg r ∧ r' ∉ claimed
  := by
  obtain ⟨hmem, hprecedes⟩ := mem_ahead.mp hr'
  rcases mem_claims hmem with ⟨hmem, hnot⟩ | ⟨r₀, -, -, rfl⟩
  · exact ⟨mem_ahead.mpr ⟨hmem, hprecedes⟩, fun h => hnot (List.mem_map_of_mem h)⟩
  · exact absurd rfl (not_running_of_waiting hprecedes.1)

/-- Taking runs leaves a run that is over. -/
theorem over_claims {now : Time} {limit : ℕ} {worker : String} {claimUntil : Option Time} {id : Uuid}
    (hs : s.life.Consistent) (h : Over id s.life) :
  Over id ((claimCandidates pg s now limit).foldl (markClaimed now worker claimUntil) s).life
  := by
  have hclaims : moves.Leads (fun _ => True) s
      ((claimCandidates pg s now limit).foldl (markClaimed now worker claimUntil) s) :=
    moves_claimRuns (fun _ => trivial) (fun r hr => ⟨(mem_claimCandidates hr).1,
      (mem_claimCandidates hr).2, due_of_mem_claimCandidates hr⟩)
      (nodup_claimCandidates pg s now limit)
  apply And.right
  apply hclaims.invariant (I := fun s => s.life.Consistent ∧ Over id s.life) _ ⟨hs, h⟩
  rintro s m s' - ⟨hs, hover⟩ hm
  obtain ⟨hallowed, rfl⟩ := step_moves.mp hm
  exact ⟨consistent_move hs hallowed, over_move hallowed hs hover⟩

/-- A claim takes the run, or as many of those before it as it asks for. -/
theorem claim_turn {now : Time} {worker : String} {timeout qty : ℤ} {claimed : List Uuid}
    (hs : s.life.Consistent) (hwaits : WaitsSound s) (hr : r ∈ s.runs.rows) (hwaiting : r.Waiting)
    (hlater : r.availableAt < (now : WithTop Time))
    (hclaim : claimTask pg s now worker timeout qty = .ok (s', claimed)) :
  (r ∈ s'.runs.rows ∧ (s'.ahead pg r).length + (max qty 1).toNat ≤ (s.ahead pg r).length)
    ∨ r.runId ∈ claimed ∨ Over r.runId s'.life
  := by
  obtain ⟨s₂, worker', claimUntil, hleads, rfl, hs'⟩ := claimTask_leads hclaim
  have hl : (Label.claim now worker timeout qty).Later r.availableAt := hlater
  have hlines : Lines pg r s s₂ := lines_leads hwaiting hl (.refl hs hwaits hr) hleads
  rcases hlines.turn with ⟨hr₂, hahead⟩ | hover
  · by_cases htaken : r.runId ∈ (claimCandidates pg s₂ now (max qty 1).toNat).map RunRow.runId
    · exact .inr (.inl htaken)
    · left
      use hs' ▸ mem_claims_of_not hr₂ htaken
      have hkept : ∀ r' ∈ s'.ahead pg r,
          r' ∈ s₂.ahead pg r ∧ r' ∉ claimCandidates pg s₂ now (max qty 1).toNat := by
        rw [hs']
        exact fun r' hr' => ahead_claims hr'
      obtain ⟨hlength, hbefore⟩ :=
        claims_before hlines.consistent hr₂ hwaiting (le_of_lt hlater) htaken
      have hnodup : (claimCandidates pg s₂ now (max qty 1).toNat).Nodup :=
        List.Nodup.of_map _ (nodup_claimCandidates pg s₂ now (max qty 1).toNat)
      have hjoined := (nodup_ahead pg s' r).append hnodup
        (fun r' hr' hclaimed => (hkept r' hr').2 hclaimed)
      have hsubset :
          s'.ahead pg r ++ claimCandidates pg s₂ now (max qty 1).toNat ⊆ s.ahead pg r := by
        intro r' hr'
        apply hahead r'
        rcases List.mem_append.mp hr' with hr' | hr'
        · exact (hkept r' hr').1
        · exact hbefore r' hr'
      have hle := (List.subperm_of_subset hjoined hsubset).length_le
      rwa [List.length_append, hlength] at hle
  · exact .inr (.inr (hs' ▸ over_claims hlines.consistent hover))

/-! ### Runs of calls -/

/-- The call is a claim that hands the run out. -/
def Label.Hands (pg : Postgres) (id : Uuid) (s : QueueState) : Label → Prop
  | .claim now worker timeout qty => ∃ s' claimed,
      claimTask pg s now worker timeout qty = .ok (s', claimed) ∧ id ∈ claimed
  | _ => False

/-- A call that asks for no run claims none. -/
theorem free_of_takes {m : Move} (hslots : l.slots = 0) (htakes : l.Takes m) :
  m.Free
  := by
  cases m with
  | change c =>
      cases c with
      | claim now worker claimUntil r =>
          obtain ⟨_, _, qty, rfl⟩ := htakes
          rw [Label.slots] at hslots
          omega
      | _ => trivial
  | _ => trivial

theorem waitsSound_step (hs : s.life.Consistent) (hwaits : WaitsSound s)
    (hstep : step pg s l = some s') :
  WaitsSound s' ∧ s'.life.Consistent
  := preserved_of_moves (fun _ _ _ hallowed hs h => waitsSound_move hallowed hs h) hs hwaits hstep

/-- A call that asks for no run leaves a run in line, or ends it. -/
theorem line_step (hs : s.life.Consistent) (hwaits : WaitsSound s) (hr : r ∈ s.runs.rows)
    (hwaiting : r.Waiting) (hl : l.Later r.availableAt) (hslots : l.slots = 0)
    (hstep : step pg s l = some s') :
  (r ∈ s'.runs.rows ∧ (s'.ahead pg r).length ≤ (s.ahead pg r).length) ∨ Over r.runId s'.life
  := by
  have hleads : moves.Leads (fun m => l.Takes m ∧ m.Free) s s' :=
    (moves_step hstep).mono (fun m htakes => ⟨htakes, free_of_takes hslots htakes⟩)
  rcases (lines_leads hwaiting hl (.refl hs hwaits hr) hleads).turn with ⟨hr', hahead⟩ | hover
  · exact .inl ⟨hr', (List.subperm_of_subset (nodup_ahead pg s' r) hahead).length_le⟩
  · exact .inr hover

/-- No run starves: while clocks read later than the moment a run became available, it is handed
out once claims have asked for more runs than came before it, unless it is over by then. -/
theorem claimed_in_turn (h : Reachable pg s) (hr : r ∈ s.runs.rows) (hwaiting : r.Waiting)
    (hlater : ∀ l ∈ ls, l.Later r.availableAt) (hrun : (machine pg).run s ls = some s')
    (hslots : (s.ahead pg r).length < (ls.map Label.slots).sum) :
  (∃ ls₁ l ls₂ s₁, ls = ls₁ ++ l :: ls₂ ∧ (machine pg).run s ls₁ = some s₁
      ∧ l.Hands pg r.runId s₁)
    ∨ ∀ r' ∈ s'.runs.rows, r'.runId = r.runId → ¬ r'.Active
  := by
  let I (s : QueueState) : Prop := s.life.Consistent ∧ WaitsSound s ∧ r ∈ s.runs.rows
  have hI : I s := ⟨consistent_of_reachable h, waitsSound_of_reachable h, hr⟩
  let O (s : QueueState) : Prop := s.life.Consistent ∧ Over r.runId s.life
  have hstep : ∀ s l s', l.Later r.availableAt → I s → (machine pg).step s l = some s' →
      (I s' ∧ (s'.ahead pg r).length + l.slots ≤ (s.ahead pg r).length)
        ∨ l.Hands pg r.runId s ∨ O s' := by
    rintro s l s' hl ⟨hs, hwaits, hr⟩ hstep
    obtain ⟨hwaits', hs'⟩ := waitsSound_step hs hwaits hstep
    by_cases hclaim : l.slots = 0
    · rcases line_step hs hwaits hr hwaiting hl hclaim hstep with ⟨hr', hle⟩ | hover
      · exact .inl ⟨⟨hs', hwaits', hr'⟩, by rwa [hclaim]⟩
      · exact .inr (.inr ⟨hs', hover⟩)
    · cases l with
      | claim now worker timeout qty =>
          obtain ⟨⟨_, claimed⟩, hclaimed, rfl⟩ := Except.map_eq_ok (Except.toOption_eq_some.mp hstep)
          rcases claim_turn hs hwaits hr hwaiting hl hclaimed with ⟨hr', hle⟩ | htaken | hover
          · exact .inl ⟨⟨hs', hwaits', hr'⟩, hle⟩
          · exact .inr (.inl ⟨_, claimed, hclaimed, htaken⟩)
          · exact .inr (.inr ⟨hs', hover⟩)
      | _ => exact absurd rfl hclaim
  have hturns := Machine.served_or_over (fun s => (s.ahead pg r).length) Label.slots hstep
    (fun s l s' hover hs => over_step hover hs) hI hlater hrun hslots
  exact hturns.imp_right (fun hover => hover.2.2)

/-- Two orders, one after the other. -/
def twoOrders : QueueState :=
  insertSpawned orderSpawned 1 (spawnedTask orderSpawned 1 "ship_order" (.obj []) noOptions)

/-- The runs of the two orders. -/
def twoRuns : List RunRow := [newRun ⟨1⟩ ⟨0⟩ 1 .pending 0 0, newRun ⟨3⟩ ⟨2⟩ 1 .pending 1 1]

theorem twoOrders_claimed :
  ∃ ls₁ l ls₂ s₁, [Label.claim 2 "worker" 60 2] = ls₁ ++ l :: ls₂
    ∧ (machine plainPostgres).run twoOrders ls₁ = some s₁ ∧ l.Hands plainPostgres ⟨3⟩ s₁
  := by
  have hspawn : (machine plainPostgres).run (.create .unpartitioned)
      [.spawn 0 "ship_order" (.obj []) (.obj []), .spawn 1 "ship_order" (.obj []) (.obj [])]
        = some twoOrders := rfl
  have hclaim : claimTask plainPostgres twoOrders 2 "worker" 60 2
      = .ok (twoRuns.foldl (markClaimed 2 "worker" (some (2 + seconds 60))) twoOrders, [⟨1⟩, ⟨3⟩]) :=
    claimTask_all rfl rfl rfl (by decide) (by decide)
  have hrun : (machine plainPostgres).run twoOrders [.claim 2 "worker" 60 2]
      = some (twoRuns.foldl (markClaimed 2 "worker" (some (2 + seconds 60))) twoOrders) := by
    apply Machine.run_cons.mpr
    refine ⟨_, ?_, rfl⟩
    exact step_claim hclaim
  have hlater : ∀ l ∈ [Label.claim 2 "worker" 60 2], l.Later ((1 : Time) : WithTop Time) := by
    intro l hl
    rw [List.mem_singleton.mp hl]
    exact WithTop.coe_lt_coe.mpr (by decide)
  apply (claimed_in_turn (r := newRun ⟨3⟩ ⟨2⟩ 1 .pending 1 1) (reachable_iff.mpr ⟨_, _, hspawn⟩)
    (List.mem_cons_of_mem _ List.mem_cons_self) (.inl rfl) hlater hrun (by decide)).resolve_right
  intro hover
  exact hover _ (List.mem_cons_of_mem _ List.mem_cons_self) rfl rfl

end

end DjangoAbsurd.Engine
