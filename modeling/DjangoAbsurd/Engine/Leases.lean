import DjangoAbsurd.Engine.Finality

/-!
# Runs that are held

A run that was claimed is neither pending nor sleeping, and so is not claimed again, until
somebody suspends it: it is `Awake`. It is running, until somebody ends or suspends it, its
task is cancelled, or a claim finds that its own claim has expired: it is `Leased` up to the
moment its claim expires.
-/

namespace DjangoAbsurd.Engine

/-! ### Runs that are awake -/

/-- The run is neither pending nor sleeping. -/
def Awake (k : Lifecycle) (runId : Uuid) : Prop :=
  runId.index < k.drawn ∧ ∀ r ∈ k.runs.rows, r.runId = runId →
    ¬ (r.state = .pending ∨ r.state = .sleeping)

/-- The change parks the run. -/
def Change.ParksRun (runId : Uuid) : Change → Prop
  | .park r _ => r.runId = runId
  | _ => False

/-- The call suspends the run. -/
def Label.Pauses (runId : Uuid) : Label → Prop
  | .schedule runId' _ | .await _ _ runId' _ _ _ => runId' = runId
  | _ => False

section

variable {pg : Postgres} {k : Lifecycle} {s s' : QueueState} {c : Change} {runId taskId : Uuid}
  {now moment : Time} {worker : String} {claimUntil : Option Time}

/-- A change that does not park the run leaves it awake. -/
theorem awake_apply (hc : c.Allowed k) (hpark : ¬ c.ParksRun runId) (h : Awake k runId) :
  Awake (c.apply k) runId
  := by
  use h.1.trans_le (Change.drawn_le_apply hc)
  intro r' hr' hid
  rcases Change.mem_runs_apply hr' with ⟨r, hr, rfl⟩ | hadded
  · rw [Change.runId_run] at hid
    have hawake := h.2 r hr hid
    cases c with
    | draw | spawn | wakeTask | retry | delete => exact hawake
    | park r₀ e =>
        rw [Change.run, if_neg]
        · exact hawake
        · exact fun hrun => hpark (hrun.symm.trans hid)
    | wakeRun _ _ r₀ =>
        rw [Change.run, if_neg]
        · exact hawake
        · intro hrun
          rw [Keyed.Table.eq_of_key_eq hr hc.1 hrun] at hawake
          exact hawake hc.2
    | adjust r₀ e =>
        rw [Change.run]
        split
        · rwa [hc.2.state]
        · exact hawake
    | _ =>
        rw [Change.run]
        split
        · rintro (h | h) <;> cases h
        · exact hawake
  · have hdrawn := (Change.added_fresh hc hadded).1
    rw [hid] at hdrawn
    exact absurd h.1 (not_lt.mpr hdrawn)

theorem awake_lives (h : Lives (fun c => ¬ c.ParksRun runId) s s') (hawake : Awake s.life runId) :
  Awake s'.life runId
  := by
  apply h.invariant (I := fun k => Awake k runId) _ hawake
  exact fun k c hpark hc hawake => awake_apply hc hpark hawake

theorem drawn_le_lives {P : Change → Prop} (h : Lives P s s') :
  s.life.drawn ≤ s'.life.drawn
  := by
  apply h.invariant (I := fun k => s.life.drawn ≤ k.drawn) _ le_rfl
  exact fun k c _ hc hle => hle.trans (Change.drawn_le_apply hc)

/-- A call that does not suspend the run leaves it awake. -/
theorem awake_step {l : Label} (hs : step pg s l = some s') (hl : ¬ l.Pauses runId)
    (hawake : Awake s.life runId) :
  Awake s'.life runId
  := by
  obtain ⟨cs, hrun, hmakes⟩ := refines_step hs
  apply awake_lives ⟨cs, hrun, ?_⟩ hawake
  intro c hc hparks
  apply hl
  cases c with
  | park r e =>
      rcases hmakes _ hc with ⟨_, rfl⟩ | ⟨_, _, _, _, rfl⟩
      all_goals exact hparks
  | _ => exact hparks.elim

/-! ### The runs of a claim -/

/-- The runs after some were claimed: the others, and the claimed ones. -/
theorem mem_claims {claimed : List RunRow} {r : RunRow}
    (hr : r ∈ (claimed.foldl (markClaimed now worker claimUntil) s).runs.rows) :
  (r ∈ s.runs.rows ∧ r.runId ∉ claimed.map RunRow.runId)
    ∨ ∃ r₀ ∈ s.runs.rows, r₀.runId ∈ claimed.map RunRow.runId
      ∧ (RunRow.claim now worker claimUntil).apply r₀ = r
  := by
  induction claimed generalizing s with
  | nil => exact .inl ⟨hr, List.not_mem_nil⟩
  | cons r₁ claimed ih =>
      rw [List.map_cons, List.mem_cons]
      rcases ih hr with ⟨hr₂, hnot⟩ | ⟨r₂, hr₂, hmem, rfl⟩
      · obtain ⟨r₀, hr₀, rfl⟩ := Keyed.Table.mem_update.mp hr₂
        split at hnot
        · rename_i hrun
          right
          refine ⟨r₀, hr₀, List.mem_cons.mpr (.inl (of_decide_eq_true hrun)), ?_⟩
          rw [if_pos hrun]
        · rename_i hrun
          left
          rw [if_neg hrun, not_or]
          exact ⟨hr₀, fun heq => hrun (decide_eq_true heq), hnot⟩
      · obtain ⟨r₀, hr₀, rfl⟩ := Keyed.Table.mem_update.mp hr₂
        right
        refine ⟨r₀, hr₀, List.mem_cons.mpr (.inr ?_), ?_⟩
        · split at hmem <;> exact hmem
        · split <;> rfl

/-- A claim takes no run that is awake. -/
theorem not_awake_of_claimed {timeout qty : ℤ} {claimed : List Uuid}
    (hs : claimTask pg s now worker timeout qty = .ok (s', claimed)) (hid : runId ∈ claimed) :
  ¬ Awake s.life runId
  := by
  intro hawake
  obtain ⟨due, s₁, s₂, -, hcancelled, hsweep, rfl, -⟩ := claimTask_eq_ok hs
  have hcancels : Lives (fun c => ¬ c.ParksRun runId) s s₁ :=
    .foldlM (fun s id _ s' hs => refines_cancelTask (fun h => h) hs) hcancelled
  have hsweeps : Lives (fun c => ¬ c.ParksRun runId) s₁ s₂ :=
    .foldlM (fun s r _ s' hs => refines_failRun
      ⟨fun _ _ h => h, fun _ _ h => h, fun _ _ _ h => h⟩ hs) hsweep
  obtain ⟨r, hr, rfl⟩ := List.mem_map.mp hid
  obtain ⟨hrow, hwaits⟩ := mem_claimCandidates hr
  exact (awake_lives (hcancels.trans hsweeps) hawake).2 r hrow rfl hwaits

theorem nodup_claimed {timeout qty : ℤ} {claimed : List Uuid}
    (hs : claimTask pg s now worker timeout qty = .ok (s', claimed)) :
  claimed.Nodup
  := by
  obtain ⟨due, s₁, s₂, -, -, -, rfl, -⟩ := claimTask_eq_ok hs
  apply nodup_claimCandidates

/-- The runs a claim takes are running afterwards, and claimed until its timeout is over. -/
theorem running_of_claimed {timeout qty : ℤ} {claimed : List Uuid} {r : RunRow}
    (hs : claimTask pg s now worker timeout qty = .ok (s', claimed)) (hr : r ∈ s'.runs.rows)
    (hid : r.runId ∈ claimed) :
  r.state = .running ∧ ∀ x, r.claimExpiresAt = some x → x = now + seconds timeout
  := by
  obtain ⟨due, s₁, s₂, -, -, -, rfl, rfl⟩ := claimTask_eq_ok hs
  rcases mem_claims hr with ⟨-, hnot⟩ | ⟨r₀, -, -, rfl⟩
  · exact absurd hid hnot
  · use rfl
    intro x hx
    change (if 0 < timeout then some (now + seconds timeout) else none) = some x at hx
    split at hx
    · exact (Option.some.inj hx).symm
    · cases hx

/-! ### Runs that are leased -/

/-- The change ends, suspends or adjusts the run. -/
def Change.Handles (runId : Uuid) : Change → Prop
  | .park r _ | .adjust r _ | .complete _ r _ | .failForGood _ r _ | .failCancelled _ r _
  | .failRetried _ r _ _ => r.runId = runId
  | _ => False

theorem Change.ParksRun.handles (h : c.ParksRun runId) :
  c.Handles runId
  := by
  cases c with
  | park r e => exact h
  | _ => exact h.elim

/-- As long as the task of the run is there, and is not cancelled, the run is running, and its
claim does not expire before the moment. -/
structure Leased (k : Lifecycle) (runId taskId : Uuid) (moment : Time) : Prop where
  runDrawn : runId.index < k.drawn
  taskDrawn : taskId.index < k.drawn
  own : ∀ r ∈ k.runs.rows, r.runId = runId → r.taskId = taskId
  running : ∀ t ∈ k.tasks.rows, t.taskId = taskId → t.state = .cancelled
    ∨ ∃ r ∈ k.runs.rows, r.runId = runId ∧ r.state = .running
      ∧ ∀ x, r.claimExpiresAt = some x → moment ≤ x

/-- A cancelled task stays cancelled. -/
theorem cancelled_task {t : TaskRow} (h : k.Consistent) (hc : c.Allowed k) (ht : t ∈ k.tasks.rows)
    (hcancelled : t.state = .cancelled) :
  (c.task k t).state = .cancelled
  := by
  have hterminal : t.state.terminal = true := by rw [hcancelled]; rfl
  cases c with
  | retry now t₀ maxAttempts =>
      rw [Change.task, if_neg]
      · exact hcancelled
      · intro hid
        rw [Keyed.Table.eq_of_key_eq ht hc.1 hid, hc.2] at hcancelled
        cases hcancelled
  | _ =>
      rwa [Change.task_of_terminal h hc (show Change.By (fun _ => True) _ from trivial) ht hterminal]

/-- What a change makes of a running run that it does not handle. -/
theorem run_of_running {r : RunRow} (hc : c.Allowed k) (hr : r ∈ k.runs.rows)
    (hrunning : r.state = .running) (hnot : ¬ c.Handles r.runId) :
  c.run r = r ∨ ∃ now id, c = .cancel now id ∧ r.taskId = id
  := by
  have hwaits : ∀ {r₀ : RunRow}, r₀ ∈ k.runs.rows → (r₀.state = .pending ∨ r₀.state = .sleeping) →
      r.runId ≠ r₀.runId := by
    intro r₀ hr₀ hstate hid
    rw [← Keyed.Table.eq_of_key_eq hr hr₀ hid, hrunning] at hstate
    rcases hstate with hstate | hstate <;> cases hstate
  cases c with
  | draw | spawn | wakeTask | retry | delete => exact .inl rfl
  | claim _ _ _ r₀ | wakeRun _ _ r₀ => exact .inl (if_neg (hwaits hc.1 hc.2))
  | park r₀ _ | adjust r₀ _ | complete _ r₀ _ | failForGood _ r₀ _ | failCancelled _ r₀ _
  | failRetried _ r₀ _ _ => exact .inl (if_neg (fun hid => hnot hid.symm))
  | cancel now id =>
      rw [Change.run]
      split
      · rename_i hcancelled
        exact .inr ⟨now, id, rfl, hcancelled.1⟩
      · exact .inl rfl

/-- Leases outlast the changes that leave the run to its holder. -/
theorem leased_of_run (h : k.Consistent) (hc : c.Allowed k) (hleased : Leased k runId taskId moment)
    (hrun : ∀ r ∈ k.runs.rows, r.runId = runId → r.state = .running →
      (∀ x, r.claimExpiresAt = some x → moment ≤ x) →
      ((c.run r).state = .running ∧ ∀ x, (c.run r).claimExpiresAt = some x → moment ≤ x)
        ∨ ∃ now id, c = .cancel now id ∧ r.taskId = id) :
  Leased (c.apply k) runId taskId moment
  where
  runDrawn := hleased.runDrawn.trans_le (Change.drawn_le_apply hc)
  taskDrawn := hleased.taskDrawn.trans_le (Change.drawn_le_apply hc)
  own r' hr' hid := by
    rcases Change.mem_runs_apply hr' with ⟨r, hr, rfl⟩ | hadded
    · rw [Change.runId_run] at hid
      rw [Change.taskId_run]
      exact hleased.own r hr hid
    · have hdrawn := (Change.added_fresh hc hadded).1
      rw [hid] at hdrawn
      exact absurd hleased.runDrawn (not_lt.mpr hdrawn)
  running t' ht' hid := by
    rcases Change.mem_tasks_apply ht' with ⟨t, ht, rfl⟩ | ⟨now, rfl⟩
    · have hid' : t.taskId = taskId :=
        (TaskRow.eq_of_origin (Change.origin_task k c t)).1.symm.trans hid
      rcases hleased.running t ht hid' with hcancelled | ⟨r, hr, hrunId, hrunning, hexpires⟩
      · exact .inl (cancelled_task h hc ht hcancelled)
      · have hown := hleased.own r hr hrunId
        rcases hrun r hr hrunId hrunning hexpires with ⟨hrunning', hexpires'⟩ | ⟨now, id, rfl, heq⟩
        · right
          have hspares : c.Spares r.taskId := by
            rw [hown, ← hid]
            exact spares_of_mem ht'
          exact ⟨_, run_mem_apply h hc hr hspares, (Change.runId_run c r).trans hrunId, hrunning',
            hexpires'⟩
        · left
          rw [Change.task, if_pos (hid'.trans (hown.symm.trans heq))]
          rfl
    · have hdrawn := hleased.taskDrawn
      rw [← hid, hc.1.taskId] at hdrawn
      exact absurd hdrawn (lt_irrefl _)

theorem leased_apply (h : k.Consistent) (hc : c.Allowed k) (hnot : ¬ c.Handles runId)
    (hleased : Leased k runId taskId moment) :
  Leased (c.apply k) runId taskId moment
  := by
  apply leased_of_run h hc hleased
  rintro r hr rfl hrunning hexpires
  rcases run_of_running hc hr hrunning hnot with hsame | hcancel
  · left
    rw [hsame]
    exact ⟨hrunning, hexpires⟩
  · exact .inr hcancel

/-- The edit leaves the claim of a run as it is, or extends it up to the moment or beyond. -/
def RunEdit.Outlasts (moment : Time) (e : RunEdit) : Prop :=
  ∀ r, (e.apply r).claimExpiresAt = r.claimExpiresAt
    ∨ ∃ x, (e.apply r).claimExpiresAt = some x ∧ moment ≤ x

theorem outlasts_extendClaim {until_ : Time} (h : moment ≤ until_) :
  (RunRow.extendClaim until_).Outlasts moment
  := by
  intro r
  simp only [RunRow.extendClaim]
  split
  · exact .inr ⟨until_, rfl, h⟩
  · exact .inl rfl

/-- Leases outlast the edits that leave or extend the claim. -/
theorem leased_adjust {r : RunRow} {e : RunEdit} (h : k.Consistent)
    (hc : (Change.adjust r e).Allowed k) (he : e.Outlasts moment)
    (hleased : Leased k runId taskId moment) :
  Leased ((Change.adjust r e).apply k) runId taskId moment
  := by
  apply leased_of_run h hc hleased
  rintro r₁ - - hrunning hexpires
  left
  rw [Change.run]
  split
  · rw [hc.2.state]
    use hrunning
    intro x hx
    rcases he r₁ with hsame | ⟨y, hy, hlate⟩
    · exact hexpires x (hsame.symm.trans hx)
    · rwa [← Option.some.inj (hy.symm.trans hx)]
  · exact ⟨hrunning, hexpires⟩

theorem leased_lives {P : Change → Prop} (h : s.life.Consistent) (hlives : Lives P s s')
    (hP : ∀ k c, P c → k.Consistent → c.Allowed k → Leased k runId taskId moment →
      Leased (c.apply k) runId taskId moment)
    (hleased : Leased s.life runId taskId moment) :
  Leased s'.life runId taskId moment
  := by
  apply (hlives.invariant (I := fun k => k.Consistent ∧ Leased k runId taskId moment) _
    ⟨h, hleased⟩).2
  rintro k c hc hallowed ⟨hk, hleased⟩
  exact ⟨hk.step (step_lifecycle.mpr ⟨hallowed, rfl⟩), hP k c hc hk hallowed hleased⟩

/-- The claim of a run that is leased has not expired. -/
theorem runId_ne_of_expired {r : RunRow} (h : k.Consistent) (hleased : Leased k runId taskId moment)
    (hnow : now < moment) (hr : r ∈ k.runs.rows) (hexpired : r.Expired now) :
  r.runId ≠ runId
  := by
  intro hid
  obtain ⟨hrunning, hexpires⟩ := hexpired
  obtain ⟨x, hx, hle⟩ := (Option.any_eq_true ..).mp hexpires
  obtain ⟨t, ht, hlive, -⟩ := task_of_active h hr (active_of_running hrunning)
  have hown : t.taskId = taskId := (Keyed.Table.key_of_get? ht).trans (hleased.own r hr hid)
  rcases hleased.running t (Keyed.Table.mem_of_get? ht) hown with hcancelled | ⟨r', hr', hid', -, hlate⟩
  · rw [hcancelled] at hlive
    cases hlive
  · rw [← Keyed.Table.eq_of_key_eq hr hr' (hid.trans hid'.symm)] at hlate
    exact absurd (hlate x hx) (not_le.mpr ((of_decide_eq_true hle).trans_lt hnow))

/-- The call may end, suspend or adjust the run. -/
def Label.Touches (runId : Uuid) : Label → Prop
  | .complete _ runId' _ | .schedule runId' _ | .fail _ runId' _ _
  | .checkpoint _ _ _ _ runId' _ | .extend _ runId' _ | .await _ _ runId' _ _ _ => runId' = runId
  | .claim _ _ _ _ => True
  | _ => False

theorem touches_of_makes {l : Label} (hmake : l.Makes c) (hc : c.Handles runId) :
  l.Touches runId
  := by
  cases c with
  | park r e =>
      rcases hmake with ⟨_, rfl⟩ | ⟨_, _, _, _, rfl⟩
      all_goals exact hc
  | adjust r e =>
      rcases hmake with ⟨_, _, _, _, _, rfl⟩ | ⟨_, _, rfl⟩ | ⟨_, _, _, _, rfl⟩
      all_goals exact hc
  | complete _ r _ =>
      obtain rfl := hmake
      exact hc
  | failForGood _ r _ | failCancelled _ r _ | failRetried _ r _ _ =>
      rcases hmake with ⟨_, rfl⟩ | ⟨_, _, _, rfl⟩
      · exact hc
      · exact trivial
  | _ => exact hc.elim

/-- A claim before the moment. -/
theorem leased_claimTask {timeout qty : ℤ} {claimed : List Uuid} (h : s.life.Consistent)
    (hs : claimTask pg s now worker timeout qty = .ok (s', claimed)) (hnow : now < moment)
    (hleased : Leased s.life runId taskId moment) :
  Leased s'.life runId taskId moment
  := by
  obtain ⟨due, s₁, s₂, -, hcancelled, hsweep, -, rfl⟩ := claimTask_eq_ok hs
  have hkeeps : ∀ k (c : Change), ¬ c.Handles runId → k.Consistent → c.Allowed k →
      Leased k runId taskId moment → Leased (c.apply k) runId taskId moment :=
    fun k c hnot hk hc => leased_apply hk hc hnot
  have hcancels : Lives (fun c => ¬ c.Handles runId) s s₁ :=
    .foldlM (fun s id _ s' hs => refines_cancelTask (fun h => h) hs) hcancelled
  have h₁ := hcancels.consistent h
  have hleased₁ := leased_lives h hcancels hkeeps hleased
  have hsweeps : Lives (fun c => ¬ c.Handles runId) s₁ s₂ := by
    apply Lives.foldlM _ hsweep
    intro s r hr s' hfail
    obtain ⟨hrow, hexpired⟩ := mem_expiredRuns hr
    have hne : r.runId ≠ runId := runId_ne_of_expired h₁ hleased₁ hnow hrow hexpired
    apply refines_failRun _ hfail
    constructor
    · exact fun r' hid hhandles => hne (hid.symm.trans hhandles)
    · exact fun r' hid hhandles => hne (hid.symm.trans hhandles)
    · exact fun r' _ hid hhandles => hne (hid.symm.trans hhandles)
  apply leased_lives (hsweeps.consistent h₁) _ hkeeps (leased_lives h₁ hsweeps hkeeps hleased₁)
  apply refines_claimRuns _ (fun r hr => mem_claimCandidates hr) (nodup_claimCandidates _ _ _ _)
  exact fun _ h => h

/-! ### Claims beside leases -/

/-- A claim takes no more runs than it asks for, but one at least. -/
theorem length_claimed {timeout qty : ℤ} {claimed : List Uuid}
    (hs : claimTask pg s now worker timeout qty = .ok (s', claimed)) :
  (claimed.length : ℤ) ≤ max qty 1
  := by
  obtain ⟨due, s₁, s₂, -, -, -, rfl, -⟩ := claimTask_eq_ok hs
  rw [List.length_map, claimCandidates, ← Int.toNat_of_nonneg (zero_le_one.trans (le_max_right qty 1))]
  exact Int.ofNat_le.mpr (List.length_take_le _ _)

/-- A run that was there is there after claims. -/
theorem get?_runs_claims {claimed : List RunRow} {id : Uuid} (h : (s.runs.get? id).isSome) :
  ((claimed.foldl (markClaimed now worker claimUntil) s).runs.get? id).isSome
  := by
  induction claimed generalizing s with
  | nil => exact h
  | cons r claimed ih =>
      apply ih
      change ((s.runs.update (fun r' => r'.runId = r.runId) _).get? id).isSome
      rw [Keyed.Table.get?_update, Option.isSome_map]
      exact h

/-- The runs a claim takes are runs of the queue. -/
theorem found_claimed {timeout qty : ℤ} {claimed : List Uuid}
    (hs : claimTask pg s now worker timeout qty = .ok (s', claimed)) (hid : runId ∈ claimed) :
  ∃ r, s'.runs.get? runId = some r
  := by
  obtain ⟨due, s₁, s₂, -, -, -, rfl, rfl⟩ := claimTask_eq_ok hs
  obtain ⟨r, hr, rfl⟩ := List.mem_map.mp hid
  apply Option.isSome_iff_exists.mp
  apply get?_runs_claims
  rw [Keyed.Table.get?_of_mem (mem_claimCandidates hr).1]
  rfl

theorem consistent_claimTask {timeout qty : ℤ} {claimed : List Uuid} (h : s.life.Consistent)
    (hs : claimTask pg s now worker timeout qty = .ok (s', claimed)) :
  s'.life.Consistent
  := by
  have hlives : Lives (fun _ => True) s s' :=
    refines_claimTask (fun _ => trivial)
      (fun _ _ => ⟨fun _ _ => trivial, fun _ _ => trivial, fun _ _ _ => trivial⟩)
      (fun _ _ _ => trivial) hs
  exact hlives.consistent h

/-- A run that is leased is awake. -/
theorem awake_of_leased (h : k.Consistent) (hleased : Leased k runId taskId moment) :
  Awake k runId
  := by
  use hleased.runDrawn
  rintro r hr rfl hwaits
  obtain ⟨t, ht, hlive, -⟩ := task_of_active h hr (active_of_waiting hwaits)
  have hown : t.taskId = taskId := (Keyed.Table.key_of_get? ht).trans (hleased.own r hr rfl)
  rcases hleased.running t (Keyed.Table.mem_of_get? ht) hown with hcancelled | ⟨r', hr', hid, hrunning, -⟩
  · rw [hcancelled] at hlive
    cases hlive
  · rw [← Keyed.Table.eq_of_key_eq hr hr' hid.symm] at hrunning
    rw [hrunning] at hwaits
    rcases hwaits with hwaits | hwaits <;> cases hwaits

/-- The runs a claim takes are leased until its timeout is over. -/
theorem leased_of_claimed {timeout qty : ℤ} {claimed : List Uuid} {r : RunRow}
    (h : s.life.Consistent) (hs : claimTask pg s now worker timeout qty = .ok (s', claimed))
    (hr : r ∈ s'.runs.rows) (hid : r.runId ∈ claimed) :
  Leased s'.life r.runId r.taskId (now + seconds timeout)
  := by
  have h' := consistent_claimTask h hs
  obtain ⟨hrunning, hexpires⟩ := running_of_claimed hs hr hid
  constructor
  · exact h'.runDrawn r hr
  · obtain ⟨t, ht, htask⟩ := h'.owned r hr
    rw [← htask]
    exact h'.taskDrawn t ht
  · intro r' hr' hid'
    rw [Keyed.Table.eq_of_key_eq hr' hr hid']
  · intro _ _ _
    right
    exact ⟨r, hr, rfl, hrunning, fun x hx => (hexpires x hx).ge⟩

/-- A claim takes no run that is leased, and no other run of its task. -/
theorem ne_of_claimed {timeout qty : ℤ} {claimed : List Uuid} {r : RunRow}
    (h : s.life.Consistent) (hs : claimTask pg s now worker timeout qty = .ok (s', claimed))
    (hnow : now < moment) (hleased : Leased s.life runId taskId moment)
    (hr : r ∈ s'.runs.rows) (hid : r.runId ∈ claimed) :
  r.runId ≠ runId ∧ r.taskId ≠ taskId
  := by
  have hne : r.runId ≠ runId := by
    rintro rfl
    exact not_awake_of_claimed hs hid (awake_of_leased h hleased)
  use hne
  rintro rfl
  have h' := consistent_claimTask h hs
  have hactive := active_of_running (running_of_claimed hs hr hid).1
  obtain ⟨t, ht, hlive, -⟩ := task_of_active h' hr hactive
  rcases (leased_claimTask h hs hnow hleased).running t (Keyed.Table.mem_of_get? ht)
    (Keyed.Table.key_of_get? ht) with hcancelled | ⟨r', hr', rfl, hrunning, -⟩
  · rw [hcancelled] at hlive
    cases hlive
  · have hown := (leased_claimTask h hs hnow hleased).own r' hr' rfl
    exact hne (congrArg RunRow.runId
      (eq_of_active h' hr' hr (active_of_running hrunning) hactive hown.symm))

/-- Two runs that a claim takes are runs of two tasks. -/
theorem taskId_ne_of_claimed {timeout qty : ℤ} {claimed : List Uuid} {r r' : RunRow}
    (h : s.life.Consistent) (hs : claimTask pg s now worker timeout qty = .ok (s', claimed))
    (hr : r ∈ s'.runs.rows) (hid : r.runId ∈ claimed) (hr' : r' ∈ s'.runs.rows)
    (hid' : r'.runId ∈ claimed) (hne : r.runId ≠ r'.runId) :
  r.taskId ≠ r'.taskId
  := by
  intro htask
  apply hne
  apply congrArg RunRow.runId
  exact eq_of_active (consistent_claimTask h hs) hr' hr
    (active_of_running (running_of_claimed hs hr' hid').1)
    (active_of_running (running_of_claimed hs hr hid).1) htask

end

end DjangoAbsurd.Engine
