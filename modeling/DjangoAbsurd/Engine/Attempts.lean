import DjangoAbsurd.Engine.History

/-!
# Attempts over the calls of a queue

What a task's runs say of its attempts, from one call to the next. A run that has started
stays started, so the count of the started runs of a task never goes back
(`startedCount_run`). Two columns do go back: a run that is suspended or cancelled loses its
worker, and the last run of a task that is attempted again has not started.
-/

namespace DjangoAbsurd.Engine

/-- The number of runs of a task that have started. -/
def startedCount (s : QueueState) (id : Uuid) : ℕ :=
  (s.life.runsOf id).countP (fun r => r.startedAt.isSome)

/-- The call leaves no started run of the task asleep or cancelled. -/
def KeepsWorkers (pg : Postgres) (id : Uuid) (s : QueueState) (l : Label) : Prop :=
  ∀ s', step pg s l = some s' → ∀ r ∈ s'.runs.rows, r.taskId = id → r.startedAt ≠ none →
    r.state ≠ .sleeping ∧ r.state ≠ .cancelled

/-- The call leaves the task with one run at most, and if it is a claim, its reading of the
clock is not before a start of a run of the task. -/
def AttemptsOnce (pg : Postgres) (id : Uuid) (s : QueueState) (l : Label) : Prop :=
  (∀ s', step pg s l = some s' → (s'.life.runsOf id).length ≤ 1)
    ∧ ∀ now worker claimTimeout qty, l = .claim now worker claimTimeout qty →
      ∀ r ∈ s.runs.rows, r.taskId = id → ∀ started, r.startedAt = some started → started ≤ now

variable {pg : Postgres} {s s' : QueueState} {l : Label} {id : Uuid}

/-- The rows of a run fit together. -/
theorem Lifecycle.Consistent.timed {k : Lifecycle} (h : k.Consistent) {r : RunRow}
    (hr : r ∈ k.runs.rows) :
  r.Timed
  := by
  obtain ⟨t, ht, hid⟩ := h.owned r hr
  exact (h.follows t ht).timed r (Lifecycle.mem_runsOf.mpr ⟨hr, hid.symm⟩)

/-! ### Started runs -/

/-- A call that spares a task does not lower the count of its started runs. -/
theorem startedCount_step (h : s.life.Consistent) (hspares : Spares id l)
    (hs : step pg s l = some s') :
  startedCount s id ≤ startedCount s' id
  := by
  apply preserved_step (I := fun k => startedCount s id
    ≤ (k.runsOf id).countP (fun r => r.startedAt.isSome)) h _ le_rfl hs
  intro k c hmake hk hc hle
  apply hle.trans
  rw [Change.runsOf_apply hk hc (spares_of_makes hspares hmake), List.countP_append,
    List.countP_map]
  apply Nat.le_add_right_of_le
  apply List.countP_mono_left
  intro r _ hr
  apply Option.isSome_iff_ne_none.mpr
  exact Change.started_run hc (Option.isSome_iff_ne_none.mp hr)

/-- Calls that spare a task do not lower the count of its started runs. -/
theorem startedCount_run {ls : List Label} (h : s.life.Consistent)
    (hspared : (machine pg).Along (fun _ l => Spares id l) s ls)
    (hrun : (machine pg).run s ls = some s') :
  startedCount s id ≤ startedCount s' id
  := by
  apply (Machine.invariant_along (I := fun s' => s'.life.Consistent
    ∧ startedCount s id ≤ startedCount s' id) _ hspared ⟨h, le_rfl⟩ hrun).2
  rintro s₁ l s₂ hspares ⟨h₁, hle⟩ hs
  constructor
  · obtain ⟨cs, hcs, -⟩ := refines_step hs
    exact consistent_run h₁ hcs
  · exact hle.trans (startedCount_step h₁ hspares hs)

/-! ### Workers -/

/-- Every started run of a task has a worker. -/
def Manned (s : QueueState) (id : Uuid) : Prop :=
  ∀ r ∈ s.runs.rows, r.taskId = id → r.startedAt ≠ none → r.claimedBy ≠ none

/-- The call suspends runs. -/
def Label.Suspends : Label → Prop
  | .schedule _ _ | .await _ _ _ _ _ _ => True
  | _ => False

/-- If the run has started, it has a worker, is cancelled or was put to sleep by the call. -/
def RunRow.Held (l : Label) (r : RunRow) : Prop :=
  r.startedAt ≠ none →
    r.claimedBy ≠ none ∨ r.state = .cancelled ∨ (r.state = .sleeping ∧ l.Suspends)

/-- A waiting run that a call other than a suspension finds held has not started. -/
theorem RunRow.Held.not_started {r : RunRow} (h : r.Held l) (htimed : r.Timed)
    (hstate : r.state = .pending ∨ r.state = .sleeping) (hl : ¬ l.Suspends) :
  r.startedAt = none
  := by
  by_contra hstarted
  rcases h hstarted with hworker | hcancelled | ⟨-, hsuspends⟩
  · apply hworker
    apply htimed.idle
    exact hstate.imp_right .inl
  · rw [hcancelled] at hstate
    rcases hstate with hstate | hstate <;> cases hstate
  · exact hl hsuspends

/-- A change the call may make leaves a run held. -/
theorem held_run {k : Lifecycle} {c : Change} {r : RunRow} (hmake : l.Makes c) (hc : c.Allowed k)
    (hr : r ∈ k.runs.rows) (htimed : r.Timed) (h : r.Held l) :
  (c.run r).Held l
  := by
  have hsame : ∀ r₀ ∈ k.runs.rows, r.runId = r₀.runId → r = r₀ := fun r₀ hr₀ hid =>
    Keyed.Table.eq_of_key_eq hr hr₀ hid
  cases c with
  | draw | spawn | wakeTask | retry | delete => exact h
  | claim now worker claimUntil r₀ =>
      rw [Change.run]
      split
      · exact fun _ => .inl (Option.some_ne_none _)
      · exact h
  | park r₀ e =>
      rw [Change.run]
      split
      · intro _
        right
        right
        use hc.2.2.state r
        rcases hmake with ⟨wakeAt, rfl⟩ | ⟨now, stepName, eventName, timeout, rfl⟩
        all_goals exact trivial
      · exact h
  | wakeRun now payload r₀ =>
      obtain ⟨eventName, payload', rfl⟩ := hmake
      rw [Change.run]
      split
      · rename_i hid
        obtain rfl := hsame r₀ hc.1 hid
        exact fun hstarted => absurd (h.not_started htimed hc.2 id) hstarted
      · exact h
  | adjust r₀ e =>
      rw [Change.run]
      split
      · intro hstarted
        obtain ⟨hkept, -⟩ := by simpa [RunRow.times] using hc.2.times r
        rw [hc.2.claimedBy, hc.2.state]
        apply h
        rwa [hkept] at hstarted
      · exact h
  | complete now r₀ payload =>
      rw [Change.run]
      split
      · rename_i hid
        obtain rfl := hsame r₀ hc.1 hid
        exact fun _ => .inl (htimed.running hc.2)
      · exact h
  | failForGood now r₀ reason | failCancelled now r₀ reason | failRetried now r₀ reason _ =>
      rw [Change.run]
      split
      · rename_i hid
        obtain rfl := hsame r₀ hc.1 hid
        intro hstarted
        left
        rcases hc.2 with hrunning | hsleeping
        · exact htimed.running hrunning
        · apply absurd (h.not_started htimed (.inr hsleeping) _) hstarted
          rcases hmake with ⟨retryAt, rfl⟩ | ⟨worker, claimTimeout, qty, rfl⟩
          all_goals exact id
      · exact h
  | cancel now id' =>
      rw [Change.run]
      split
      · exact fun _ => .inr (.inl rfl)
      · exact h

/-- A call that leaves no started run of a task asleep or cancelled leaves every started run
of the task with a worker. -/
theorem manned_step (h : s.life.Consistent) (hmanned : Manned s id)
    (hkeeps : KeepsWorkers pg id s l) (hs : step pg s l = some s') :
  Manned s' id
  := by
  have hheld : ∀ r ∈ s'.life.runs.rows, r.taskId = id → r.Held l := by
    apply preserved_step (I := fun k => ∀ r ∈ k.runs.rows, r.taskId = id → r.Held l) h _ _ hs
    · intro k c hmake hk hc hheld r' hr' hid
      rcases Change.mem_runs_apply hr' with ⟨r, hr, rfl⟩ | hadded
      · rw [Change.taskId_run] at hid
        exact held_run hmake hc hr (hk.timed hr) (hheld r hr hid)
      · exact fun hstarted => absurd (Change.added_fresh hc hadded).2.1 hstarted
    · exact fun r hr hid hstarted => .inl (hmanned r hr hid hstarted)
  intro r hr hid hstarted
  obtain ⟨hawake, hlive⟩ := hkeeps s' hs r hr hid hstarted
  rcases hheld r hr hid hstarted with hworker | hcancelled | ⟨hsleeping, -⟩
  · exact hworker
  · exact absurd hcancelled hlive
  · exact absurd hsleeping hawake

/-- Calls that leave no started run of a task asleep or cancelled leave every started run of
the task with a worker. -/
theorem manned_run {ls : List Label} {storage : StorageMode}
    (hkeeps : (machine pg).Along (KeepsWorkers pg id) (.create storage) ls)
    (hrun : (machine pg).run (.create storage) ls = some s) :
  Manned s id
  := by
  have hcreate : Manned (.create storage) id := fun r hr => absurd hr List.not_mem_nil
  apply (Machine.invariant_along (I := fun s => s.life.Consistent ∧ Manned s id) _ hkeeps
    ⟨.create storage, hcreate⟩ hrun).2
  rintro s₁ l s₂ hkeep ⟨h₁, hmanned⟩ hs
  constructor
  · obtain ⟨cs, hcs, -⟩ := refines_step hs
    exact consistent_run h₁ hcs
  · exact manned_step h₁ hmanned hkeep hs

/-! ### Starts in order -/

/-- No run of the task has started since the reading of the call, if it is a claim. -/
def StartedBefore (l : Label) (id : Uuid) (k : Lifecycle) : Prop :=
  ∀ now worker claimTimeout qty, l = .claim now worker claimTimeout qty →
    ∀ r ∈ k.runsOf id, ∀ started, r.startedAt = some started → started ≤ now

/-- When the task has started, every run of it has, and not before the task. -/
def InOrder (id : Uuid) (k : Lifecycle) : Prop :=
  ∀ t ∈ k.tasks.rows, t.taskId = id → ∀ first, t.firstStartedAt = some first →
    ∀ r ∈ k.runsOf id, ∃ started, r.startedAt = some started ∧ first ≤ started

/-- A run of the task has started, and not before a moment. -/
def StartedSince (id : Uuid) (moment : Time) (k : Lifecycle) : Prop :=
  ∃ r ∈ k.runsOf id, ∃ started, r.startedAt = some started ∧ moment ≤ started

section

variable {k : Lifecycle} {c : Change}

/-- A claim a call makes has its reading. -/
theorem now_of_makes {now : Time} {worker : String} {claimUntil : Option Time} {r : RunRow}
    (hmake : l.Makes (.claim now worker claimUntil r)) (hb : StartedBefore l id k) :
  ∀ r ∈ k.runsOf id, ∀ started, r.startedAt = some started → started ≤ now
  := by
  obtain ⟨worker', claimTimeout, qty, rfl⟩ := hmake
  exact hb now worker' claimTimeout qty rfl

theorem startedBefore_apply (hmake : l.Makes c) (hk : k.Consistent) (hc : c.Allowed k)
    (hs : c.Spares id) (h : StartedBefore l id k) :
  StartedBefore l id (c.apply k)
  := by
  intro now worker claimTimeout qty hl r' hr' started hstarted
  rw [Change.runsOf_apply hk hc hs] at hr'
  rcases List.mem_append.mp hr' with hr' | hadded
  · obtain ⟨r, hr, rfl⟩ := List.mem_map.mp hr'
    rcases Change.startedAt_run hc r with hsame | ⟨now', worker', claimUntil, r₀, rfl, -, hnow⟩
    · rw [hsame] at hstarted
      exact h now worker claimTimeout qty hl r hr started hstarted
    · obtain ⟨worker', claimTimeout', qty', hl'⟩ := hmake
      obtain ⟨rfl, -⟩ := Label.claim.inj (hl.symm.trans hl')
      rw [hnow] at hstarted
      exact (Option.some.inj hstarted).symm.le
  · have hnone := (Change.added_fresh hc (List.mem_filter.mp hadded).1).2.1
    rw [hnone] at hstarted
    cases hstarted

theorem startedSince_apply {moment : Time} (hmake : l.Makes c) (hk : k.Consistent)
    (hc : c.Allowed k) (hs : c.Spares id) (hb : StartedBefore l id k)
    (h : StartedSince id moment k) :
  StartedSince id moment (c.apply k)
  := by
  obtain ⟨r, hr, started, hstarted, hle⟩ := h
  have hmem : c.run r ∈ (c.apply k).runsOf id := by
    rw [Change.runsOf_apply hk hc hs]
    exact List.mem_append_left _ (List.mem_map_of_mem hr)
  rcases Change.startedAt_run hc r with hsame | ⟨now, worker, claimUntil, r₀, rfl, -, hnow⟩
  · exact ⟨_, hmem, started, hsame.trans hstarted, hle⟩
  · exact ⟨_, hmem, now, hnow, hle.trans (now_of_makes hmake hb r hr started hstarted)⟩

theorem inOrder_apply (hmake : l.Makes c) (hk : k.Consistent) (hc : c.Allowed k)
    (hs : c.Spares id) (honce : ((c.apply k).runsOf id).length ≤ 1) (hb : StartedBefore l id k)
    (h : InOrder id k) :
  InOrder id (c.apply k)
  := by
  intro t' ht' hid first hfirst r' hr'
  rw [Change.runsOf_apply hk hc hs] at hr' honce
  rw [List.length_append, List.length_map] at honce
  rcases Change.mem_tasks_apply ht' with ⟨t, ht, rfl⟩ | ⟨now, rfl⟩
  · have hid' : t.taskId = id := (TaskRow.eq_of_origin (Change.origin_task k c t)).1.symm.trans hid
    obtain ⟨r, hr, -⟩ := (hk.follows t ht).last
    rw [hid'] at hr
    have hpos := List.length_pos_of_mem hr
    have hnew : (c.added k).filter (fun r => r.taskId = id) = [] :=
      List.eq_nil_of_length_eq_zero (by omega)
    have hone : k.runsOf id = [r] := by
      obtain ⟨r₁, hr₁⟩ := List.length_eq_one_iff.mp (show (k.runsOf id).length = 1 by omega)
      rw [hr₁] at hr
      rw [hr₁, List.mem_singleton.mp hr]
    rw [hnew, List.append_nil, hone] at hr'
    obtain rfl := List.mem_singleton.mp hr'
    have hbefore : ∀ x, t.firstStartedAt = some x → ∃ started, r.startedAt = some started
        ∧ x ≤ started := fun x hx => h t ht hid' x hx r hr
    rcases Change.firstStartedAt_task k c t with hsame | ⟨now, worker, claimUntil, r₀, rfl, ht₀, hnow⟩
    · obtain ⟨started, hstarted, hle⟩ := hbefore first (hsame.symm.trans hfirst)
      rcases Change.startedAt_run hc r with hsame' | ⟨now, worker, claimUntil, r₀, rfl, -, hnow⟩
      · exact ⟨started, hsame'.trans hstarted, hle⟩
      · exact ⟨now, hnow, hle.trans (now_of_makes hmake hb r hr started hstarted)⟩
    · have hr₀ : r₀ ∈ k.runsOf id := Lifecycle.mem_runsOf.mpr ⟨hc.1, ht₀.symm.trans hid'⟩
      rw [hone] at hr₀
      obtain rfl := List.mem_singleton.mp hr₀
      use now
      constructor
      · rw [Change.run, if_pos rfl]
        rfl
      · rw [hnow] at hfirst
        cases hx : t.firstStartedAt with
        | none =>
            rw [hx] at hfirst
            exact (Option.some.inj hfirst).symm.le
        | some x =>
            rw [hx] at hfirst
            obtain rfl := Option.some.inj hfirst
            obtain ⟨started, hstarted, hle⟩ := hbefore _ hx
            exact hle.trans (now_of_makes hmake hb r₀ hr started hstarted)
  · rw [hc.1.firstStartedAt] at hfirst
    cases hfirst

/-- Changes that spare a task leave it with as many runs or more. -/
theorem length_runsOf_le {k' : Lifecycle} {cs : List Change} (hk : k.Consistent)
    (hspares : ∀ c ∈ cs, c.Spares id) (hrun : lifecycle.run k cs = some k') :
  (k.runsOf id).length ≤ (k'.runsOf id).length
  := by
  have halong : lifecycle.Along (fun _ c => c.Spares id) k cs :=
    Machine.along_of_forall (fun _ c hc => hspares c hc)
  apply (Machine.invariant_along (I := fun k' => k'.Consistent
    ∧ (k.runsOf id).length ≤ (k'.runsOf id).length) _ halong ⟨hk, le_rfl⟩ hrun).2
  rintro k₁ c k₂ hs ⟨hk₁, hle⟩ hc
  use hk₁.step hc
  obtain ⟨hallowed, rfl⟩ := step_lifecycle.mp hc
  rw [Change.runsOf_apply hk₁ hallowed hs, List.length_append, List.length_map]
  exact hle.trans (Nat.le_add_right _ _)

/-- Changes of one call that leave a task with one run keep its starts in order. -/
theorem inOrder_changes {k' : Lifecycle} {cs : List Change} (hk : k.Consistent)
    (hmakes : ∀ c ∈ cs, l.Makes c) (hspares : Spares id l) (hrun : lifecycle.run k cs = some k')
    (honce : (k'.runsOf id).length ≤ 1) (hb : StartedBefore l id k) (h : InOrder id k) :
  InOrder id k'
  := by
  induction cs generalizing k with
  | nil =>
      obtain rfl := Option.some.inj hrun
      exact h
  | cons c cs ih =>
      obtain ⟨k₁, hs, hrun⟩ := Machine.run_cons.mp hrun
      have hk₁ := hk.step hs
      obtain ⟨hc, rfl⟩ := step_lifecycle.mp hs
      have hmake := hmakes c List.mem_cons_self
      have hrest : ∀ c' ∈ cs, l.Makes c' := fun c' hc' => hmakes c' (List.mem_cons_of_mem c hc')
      have hspare := spares_of_makes hspares hmake
      have hle : ((c.apply k).runsOf id).length ≤ _ :=
        length_runsOf_le hk₁ (fun c' hc' => spares_of_makes hspares (hrest c' hc')) hrun
      apply ih hk₁ hrest hrun
      · exact startedBefore_apply hmake hk hc hspare hb
      · exact inOrder_apply hmake hk hc hspare (hle.trans honce) hb h

end

theorem startedBefore_of_once (honce : AttemptsOnce pg id s l) :
  StartedBefore l id s.life
  := by
  intro now worker claimTimeout qty hl r hr
  obtain ⟨hrow, hid⟩ := Lifecycle.mem_runsOf.mp hr
  exact honce.2 now worker claimTimeout qty hl r hrow hid

/-- A task whose only run starts in order. -/
structure RunsOnce (id : Uuid) (s : QueueState) : Prop where
  consistent : s.life.Consistent
  single : (s.life.runsOf id).length ≤ 1
  ordered : InOrder id s.life

theorem RunsOnce.step (h : RunsOnce id s) (hspares : Spares id l)
    (honce : AttemptsOnce pg id s l) (hs : step pg s l = some s') :
  RunsOnce id s'
  := by
  obtain ⟨cs, hcs, hmakes⟩ := refines_step hs
  constructor
  · exact consistent_run h.consistent hcs
  · exact honce.1 s' hs
  · exact inOrder_changes h.consistent hmakes hspares hcs (honce.1 s' hs)
      (startedBefore_of_once honce) h.ordered

/-- Calls that attempt a task once keep the starts of its only run in order. -/
theorem RunsOnce.run {ls : List Label} (h : RunsOnce id s)
    (hspared : (machine pg).Along (fun _ l => Spares id l) s ls)
    (honce : (machine pg).Along (AttemptsOnce pg id) s ls)
    (hrun : (machine pg).run s ls = some s') :
  RunsOnce id s'
  := Machine.invariant_along (I := RunsOnce id)
    (fun _ _ _ hl hI hs => hI.step hl.1 hl.2 hs) (hspared.and honce) h hrun

theorem runsOnce_create (storage : StorageMode) (id : Uuid) :
  RunsOnce id (.create storage)
  := ⟨.create storage, Nat.zero_le 1, fun _ ht => absurd ht List.not_mem_nil⟩

/-- A run that has started since a moment has started since it after any calls that attempt
the task once. -/
theorem startedSince_run {ls : List Label} {moment : Time} (h : RunsOnce id s)
    (hspared : (machine pg).Along (fun _ l => Spares id l) s ls)
    (honce : (machine pg).Along (AttemptsOnce pg id) s ls)
    (hrun : (machine pg).run s ls = some s') (hsince : StartedSince id moment s.life) :
  StartedSince id moment s'.life
  := by
  apply (Machine.invariant_along (I := fun s => RunsOnce id s ∧ StartedSince id moment s.life) _
    (hspared.and honce) ⟨h, hsince⟩ hrun).2
  rintro s₁ l s₂ ⟨hspares, honce⟩ ⟨h₁, hsince⟩ hs
  use h₁.step hspares honce hs
  have hkept := preserved_step
    (I := fun k => StartedBefore l id k ∧ StartedSince id moment k) h₁.consistent
    (fun k c hmake hk hc hI =>
      ⟨startedBefore_apply hmake hk hc (spares_of_makes hspares hmake) hI.1,
        startedSince_apply hmake hk hc (spares_of_makes hspares hmake) hI.1 hI.2⟩)
    ⟨startedBefore_of_once honce, hsince⟩ hs
  exact hkept.2

end DjangoAbsurd.Engine
