import DjangoAbsurd.Worker.Window

/-!
# What the worker loop guarantees

Every step keeps the window (`held_step`) and starts exactly the tasks a claim returned
(`claimed_step`). Every step but one also keeps `Settled`: a coroutine that has ended has
no executing run left. The exception is a cancellation that lands in the `asyncio.wait` of
`finish_remaining_runs` while a run of the window is not done (`Abandons`).
-/

namespace DjangoAbsurd.Worker

variable {Claimed Failure : Type} {options : WorkerOptions}

/-! ### The window is kept -/

theorem held_claimReturns {s s' : State Claimed Failure} {tasks : List Claimed}
    {entries : List ℕ} (h : Held options s)
    (hs : claimReturns options s tasks entries = some s') :
  Held options s'
  := by
  unfold claimReturns at hs
  split at hs
  · rename_i n hpc
    have hclaim := h.claim n hpc
    split at hs
    · rename_i hreturn
      obtain ⟨hlen, hperm⟩ := hreturn
      split at hs
      · obtain rfl := Option.some.inj hs
        apply h.window.held
        intro m hm
        cases hm
      · obtain rfl := Option.some.inj hs
        apply (h.window.createRuns (by omega)).head
        intro i hi
        have hmem := hperm.mem_iff.mp hi
        have hlt := h.window.created i (List.mem_of_mem_filter hmem)
        have hdone := ending?_ne_none_of_perm hperm i hi
        simp only [Loop.createRuns, ending?]
        rwa [List.getElem?_append_left hlt]
    · cases hs
  · cases hs

theorem held_claimRaises {s s' : State Claimed Failure} {e : Failure} (h : Held options s)
    (hs : claimRaises s e = some s') :
  Held options s'
  := by
  unfold claimRaises at hs
  split at hs
  · obtain rfl := Option.some.inj hs
    apply h.window.raiseInLoop
  · cases hs

theorem held_resume {s s' : State Claimed Failure} {entries : List ℕ} (h : Held options s)
    (hs : resume options s entries = some s') :
  Held options s'
  := by
  have hpc {pc : Pc Failure} (hne : ∀ n, pc ≠ .claiming n) : Held options ⟨s.loop, pc⟩ :=
    h.window.held hne
  unfold resume at hs
  split at hs
  · split at hs
    · rename_i hperm
      obtain rfl := Option.some.inj hs
      apply h.window.head (ending?_ne_none_of_perm hperm)
    · cases hs
  · split at hs
    · rename_i hdone
      split at hs
      · obtain rfl := Option.some.inj hs
        apply h.window.enterFinally
      · obtain rfl := Option.some.inj hs
        apply (h.window.clear hdone).enterFinally
    · cases hs
  · split at hs
    · obtain rfl := Option.some.inj hs
      apply hpc
      simp
    · cases hs
  · split at hs
    · split at hs
      · obtain rfl := Option.some.inj hs
        apply hpc
        simp
      · obtain rfl := Option.some.inj hs
        apply hpc
        simp
    · cases hs
  · cases hs

theorem held_cancel {s s' : State Claimed Failure} (h : Held options s)
    (hs : cancel s = some s') :
  Held options s'
  := by
  unfold cancel at hs
  split at hs
  case h_6 => cases hs
  all_goals obtain rfl := Option.some.inj hs
  · apply h.window.cancelAndDrainRuns
  · apply h.window.cancelAndDrainRuns
  · apply h.window.held
    simp
  · apply h.window.held
    simp
  · apply h.window.held
    simp

/-- Every step keeps the window. -/
theorem held_step {s s' : State Claimed Failure} {l : Label Claimed Failure}
    (h : Held options s) (hs : step options s l = some s') :
  Held options s'
  := by
  unfold step at hs
  split at hs
  · cases hs
  · cases l with
    | endRun i ending =>
        obtain ⟨w, hw, rfl⟩ := Option.map_eq_some_iff.mp hs
        use h.window.endRun hw
        intro n hn
        rw [executing_endRun hw]
        apply h.claim n hn
    | setStop =>
        obtain rfl := Option.some.inj hs
        constructor
        · apply h.window.setStop
        · apply h.claim
    | claimed tasks entries => apply held_claimReturns h hs
    | claimFails e => apply held_claimRaises h hs
    | resume entries => apply held_resume h hs
    | cancel => apply held_cancel h hs

theorem held_start (hC : 2 ≤ options.concurrency) (stop : Bool) :
  Held options (start options stop : State Claimed Failure)
  := by
  apply Window.head
  · constructor
    · simp [unfinished]
    · simp
    · apply List.nodup_nil
    · rw [List.length_nil]
      omega
    · simp
  · simp

/-! ### Claimed tasks and runs -/

/-- The tasks of the runs the coroutine created, in the order it created them. -/
def Loop.claimed (w : Loop Claimed Failure) : List Claimed := w.runs.map Run.claimed

@[simp]
theorem claimed_cancelRuns (w : Loop Claimed Failure) :
  w.cancelRuns.claimed = w.claimed
  := by
  apply List.ext_getElem?
  intro i
  simp only [Loop.claimed, Loop.cancelRuns, List.getElem?_map, List.getElem?_mapIdx]
  cases w.runs[i]? with
  | none => rfl
  | some run =>
      obtain ⟨claimed, status⟩ := run
      by_cases hi : i ∈ w.executing <;> cases status <;> simp [hi, Run.cancel]

@[simp]
theorem claimed_enterFinally (w : Loop Claimed Failure) (pending : Ending Failure) :
  (w.enterFinally pending).loop.claimed = w.claimed
  := by
  unfold Loop.enterFinally
  split <;> rfl

@[simp]
theorem claimed_cancelAndDrainRuns (w : Loop Claimed Failure) :
  w.cancelAndDrainRuns.loop.claimed = w.claimed
  := by
  unfold Loop.cancelAndDrainRuns
  split <;> simp

@[simp]
theorem claimed_raiseInLoop (w : Loop Claimed Failure) (raised : Raised Failure) :
  (w.raiseInLoop raised).loop.claimed = w.claimed
  := by
  cases raised <;> simp [Loop.raiseInLoop]

@[simp]
theorem claimed_reapFinishedRuns (w : Loop Claimed Failure) (entries : List ℕ) :
  (w.reapFinishedRuns entries).1.claimed = w.claimed
  := by
  induction entries generalizing w with
  | nil => rfl
  | cons i entries ih =>
      unfold Loop.reapFinishedRuns
      dsimp only
      split
      · rfl
      · apply ih

@[simp]
theorem claimed_head (w : Loop Claimed Failure) (entries : List ℕ) :
  (w.head options entries).loop.claimed = w.claimed
  := by
  unfold Loop.head
  split
  · apply claimed_enterFinally
  · have hreap := claimed_reapFinishedRuns w entries
    generalize w.reapFinishedRuns entries = reaped at hreap ⊢
    obtain ⟨w', raised | _⟩ := reaped
    · rw [← hreap]
      apply claimed_raiseInLoop
    · dsimp only at hreap ⊢
      split
      · apply hreap
      · apply hreap

@[simp]
theorem claimed_createRuns (w : Loop Claimed Failure) (tasks : List Claimed) :
  (w.createRuns tasks).claimed = w.claimed ++ tasks
  := by
  simp [Loop.createRuns, Loop.claimed, Function.comp_def]

theorem claimed_endRun {w w' : Loop Claimed Failure} {i : ℕ} {ending : Ending Failure}
    (hw : w.endRun i ending = some w') :
  w'.claimed = w.claimed
  := by
  unfold Loop.endRun at hw
  split at hw
  · cases hw
  · rename_i hrun
    obtain rfl := Option.some.inj hw
    apply List.ext_getElem?
    intro j
    simp only [Loop.claimed, List.getElem?_map, List.getElem?_set]
    by_cases hij : i = j
    · subst hij
      obtain ⟨hlt, hget⟩ := List.getElem?_eq_some_iff.mp hrun
      simp [hlt, hget]
    · simp [hij]
  · cases hw

theorem claimed_claimReturns {s s' : State Claimed Failure} {tasks : List Claimed}
    {entries : List ℕ} (hs : claimReturns options s tasks entries = some s') :
  s'.loop.claimed = s.loop.claimed ++ tasks
  := by
  unfold claimReturns at hs
  split at hs
  · split at hs
    · split at hs
      · rename_i htasks
        obtain rfl := Option.some.inj hs
        rw [htasks, List.append_nil]
      · obtain rfl := Option.some.inj hs
        rw [claimed_head, claimed_createRuns]
    · cases hs
  · cases hs

theorem claimed_claimRaises {s s' : State Claimed Failure} {e : Failure}
    (hs : claimRaises s e = some s') :
  s'.loop.claimed = s.loop.claimed
  := by
  unfold claimRaises at hs
  split at hs
  · obtain rfl := Option.some.inj hs
    apply claimed_raiseInLoop
  · cases hs

theorem claimed_resume {s s' : State Claimed Failure} {entries : List ℕ}
    (hs : resume options s entries = some s') :
  s'.loop.claimed = s.loop.claimed
  := by
  unfold resume at hs
  split at hs
  · split at hs
    · obtain rfl := Option.some.inj hs
      apply claimed_head
    · cases hs
  · split at hs
    · split at hs
      · obtain rfl := Option.some.inj hs
        apply claimed_enterFinally
      · obtain rfl := Option.some.inj hs
        apply claimed_enterFinally
    · cases hs
  · split at hs
    · obtain rfl := Option.some.inj hs
      rfl
    · cases hs
  · split at hs
    · split at hs
      · obtain rfl := Option.some.inj hs
        rfl
      · obtain rfl := Option.some.inj hs
        rfl
    · cases hs
  · cases hs

theorem claimed_cancel {s s' : State Claimed Failure} (hs : cancel s = some s') :
  s'.loop.claimed = s.loop.claimed
  := by
  unfold cancel at hs
  split at hs
  case h_6 => cases hs
  all_goals obtain rfl := Option.some.inj hs
  · apply claimed_cancelAndDrainRuns
  · apply claimed_cancelAndDrainRuns
  · rfl
  · rfl
  · rfl

/-- A step starts the tasks its claim returned, and no others. -/
theorem claimed_step {s s' : State Claimed Failure} {l : Label Claimed Failure}
    (hs : step options s l = some s') :
  s'.loop.claimed = s.loop.claimed ++ l.returned
  := by
  unfold step at hs
  split at hs
  · cases hs
  · cases l with
    | endRun i ending =>
        obtain ⟨w, hw, rfl⟩ := Option.map_eq_some_iff.mp hs
        simp [claimed_endRun hw]
    | setStop =>
        obtain rfl := Option.some.inj hs
        simp [Loop.setStop, Loop.claimed]
    | claimed tasks entries => apply claimed_claimReturns hs
    | claimFails e => simp [claimed_claimRaises hs]
    | resume entries => simp [claimed_resume hs]
    | cancel => simp [claimed_cancel hs]

/-- The runs of the coroutine are the tasks its claims returned, each started once. -/
theorem claimed_run {ls : List (Label Claimed Failure)} {s s' : State Claimed Failure}
    (hrun : (machine options).run s ls = some s') :
  s'.loop.claimed = s.loop.claimed ++ ls.flatMap Label.returned
  := by
  induction ls generalizing s with
  | nil =>
      obtain rfl := Option.some.inj hrun
      simp
  | cons l ls ih =>
      obtain ⟨s₁, hs, hrun⟩ := Machine.run_cons.mp hrun
      rw [ih hrun, claimed_step hs, List.flatMap_cons, List.append_assoc]

/-! ### The window of a coroutine that has ended -/

/-- A coroutine that gathers its window or has ended has no executing run left. -/
def Settled (s : State Claimed Failure) : Prop :=
  match s.pc with
  | .gathering _ | .exited _ => s.loop.ExecutingDone
  | _ => True

/-- The cancellation that abandons runs: it ends the `asyncio.wait` of
`finish_remaining_runs` while a run of the window is not done. -/
def Abandons (s : State Claimed Failure) : Label Claimed Failure → Prop
  | .cancel =>
      match s.pc with
      | .finishing _ => ¬ s.loop.ExecutingDone
      | _ => False
  | _ => False

theorem settled_enterFinally (w : Loop Claimed Failure) (pending : Ending Failure) :
  Settled (w.enterFinally pending)
  := by
  unfold Loop.enterFinally
  split
  · rename_i hempty
    intro i hi
    simp [hempty] at hi
  · trivial

theorem settled_cancelAndDrainRuns (w : Loop Claimed Failure) :
  Settled w.cancelAndDrainRuns
  := by
  unfold Loop.cancelAndDrainRuns
  split
  · apply settled_enterFinally
  · trivial

theorem settled_raiseInLoop (w : Loop Claimed Failure) (raised : Raised Failure) :
  Settled (w.raiseInLoop raised)
  := by
  cases raised with
  | cancelledError => apply settled_cancelAndDrainRuns
  | failure e => apply settled_enterFinally

theorem settled_head (w : Loop Claimed Failure) (entries : List ℕ) :
  Settled (w.head options entries)
  := by
  unfold Loop.head
  split
  · apply settled_enterFinally
  · generalize w.reapFinishedRuns entries = reaped
    obtain ⟨w', raised | _⟩ := reaped
    · apply settled_raiseInLoop
    · dsimp only
      split <;> trivial

/-- A run that ends leaves the window of an ended coroutine settled. -/
theorem settled_endRun {s : State Claimed Failure} {i : ℕ} {ending : Ending Failure}
    {w : Loop Claimed Failure} (h : Settled s) (hw : s.loop.endRun i ending = some w) :
  Settled ⟨w, s.pc⟩
  := by
  have hkeep : s.loop.ExecutingDone → w.ExecutingDone := by
    intro hdone j hj
    rw [executing_endRun hw] at hj
    apply ending?_endRun hw (hdone j hj)
  revert h
  unfold Settled
  cases s.pc with
  | gathering pending => apply hkeep
  | exited ending => apply hkeep
  | _ => apply id

theorem settled_claimReturns {s s' : State Claimed Failure} {tasks : List Claimed}
    {entries : List ℕ} (hs : claimReturns options s tasks entries = some s') :
  Settled s'
  := by
  unfold claimReturns at hs
  split at hs
  · split at hs
    · split at hs
      · obtain rfl := Option.some.inj hs
        trivial
      · obtain rfl := Option.some.inj hs
        apply settled_head
    · cases hs
  · cases hs

theorem settled_claimRaises {s s' : State Claimed Failure} {e : Failure}
    (hs : claimRaises s e = some s') :
  Settled s'
  := by
  unfold claimRaises at hs
  split at hs
  · obtain rfl := Option.some.inj hs
    apply settled_raiseInLoop
  · cases hs

theorem settled_resume {s s' : State Claimed Failure} {entries : List ℕ} (h : Settled s)
    (hs : resume options s entries = some s') :
  Settled s'
  := by
  unfold resume at hs
  split at hs
  · split at hs
    · obtain rfl := Option.some.inj hs
      apply settled_head
    · cases hs
  · split at hs
    · split at hs
      · obtain rfl := Option.some.inj hs
        apply settled_enterFinally
      · obtain rfl := Option.some.inj hs
        apply settled_enterFinally
    · cases hs
  · split at hs
    · rename_i hdone
      obtain rfl := Option.some.inj hs
      apply hdone
    · cases hs
  · rename_i pending hpc
    have hdone : s.loop.ExecutingDone := by
      simpa only [Settled, hpc] using h
    split at hs
    · split at hs
      · obtain rfl := Option.some.inj hs
        apply hdone
      · obtain rfl := Option.some.inj hs
        apply hdone
    · cases hs
  · cases hs

/-- A cancellation leaves no run behind unless it abandons one. -/
theorem settled_cancel {s s' : State Claimed Failure} (h : Settled s)
    (hl : ¬ Abandons s .cancel) (hs : cancel s = some s') :
  Settled s'
  := by
  unfold cancel at hs
  split at hs
  · obtain rfl := Option.some.inj hs
    apply settled_cancelAndDrainRuns
  · obtain rfl := Option.some.inj hs
    apply settled_cancelAndDrainRuns
  · obtain rfl := Option.some.inj hs
    trivial
  · rename_i pending hpc
    obtain rfl := Option.some.inj hs
    have hdone : s.loop.ExecutingDone := by
      simpa only [Abandons, hpc, not_not] using hl
    apply hdone
  · rename_i pending hpc
    obtain rfl := Option.some.inj hs
    have hdone : s.loop.ExecutingDone := by
      simpa only [Settled, hpc] using h
    apply hdone
  · cases hs

/-- Every step that abandons no run keeps the window of an ended coroutine settled. -/
theorem settled_step {s s' : State Claimed Failure} {l : Label Claimed Failure}
    (h : Settled s) (hl : ¬ Abandons s l) (hs : step options s l = some s') :
  Settled s'
  := by
  unfold step at hs
  split at hs
  · cases hs
  · cases l with
    | endRun i ending =>
        obtain ⟨w, hw, rfl⟩ := Option.map_eq_some_iff.mp hs
        apply settled_endRun h hw
    | setStop =>
        obtain rfl := Option.some.inj hs
        apply h
    | claimed tasks entries => apply settled_claimReturns hs
    | claimFails e => apply settled_claimRaises hs
    | resume entries => apply settled_resume h hs
    | cancel => apply settled_cancel h hl hs

theorem settled_start (stop : Bool) :
  Settled (start options stop : State Claimed Failure)
  := settled_head _ _

/-- The runs of an ended coroutine are done exactly when none of them is left in the
window. -/
theorem allDone_iff_settled {s : State Claimed Failure} (h : Held options s)
    {ending : Ending Failure} (hexited : s.pc = .exited ending) :
  (∀ run ∈ s.loop.runs, run.isDone = true) ↔ Settled s
  := by
  simp only [Settled, hexited]
  rw [allDone_iff]
  constructor
  · intro hnil i hi
    have hlt := h.window.created i hi
    by_contra hnone
    have hmem : i ∈ unfinished s.loop.runs := by
      apply mem_unfinished.mpr
      use hlt
      simpa using hnone
    rw [hnil] at hmem
    cases hmem
  · intro hdone
    apply List.eq_nil_iff_forall_not_mem.mpr
    intro i hi
    have hsome := hdone i (h.window.owned hi)
    rw [(mem_unfinished.mp hi).2] at hsome
    cases hsome

/-! ### Runs of the coroutine -/

theorem held_run (hC : 2 ≤ options.concurrency) {stop : Bool}
    {ls : List (Label Claimed Failure)} {s : State Claimed Failure}
    (hrun : (machine options).run (start options stop) ls = some s) :
  Held options s
  := by
  have hstep : ∀ (s : State Claimed Failure) (l : Label Claimed Failure) (s' : State Claimed Failure),
      Held options s → (machine options).step s l = some s' → Held options s' :=
    fun _ _ _ h hs => held_step h hs
  apply Machine.invariant hstep (held_start hC stop) hrun

/-- After the step that abandons a run the coroutine has ended. -/
theorem run_of_abandons {s s' : State Claimed Failure} {l : Label Claimed Failure}
    {ls : List (Label Claimed Failure)} (hl : Abandons s l)
    (hrun : (machine options).run s (l :: ls) = some s') :
  ¬ Settled s'
  := by
  obtain ⟨s₁, hs, hrun⟩ := Machine.run_cons.mp hrun
  cases l with
  | cancel =>
      cases hpc : s.pc with
      | finishing pending =>
          simp only [Abandons, hpc] at hl
          simp only [machine, step, State.hasExited, hpc, cancel] at hs
          obtain rfl := Option.some.inj hs
          cases ls with
          | nil =>
              obtain rfl := Option.some.inj hrun
              apply hl
          | cons l ls =>
              obtain ⟨s₂, hs₂, -⟩ := Machine.run_cons.mp hrun
              cases hs₂
      | _ => simp [Abandons, hpc] at hl
  | _ => cases hl

/-- A run of the coroutine ends settled exactly when none of its steps abandons a run. -/
theorem settled_run_iff {ls : List (Label Claimed Failure)} {s s' : State Claimed Failure}
    (h : Settled s) (hrun : (machine options).run s ls = some s') :
  Settled s' ↔ (machine options).Along (fun s l => ¬ Abandons s l) s ls
  := by
  induction ls generalizing s with
  | nil =>
      obtain rfl := Option.some.inj hrun
      simp [h]
  | cons l ls ih =>
      obtain ⟨s₁, hs, hrun₁⟩ := Machine.run_cons.mp hrun
      rw [Machine.along_cons hs]
      by_cases hl : Abandons s l
      · have hend := run_of_abandons hl hrun
        constructor
        · intro hs'
          apply absurd hs' hend
        · rintro ⟨hl', -⟩
          apply absurd hl hl'
      · rw [ih (settled_step h hl hs) hrun₁]
        constructor
        · intro halong
          use hl
        · rintro ⟨-, halong⟩
          apply halong

/-- When the coroutine has ended, every run it created is done if and only if no
cancellation abandoned a run, by ending the `asyncio.wait` of `finish_remaining_runs`
before the window was done. -/
theorem runs_done_on_exit_iff (options : WorkerOptions) (hC : 2 ≤ options.concurrency) {stop : Bool}
    {ls : List (Label Claimed Failure)} {s : State Claimed Failure}
    (hrun : (machine options).run (start options stop) ls = some s)
    {ending : Ending Failure} (hexited : s.pc = .exited ending) :
  (∀ run ∈ s.loop.runs, run.isDone = true)
    ↔ (machine options).Along (fun s l => ¬ Abandons s l) (start options stop) ls
  := by
  rw [allDone_iff_settled (held_run hC hrun) hexited]
  apply settled_run_iff (settled_start stop) hrun

/-- One run in flight, and the loop cancelled while it waits. -/
theorem runs_done_on_exit_iff_waiting :
  (∀ run ∈ [(⟨(), .done (.ok ())⟩ : Run Unit Unit)], run.isDone = true)
    ↔ Machine.Along (machine ⟨2, none⟩) (fun s (l : Label Unit Unit) => ¬ Abandons s l)
        (start ⟨2, none⟩ false)
        [.claimed [()] [], .claimed [] [], .cancel, .endRun 0 (.ok ()), .resume [0]]
  := by
  have hrun : Machine.run (machine ⟨2, none⟩) (start ⟨2, none⟩ false : State Unit Unit)
      [.claimed [()] [], .claimed [] [], .cancel, .endRun 0 (.ok ()), .resume [0]]
      = some ⟨⟨false, [⟨(), .done (.ok ())⟩], [], [⟨2, 2, false⟩, ⟨1, 1, false⟩]⟩,
          .exited (.error .cancelledError)⟩ := rfl
  apply runs_done_on_exit_iff ⟨2, none⟩ (by decide) hrun rfl

/-- Two slots, one run in flight, a stop, and a cancellation while the window is being
finished: the coroutine ends and the run is still active. -/
theorem run_outlives_cancelled_finish :
  ¬ ∀ (options : WorkerOptions) (stop : Bool) (ls : List (Label Unit Unit))
      (s : State Unit Unit) (ending : Ending Unit), 2 ≤ options.concurrency →
      (machine options).run (start options stop) ls = some s → s.pc = .exited ending →
      ∀ run ∈ s.loop.runs, run.isDone = true
  := by
  intro h
  have hdone := h ⟨2, none⟩ false
    [.claimed [()] [], .setStop, .claimed [] [], .resume [], .cancel]
    ⟨⟨true, [⟨(), .active⟩], [0], [⟨2, 2, false⟩, ⟨1, 1, false⟩]⟩,
      .exited (.error .cancelledError)⟩
    (.error .cancelledError) (by decide) rfl rfl ⟨(), .active⟩ (by simp)
  cases hdone

/-! ### Conservation -/

/-- In an execution that is not cancelled: no more runs are unfinished than the
concurrency allows; the runs are the tasks the claims returned, each started once; every
claim is made before a stop, for at most the free capacity and at least one task, or for
the batch size when that is negative; and a coroutine that has ended has only done runs. -/
theorem window_conserved (options : WorkerOptions) (hC : 2 ≤ options.concurrency) {stop : Bool}
    {ls : List (Label Claimed Failure)} {s : State Claimed Failure}
    (hcancel : .cancel ∉ ls)
    (hrun : (machine options).run (start options stop) ls = some s) :
  (unfinished s.loop.runs).length ≤ options.concurrency
    ∧ s.loop.runs.map Run.claimed = ls.flatMap Label.returned
    ∧ (∀ call ∈ s.loop.calls, call.stopped = false ∧ call.asked ≤ call.free
        ∧ (1 ≤ call.asked ∨ ∃ n < 0, options.batchSize = some n ∧ call.asked = n))
    ∧ (∀ ending, s.pc = .exited ending → ∀ run ∈ s.loop.runs, run.isDone = true)
  := by
  have hheld := held_run hC hrun
  refine ⟨?_, ?_, ?_, ?_⟩
  · have hle := hheld.window.unfinished_le
    have hfits := hheld.window.fits
    omega
  · have hclaimed := claimed_run hrun
    rwa [show (start options stop : State Claimed Failure).loop.claimed = [] from
      claimed_head _ _, List.nil_append] at hclaimed
  · intro call hcall
    obtain ⟨hstop, hfree, hone⟩ := hheld.window.calls call hcall
    apply And.intro hstop (And.intro hfree hone)
  · intro ending hexited
    apply (allDone_iff_settled hheld hexited).mpr
    apply (settled_run_iff (settled_start stop) hrun).mpr
    apply Machine.along_of_forall
    intro s l hl habandons
    cases l with
    | cancel => apply hcancel hl
    | _ => cases habandons

/-- One run in flight and a stop, up to the end of the coroutine. -/
theorem window_conserved_stop :
  (unfinished [(⟨(), .done (.ok ())⟩ : Run Unit Unit)]).length ≤ (2 : ℤ)
    ∧ [(⟨(), .done (.ok ())⟩ : Run Unit Unit)].map Run.claimed = [()]
  := by
  have hrun : Machine.run (machine ⟨2, none⟩) (start ⟨2, none⟩ false : State Unit Unit)
      [.claimed [()] [], .setStop, .claimed [] [], .resume [], .endRun 0 (.ok ()), .resume [],
        .resume [0]]
      = some ⟨⟨true, [⟨(), .done (.ok ())⟩], [0], [⟨2, 2, false⟩, ⟨1, 1, false⟩]⟩,
          .exited (.ok ())⟩ := rfl
  have h := window_conserved ⟨2, none⟩ (by decide) (by simp) hrun
  apply And.intro h.1 h.2.1

/-- With the batch size `-1` the first claim asks for `-1` tasks. -/
theorem claim_below_one :
  ¬ ∀ (options : WorkerOptions) (stop : Bool) (ls : List (Label Unit Unit))
      (s : State Unit Unit), 2 ≤ options.concurrency → .cancel ∉ ls →
      (machine options).run (start options stop) ls = some s →
      ∀ call ∈ s.loop.calls, 1 ≤ call.asked
  := by
  intro h
  have hasked := h ⟨2, some (-1)⟩ false [] (start ⟨2, some (-1)⟩ false) (by decide) (by simp) rfl
    ⟨-1, 2, false⟩ List.mem_cons_self
  simp at hasked

end DjangoAbsurd.Worker
