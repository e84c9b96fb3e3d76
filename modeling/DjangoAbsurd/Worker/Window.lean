import Mathlib.Data.List.Nodup
import DjangoAbsurd.Worker.Loop

/-!
# The window of the worker loop

`Window` holds of the coroutine between any two instructions: every run that is not done
is in the executing set, and the set with what a pending claim may add fits the
concurrency. `Settled` says that a coroutine that gathers or has ended has no executing
run left, and fails only where a cancellation ends `asyncio.wait`.
-/

namespace DjangoAbsurd.Worker

variable {Claimed Failure : Type}

/-! ### The runs that are not done -/

theorem mem_unfinished {runs : List (Run Claimed Failure)} {i : ℕ} :
  i ∈ unfinished runs ↔ i < runs.length ∧ ending? runs i = none
  := by
  simp [unfinished]

theorem nodup_unfinished (runs : List (Run Claimed Failure)) :
  (unfinished runs).Nodup
  := by
  apply List.Nodup.filter
  apply List.nodup_range

theorem ending?_eq_none {runs : List (Run Claimed Failure)} {i : ℕ} {run : Run Claimed Failure}
    (h : runs[i]? = some run) :
  ending? runs i = none ↔ run.isDone = false
  := by
  obtain ⟨claimed, status⟩ := run
  cases status <;> simp [ending?, h, Run.isDone]

/-- The runs are all done when none of them is unfinished. -/
theorem allDone_iff {runs : List (Run Claimed Failure)} :
  (∀ run ∈ runs, run.isDone = true) ↔ unfinished runs = []
  := by
  rw [List.eq_nil_iff_forall_not_mem]
  constructor
  · intro h i hi
    obtain ⟨hlt, hnone⟩ := mem_unfinished.mp hi
    have hdone := (ending?_eq_none (List.getElem?_eq_getElem hlt)).mp hnone
    rw [h _ (List.getElem_mem hlt)] at hdone
    cases hdone
  · intro h run hrun
    obtain ⟨i, hlt, rfl⟩ := List.getElem_of_mem hrun
    by_contra hdone
    apply h i
    apply mem_unfinished.mpr
    use hlt
    rw [ending?_eq_none (List.getElem?_eq_getElem hlt)]
    simpa using hdone

/-- Ending a run leaves no run unfinished that was not. -/
theorem unfinished_set_subset {runs : List (Run Claimed Failure)} {i : ℕ} {claimed : Claimed}
    {ending : Ending Failure} :
  unfinished (runs.set i ⟨claimed, .done ending⟩) ⊆ unfinished runs
  := by
  intro j hj
  obtain ⟨hlt, hnone⟩ := mem_unfinished.mp hj
  rw [List.length_set] at hlt
  apply mem_unfinished.mpr
  use hlt
  by_cases hij : i = j
  · subst hij
    simp [ending?, hlt] at hnone
  · rwa [ending?, List.getElem?_set_ne hij] at hnone

/-- Asking runs to cancel ends none of them. -/
theorem ending?_mapIdx_cancel (runs : List (Run Claimed Failure)) (executing : List ℕ) (i : ℕ) :
  ending? (runs.mapIdx (fun i run => if i ∈ executing then run.cancel else run)) i
    = ending? runs i
  := by
  rw [ending?, ending?, List.getElem?_mapIdx]
  cases runs[i]? with
  | none => rfl
  | some run =>
      obtain ⟨claimed, status⟩ := run
      by_cases hi : i ∈ executing <;> cases status <;> simp [hi, Run.cancel]

theorem unfinished_mapIdx_cancel (runs : List (Run Claimed Failure)) (executing : List ℕ) :
  unfinished (runs.mapIdx (fun i run => if i ∈ executing then run.cancel else run))
    = unfinished runs
  := by
  simp only [unfinished, List.length_mapIdx, ending?_mapIdx_cancel]

/-- The runs created for claimed tasks are the only ones that become unfinished. -/
theorem unfinished_append_subset {runs new : List (Run Claimed Failure)} :
  unfinished (runs ++ new) ⊆ unfinished runs ++ List.range' runs.length new.length
  := by
  intro i hi
  obtain ⟨hlt, hnone⟩ := mem_unfinished.mp hi
  rw [List.length_append] at hlt
  rw [List.mem_append, mem_unfinished, List.mem_range'_1]
  by_cases hi : i < runs.length
  · left
    use hi
    rwa [ending?, List.getElem?_append_left hi] at hnone
  · right
    omega

/-! ### The window -/

/-- A claim is made before a stop, for at most the free capacity, and for at least one
task unless the batch size is negative and asks for itself. -/
structure ClaimCall.Valid (options : WorkerOptions) (call : ClaimCall) : Prop where
  before_stop : call.stopped = false
  le_free : call.asked ≤ call.free
  one_le : 1 ≤ call.asked ∨ ∃ n < 0, options.batchSize = some n ∧ call.asked = n

/-- Every run that is not done is executing, and the window fits the concurrency. -/
structure Window (options : WorkerOptions) (w : Loop Claimed Failure) : Prop where
  owned : unfinished w.runs ⊆ w.executing
  created : ∀ i ∈ w.executing, i < w.runs.length
  nodup : w.executing.Nodup
  fits : w.executing.length ≤ options.concurrency
  calls : ∀ call ∈ w.calls, call.Valid options

/-- The window of a suspended coroutine still fits the concurrency when a pending claim
returns. -/
structure Held (options : WorkerOptions) (s : State Claimed Failure) : Prop where
  window : Window options s.loop
  claim : ∀ n, s.pc = .claiming n → s.loop.executing.length + max n 1 ≤ options.concurrency

namespace Window

variable {options : WorkerOptions} {w : Loop Claimed Failure}

/-- No more runs are unfinished than are executing. -/
theorem unfinished_le (h : Window options w) :
  (unfinished w.runs).length ≤ w.executing.length
  := by
  apply List.Subperm.length_le
  apply List.subperm_of_subset (nodup_unfinished w.runs) h.owned

/-- Suspending at an await that is not a claim. -/
theorem held (h : Window options w) {pc : Pc Failure} (hpc : ∀ n, pc ≠ .claiming n) :
  Held options ⟨w, pc⟩
  := ⟨h, fun n hn => absurd hn (hpc n)⟩

/-- Dropping a run that is done from the window. -/
theorem erase (h : Window options w) {i : ℕ} (hi : ending? w.runs i ≠ none) :
  Window options { w with executing := w.executing.erase i }
  where
  owned := by
    intro j hj
    have hne : j ≠ i := by
      rintro rfl
      exact hi (mem_unfinished.mp hj).2
    exact (List.mem_erase_of_ne hne).mpr (h.owned hj)
  created j hj := h.created j (List.mem_of_mem_erase hj)
  nodup := h.nodup.erase i
  fits := by
    have hfits := h.fits
    have hlen := (List.erase_sublist (a := i) (l := w.executing)).length_le
    dsimp only
    omega
  calls := h.calls

theorem reapFinishedRuns (h : Window options w) {entries : List ℕ}
    (hdone : ∀ i ∈ entries, ending? w.runs i ≠ none) :
  Window options (w.reapFinishedRuns entries).1
  := by
  induction entries generalizing w with
  | nil => exact h
  | cons i entries ih =>
      have herase := h.erase (hdone i List.mem_cons_self)
      unfold Loop.reapFinishedRuns
      dsimp only
      split
      · exact herase
      · apply ih herase
        intro j hj
        exact hdone j (List.mem_cons_of_mem i hj)

theorem enterFinally (h : Window options w) (pending : Ending Failure) :
  Held options (w.enterFinally pending)
  := by
  unfold Loop.enterFinally
  split
  · apply h.held
    intro n hn
    cases hn
  · apply h.held
    intro n hn
    cases hn

theorem cancelRuns (h : Window options w) :
  Window options w.cancelRuns
  where
  owned := by
    rw [Loop.cancelRuns, unfinished_mapIdx_cancel]
    exact h.owned
  created := by
    intro i hi
    rw [Loop.cancelRuns, List.length_mapIdx]
    exact h.created i hi
  nodup := h.nodup
  fits := h.fits
  calls := h.calls

theorem cancelAndDrainRuns (h : Window options w) :
  Held options w.cancelAndDrainRuns
  := by
  unfold Loop.cancelAndDrainRuns
  split
  · apply h.enterFinally
  · apply h.cancelRuns.held
    intro n hn
    cases hn

theorem raiseInLoop (h : Window options w) (raised : Raised Failure) :
  Held options (w.raiseInLoop raised)
  := by
  cases raised with
  | cancelledError => exact h.cancelAndDrainRuns
  | failure e => exact h.enterFinally _

/-- What a claim asks for: at least one task, or the batch size when it is negative. -/
theorem one_le_asked {capacity : ℤ} (hcapacity : 1 ≤ capacity) (hC : 1 ≤ options.concurrency) :
  1 ≤ min options.effectiveBatchSize capacity
    ∨ ∃ n < 0, options.batchSize = some n ∧ min options.effectiveBatchSize capacity = n
  := by
  unfold WorkerOptions.effectiveBatchSize
  cases options.batchSize with
  | none =>
      left
      dsimp only
      omega
  | some n =>
      dsimp only
      rcases Int.lt_trichotomy n 0 with hn | rfl | hn
      · right
        use n, hn, rfl
        rw [if_neg (by omega)]
        omega
      · left
        rw [if_pos rfl]
        omega
      · left
        rw [if_neg (by omega)]
        omega

theorem claimTasks (h : Window options w) (hstop : w.stop = false)
    (hcapacity : 1 ≤ options.concurrency - w.executing.length) :
  Held options (w.claimTasks options
    (min options.effectiveBatchSize (options.concurrency - w.executing.length)))
  where
  window := by
    refine ⟨h.owned, h.created, h.nodup, h.fits, ?_⟩
    intro call hcall
    rcases List.mem_append.mp hcall with hcall | hcall
    · exact h.calls call hcall
    · obtain rfl := List.mem_singleton.mp hcall
      have hle := h.unfinished_le
      constructor
      · exact hstop
      · simp only [Loop.free]
        omega
      · apply one_le_asked hcapacity
        omega
  claim := by
    rintro n hn
    cases hn
    simp only [Loop.claimTasks]
    omega

theorem stop_reapFinishedRuns (w : Loop Claimed Failure) (entries : List ℕ) :
  (w.reapFinishedRuns entries).1.stop = w.stop
  := by
  induction entries generalizing w with
  | nil => rfl
  | cons i entries ih =>
      unfold Loop.reapFinishedRuns
      dsimp only
      split
      · rfl
      · apply ih

theorem head (h : Window options w) {entries : List ℕ}
    (hdone : ∀ i ∈ entries, ending? w.runs i ≠ none) :
  Held options (w.head options entries)
  := by
  unfold Loop.head
  split
  · apply h.enterFinally
  · rename_i hstop
    have hreap := h.reapFinishedRuns hdone
    have hstop' := stop_reapFinishedRuns w entries
    generalize w.reapFinishedRuns entries = reaped at hreap hstop' ⊢
    obtain ⟨w', raised | _⟩ := reaped
    · exact hreap.raiseInLoop raised
    · dsimp only at hreap hstop' ⊢
      split
      · apply hreap.held
        intro n hn
        cases hn
      · apply hreap.claimTasks
        · rw [hstop']
          simpa using hstop
        · omega

theorem createRuns (h : Window options w) {tasks : List Claimed}
    (hfits : (w.executing.length : ℤ) + tasks.length ≤ options.concurrency) :
  Window options (w.createRuns tasks)
  where
  owned := by
    intro i hi
    have hmem := unfinished_append_subset hi
    rw [List.length_map] at hmem
    apply List.mem_append.mpr
    rcases List.mem_append.mp hmem with hmem | hmem
    · exact .inl (h.owned hmem)
    · exact .inr hmem
  created := by
    intro i hi
    rw [Loop.createRuns, List.length_append, List.length_map]
    rcases List.mem_append.mp hi with hi | hi
    · have := h.created i hi
      omega
    · rw [List.mem_range'_1] at hi
      omega
  nodup := by
    apply List.Nodup.append h.nodup List.nodup_range'
    intro i hi hi'
    have := h.created i hi
    rw [List.mem_range'_1] at hi'
    omega
  fits := by
    rw [Loop.createRuns, List.length_append, List.length_range']
    omega
  calls := h.calls

/-- The window can be cleared once every executing run is done. -/
theorem clear (h : Window options w) (hdone : w.ExecutingDone) :
  Window options { w with executing := [] }
  where
  owned := by
    intro i hi
    have hnone := (mem_unfinished.mp hi).2
    have hsome := hdone i (h.owned hi)
    rw [hnone] at hsome
    cases hsome
  created := by simp
  nodup := List.nodup_nil
  fits := by
    have := h.fits
    rw [List.length_nil]
    omega
  calls := h.calls

theorem setStop (h : Window options w) :
  Window options w.setStop
  := ⟨h.owned, h.created, h.nodup, h.fits, h.calls⟩

theorem endRun (h : Window options w) {i : ℕ} {ending : Ending Failure}
    {w' : Loop Claimed Failure} (hw : w.endRun i ending = some w') :
  Window options w'
  := by
  unfold Loop.endRun at hw
  split at hw
  · cases hw
  · obtain rfl := Option.some.inj hw
    refine ⟨?_, ?_, h.nodup, h.fits, h.calls⟩
    · intro j hj
      exact h.owned (unfinished_set_subset hj)
    · intro j hj
      rw [List.length_set]
      exact h.created j hj
  · cases hw

end Window

theorem executing_endRun {w w' : Loop Claimed Failure} {i : ℕ} {ending : Ending Failure}
    (hw : w.endRun i ending = some w') :
  w'.executing = w.executing
  := by
  unfold Loop.endRun at hw
  split at hw
  · cases hw
  · obtain rfl := Option.some.inj hw
    rfl
  · cases hw

/-- A run that is done stays done when another one ends. -/
theorem ending?_endRun {w w' : Loop Claimed Failure} {i j : ℕ} {ending : Ending Failure}
    (hw : w.endRun i ending = some w') (hj : (ending? w.runs j).isSome = true) :
  (ending? w'.runs j).isSome = true
  := by
  unfold Loop.endRun at hw
  split at hw
  · cases hw
  · rename_i hrun
    obtain rfl := Option.some.inj hw
    by_cases hij : i = j
    · subst hij
      obtain ⟨hlt, -⟩ := List.getElem?_eq_some_iff.mp hrun
      simp [ending?, hlt]
    · rwa [ending?, List.getElem?_set_ne hij]
  · cases hw

theorem ending?_ne_none_of_perm {w : Loop Claimed Failure} {entries : List ℕ}
    (h : entries.Perm w.finished) :
  ∀ i ∈ entries, ending? w.runs i ≠ none
  := by
  intro i hi
  have hmem := (h.mem_iff).mp hi
  rw [Loop.finished, List.mem_filter] at hmem
  intro hnone
  rw [hnone] at hmem
  cases hmem.2

end DjangoAbsurd.Worker
