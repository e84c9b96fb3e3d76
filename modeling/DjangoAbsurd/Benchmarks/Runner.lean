import DjangoAbsurd.Library.Machine
import Mathlib.Data.List.Perm.Basic
import Mathlib.Data.List.Range

/-!
# Starting the worker processes

`start_workers` launches its children at once and then waits for each to report readiness. A
child is in `launched` until it is waited for and in `started` once it is ready; between the
two, and between its launch and the first, it is in flight, held by no list. An exception can
strike between any two statements, and a child may exit at any time.

The handler stops the workers in `started` and then kills those in `launched`. Stopping raises
when a worker had already crashed, and then the killing is skipped.
-/

namespace DjangoAbsurd.Benchmarks

/-! ### Children -/

/-- A child process: it runs, it has exited, or it has been waited for after it exited. -/
inductive Child where
  | running
  | exited (code : ℤ)
  | reaped (code : ℤ)
  deriving DecidableEq, Repr

namespace Child

/-- `Popen.poll`: the exit code, if there is one. -/
def poll : Child → Option ℤ
  | .running => none
  | .exited code | .reaped code => some code

/-- `Popen.kill`. -/
def kill : Child → Child
  | .running => .exited (-9)
  | child => child

/-- `Popen.wait`, when the child has exited. -/
def wait : Child → Child
  | .exited code => .reaped code
  | child => child

/-- What becomes of a child that is sent SIGTERM if it runs, and waited for; `code` is what it
exits with, of the signal or of the kill after the timeout. -/
def stop (code : ℤ) : Child → Child
  | .running => .reaped code
  | child => child.wait

/-- The child is terminated and reaped. -/
def isReaped : Child → Bool
  | .reaped _ => true
  | _ => false

/-- The child exited, and not with 0. -/
def crashed (child : Child) : Bool := child.poll ∉ [none, some 0]

theorem isReaped_kill (child : Child) :
  child.kill.isReaped = child.isReaped
  := by
  cases child <;> rfl

theorem isReaped_wait_kill (child : Child) :
  child.kill.wait.isReaped = true
  := by
  cases child <;> rfl

theorem isReaped_stop (code : ℤ) (child : Child) :
  (child.stop code).isReaped = true
  := by
  cases child <;> rfl

end Child

/-- `stop_workers`: what becomes of the children, and the exit codes of the crashed workers it
raises with, if there are any. -/
def stopWorkers (codes : ℕ → ℤ) (workers : List ℕ) (children : ℕ → Child) :
    (ℕ → Child) × Except (List ℤ) Unit :=
  let crashed := workers.filter (fun pid => (children pid).crashed)
  (fun pid => if pid ∈ workers then (children pid).stop (codes pid) else children pid,
    if crashed ≠ [] then .error (crashed.filterMap (fun pid => (children pid).poll)) else .ok ())

/-- `kill_workers`. -/
def killWorkers (launched : List ℕ) (children : ℕ → Child) : ℕ → Child :=
  fun pid => if pid ∈ launched then (children pid).kill.wait else children pid

/-! ### The statements of `start_workers` -/

/-- Where `start_workers` is, with the child in flight. -/
inductive Phase where
  | launching
  | forked (pid : ℕ)
  | waiting
  | popped (pid : ℕ)
  | killed (pid : ℕ)
  | reaped (pid : ℕ)
  | ready (pid : ℕ)
  | returned
  | caught (inFlight : Option ℕ)
  | raised
  deriving DecidableEq, Repr

/-- The child no list holds. -/
def Phase.inFlight : Phase → Option ℕ
  | .forked pid | .popped pid | .killed pid | .reaped pid | .ready pid => some pid
  | .caught inFlight => inFlight
  | .launching | .waiting | .returned | .raised => none

/-- The exceptions of the phase reach the handler. -/
def Phase.inTry : Phase → Bool
  | .returned | .caught _ | .raised => false
  | _ => true

/-- What happens next: the next statement succeeds, the child being waited for reports
readiness or does not in time, an exception is raised, the handler runs, or some child exits. -/
inductive Happening where
  | next
  | ready
  | giveUp
  | exception
  | cleanUp (codes : ℕ → ℤ)
  | exits (pid : ℕ) (code : ℤ)

/-- The children launched so far, by number, and the two lists. -/
structure Fleet where
  born : ℕ
  children : ℕ → Child
  launched : List ℕ
  started : List ℕ
  phase : Phase

namespace Fleet

/-- Before the first statement. -/
def init : Fleet where
  born := 0
  children _ := .running
  launched := []
  started := []
  phase := .launching

/-- A change of one child. -/
def setChild (s : Fleet) (pid : ℕ) (change : Child → Child) : Fleet :=
  { s with children := Function.update s.children pid (change (s.children pid)) }

/-- The handler of `start_workers`. -/
def cleanUp (codes : ℕ → ℤ) (s : Fleet) : Fleet :=
  match stopWorkers codes s.started s.children with
  | (children, .error _) => { s with children, phase := .raised }
  | (children, .ok ()) =>
      { s with children := killWorkers s.launched children, phase := .raised }

/-- A statement of `start_workers` that succeeds. -/
def next (count : ℕ) (s : Fleet) : Option Fleet :=
  match s.phase with
  | .launching =>
      if s.launched.length < count then
        some { s with
          born := s.born + 1
          children := Function.update s.children s.born .running
          phase := .forked s.born }
      else some { s with phase := .waiting }
  | .forked pid => some { s with launched := s.launched ++ [pid], phase := .launching }
  | .waiting =>
      match s.launched with
      | [] => some { s with phase := .returned }
      | pid :: rest => some { s with launched := rest, phase := .popped pid }
  | .killed pid => some { s.setChild pid Child.wait with phase := .reaped pid }
  | .ready pid => some { s with started := s.started ++ [pid], phase := .waiting }
  | .popped _ | .reaped _ | .returned | .caught _ | .raised => none

/-- What may happen to a fleet. -/
def step (count : ℕ) (s : Fleet) : Happening → Option Fleet
  | .next => s.next count
  | .ready =>
      match s.phase with
      | .popped pid => some { s with phase := .ready pid }
      | _ => none
  | .giveUp =>
      match s.phase with
      | .popped pid => some { s.setChild pid Child.kill with phase := .killed pid }
      | _ => none
  | .exception =>
      if s.phase.inTry = true then some { s with phase := .caught s.phase.inFlight } else none
  | .cleanUp codes =>
      match s.phase with
      | .caught _ => some (s.cleanUp codes)
      | _ => none
  | .exits pid code =>
      if pid < s.born ∧ s.children pid = .running then
        some (s.setChild pid (fun _ => .exited code))
      else none

/-- `start_workers` of `count` workers. -/
def machine (count : ℕ) : Machine Fleet Happening := ⟨step count⟩

end Fleet

/-! ### Who holds a child -/

/-- The child that is to go into `launched`. -/
def Phase.forkedChild : Phase → Option ℕ
  | .forked pid => some pid
  | _ => none

namespace Fleet

/-- The children of the two lists, and the one in flight. -/
def held (s : Fleet) : List ℕ := s.launched ++ s.started ++ s.phase.inFlight.toList

/-- The children no statement has begun to wait for. -/
def unawaited (s : Fleet) : List ℕ := s.launched ++ s.phase.forkedChild.toList

/-- The handler has not run, every child is held once, and those not waited for are not
reaped. -/
structure Accounted (s : Fleet) : Prop where
  phase : s.phase ≠ .raised
  held : s.held.Perm (List.range s.born)
  unreaped : ∀ pid ∈ s.unawaited, (s.children pid).isReaped = false

theorem accounted_init :
  Accounted init
  := ⟨by simp [init], List.Perm.refl _, by simp [unawaited, init, Phase.forkedChild]⟩

theorem Accounted.lt_born {s : Fleet} (h : s.Accounted) {pid : ℕ} (hpid : pid ∈ s.held) :
  pid < s.born
  := List.mem_range.mp (h.held.mem_iff.mp hpid)

theorem Accounted.nodup {s : Fleet} (h : s.Accounted) :
  s.held.Nodup
  := h.held.nodup_iff.mpr List.nodup_range

/-- The child in flight is in neither list, and those of one list are not in the other. -/
theorem Accounted.disjoint {s : Fleet} (h : s.Accounted) :
  (∀ pid, s.phase.inFlight = some pid → pid ∉ s.launched ∧ pid ∉ s.started)
    ∧ ∀ pid ∈ s.launched, pid ∉ s.started
  := by
  have hnodup := h.nodup
  rw [Fleet.held, List.nodup_append, List.nodup_append] at hnodup
  obtain ⟨⟨-, -, hlists⟩, -, hflight⟩ := hnodup
  constructor
  · intro pid hpid
    constructor
    · intro hlaunched
      exact hflight pid (List.mem_append_left _ hlaunched) pid (by simp [hpid]) rfl
    · intro hstarted
      exact hflight pid (List.mem_append_right _ hstarted) pid (by simp [hpid]) rfl
  · intro pid hlaunched hstarted
    exact hlists pid hlaunched pid hstarted rfl

theorem isReaped_setChild {s : Fleet} {pid pid' : ℕ} {change : Child → Child}
    (h : (s.children pid').isReaped = false)
    (hchange : pid' = pid → (change (s.children pid)).isReaped = false) :
  ((s.setChild pid change).children pid').isReaped = false
  := by
  simp only [setChild, Function.update_apply]
  split
  · exact hchange ‹_›
  · exact h

/-- A step that launches no child keeps the account when it leaves the same children held and
waits for none of the unawaited. -/
theorem Accounted.of_perm {s s' : Fleet} (h : s.Accounted) (hphase : s'.phase ≠ .raised)
    (hborn : s'.born = s.born)
    (hheld : s'.held.Perm s.held) (hsub : s'.unawaited ⊆ s.unawaited)
    (hchildren : ∀ pid ∈ s'.unawaited,
      (s.children pid).isReaped = false → (s'.children pid).isReaped = false) :
  s'.Accounted
  := by
  refine ⟨hphase, ?_, ?_⟩
  · rw [hborn]
    exact hheld.trans h.held
  · intro pid hpid
    exact hchildren pid hpid (h.unreaped pid (hsub hpid))

theorem accounted_fork {s : Fleet} (h : s.Accounted) (hphase : s.phase = .launching) :
  Accounted { s with
    born := s.born + 1
    children := Function.update s.children s.born .running
    phase := .forked s.born }
  := by
  refine ⟨by simp, ?_, ?_⟩
  · have hheld : s.held = s.launched ++ s.started := by simp [held, hphase, Phase.inFlight]
    rw [List.range_succ]
    exact (hheld ▸ h.held).append_right [s.born]
  · intro pid hpid
    simp only [Function.update_apply]
    split
    · rfl
    · rename_i hne
      apply h.unreaped
      simpa [unawaited, hphase, Phase.forkedChild, hne] using hpid

theorem accounted_next {count : ℕ} {s s' : Fleet} (h : s.next count = some s')
    (hs : s.Accounted) :
  s'.Accounted
  := by
  rw [next] at h
  cases hphase : s.phase with
  | launching =>
      simp only [hphase] at h
      split at h
      · obtain rfl := Option.some.inj h
        exact accounted_fork hs hphase
      · obtain rfl := Option.some.inj h
        refine hs.of_perm (by simp) rfl ?_ ?_ ?_
        · simp [held, hphase, Phase.inFlight]
        · simp [unawaited, Phase.forkedChild]
        · simp
  | forked pid =>
      simp only [hphase, Option.some.injEq] at h
      subst h
      refine hs.of_perm (by simp) rfl ?_ ?_ ?_
      · simp only [held, hphase, Phase.inFlight, Option.toList_some, Option.toList_none,
          List.append_nil, List.append_assoc]
        exact (List.perm_append_comm).append_left s.launched
      · simp [unawaited, hphase, Phase.forkedChild]
      · simp
  | waiting =>
      simp only [hphase] at h
      cases hlaunched : s.launched with
      | nil =>
          simp only [hlaunched, Option.some.injEq] at h
          subst h
          refine hs.of_perm (by simp) rfl ?_ ?_ ?_
          · simp [held, hphase, hlaunched, Phase.inFlight]
          · simp [unawaited, hlaunched, Phase.forkedChild]
          · simp
      | cons pid rest =>
          simp only [hlaunched, Option.some.injEq] at h
          subst h
          refine hs.of_perm (by simp) rfl ?_ ?_ ?_
          · simp only [held, hphase, hlaunched, Phase.inFlight, Option.toList_some,
              Option.toList_none, List.append_nil]
            exact List.perm_append_singleton pid _
          · simp [unawaited, hlaunched, Phase.forkedChild]
          · simp
  | killed pid =>
      simp only [hphase, Option.some.injEq] at h
      subst h
      refine hs.of_perm (by simp) rfl ?_ ?_ ?_
      · simp [held, setChild, hphase, Phase.inFlight]
      · simp [unawaited, setChild, Phase.forkedChild]
      · intro pid' hpid' hunreaped
        apply isReaped_setChild hunreaped
        rintro rfl
        refine absurd ?_ (hs.disjoint.1 pid' (by rw [hphase, Phase.inFlight])).1
        simpa [unawaited, setChild, Phase.forkedChild] using hpid'
  | ready pid =>
      simp only [hphase, Option.some.injEq] at h
      subst h
      refine hs.of_perm (by simp) rfl ?_ ?_ ?_
      · simp [held, hphase, Phase.inFlight]
      · simp [unawaited, Phase.forkedChild]
      · simp
  | popped pid => simp [hphase] at h
  | reaped pid => simp [hphase] at h
  | returned => simp [hphase] at h
  | caught inFlight => simp [hphase] at h
  | raised => simp [hphase] at h

/-- The handler is run where an exception was caught; every other step keeps the account of
the children. -/
theorem accounted_step {count : ℕ} {s s' : Fleet} {l : Happening}
    (h : step count s l = some s') (hs : s.Accounted) :
  (∃ codes, l = .cleanUp codes ∧ s' = s.cleanUp codes) ∨ s'.Accounted
  := by
  cases l with
  | next => exact .inr (accounted_next h hs)
  | ready =>
      simp only [step] at h
      split at h
      · rename_i pid hphase
        obtain rfl := Option.some.inj h
        refine .inr (hs.of_perm (by simp) rfl ?_ ?_ ?_)
        · simp [held, hphase, Phase.inFlight]
        · simp [unawaited, Phase.forkedChild]
        · simp
      · cases h
  | giveUp =>
      simp only [step] at h
      split at h
      · rename_i pid hphase
        obtain rfl := Option.some.inj h
        refine .inr (hs.of_perm (by simp) rfl ?_ ?_ ?_)
        · simp [held, setChild, hphase, Phase.inFlight]
        · simp [unawaited, setChild, Phase.forkedChild]
        · intro pid' _ hunreaped
          apply isReaped_setChild hunreaped
          rintro rfl
          rwa [Child.isReaped_kill]
      · cases h
  | exception =>
      simp only [step] at h
      split at h
      · obtain rfl := Option.some.inj h
        refine .inr (hs.of_perm (by simp) rfl ?_ ?_ ?_)
        · simp [held, Phase.inFlight]
        · simp [unawaited, Phase.forkedChild]
        · simp
      · cases h
  | cleanUp codes =>
      simp only [step] at h
      split at h
      · exact .inl ⟨codes, rfl, (Option.some.inj h).symm⟩
      · cases h
  | exits pid code =>
      simp only [step] at h
      split at h
      · obtain rfl := Option.some.inj h
        refine .inr (hs.of_perm hs.phase rfl ?_ ?_ ?_)
        · exact List.Perm.refl _
        · exact List.Subset.refl _
        · intro pid' _ hunreaped
          exact isReaped_setChild hunreaped (fun _ => rfl)
      · cases h

/-! ### What the handler leaves -/

/-- Every child launched is terminated and reaped. -/
def AllReaped (s : Fleet) : Prop := ∀ pid < s.born, (s.children pid).isReaped = true

/-- When the exception is caught no child is in flight that was not waited for, and no worker
has crashed while others are still in `launched`. -/
def Recoverable (s : Fleet) : Prop :=
  (∀ pid, s.phase.inFlight = some pid → (s.children pid).isReaped = true)
    ∧ (s.launched = [] ∨ ∀ pid ∈ s.started, (s.children pid).crashed = false)

/-- The children once the workers in `started` were stopped. -/
def stopped (codes : ℕ → ℤ) (s : Fleet) (pid : ℕ) : Child :=
  if pid ∈ s.started then (s.children pid).stop (codes pid) else s.children pid

theorem cleanUp_of_crashed (codes : ℕ → ℤ) {s : Fleet}
    (h : ∃ pid ∈ s.started, (s.children pid).crashed = true) :
  s.cleanUp codes = { s with children := s.stopped codes, phase := .raised }
  := by
  have hne : s.started.filter (fun pid => (s.children pid).crashed) ≠ [] := by
    simpa using h
  simp only [cleanUp, stopWorkers, if_pos hne]
  rfl

theorem cleanUp_of_not_crashed (codes : ℕ → ℤ) {s : Fleet}
    (h : ∀ pid ∈ s.started, (s.children pid).crashed = false) :
  s.cleanUp codes
    = { s with children := killWorkers s.launched (s.stopped codes), phase := .raised }
  := by
  have hnil : ¬ s.started.filter (fun pid => (s.children pid).crashed) ≠ [] := by
    simpa using h
  simp only [cleanUp, stopWorkers, if_neg hnil]
  rfl

/-- A child in neither list is left as it was. -/
theorem cleanUp_children_of_not_mem (codes : ℕ → ℤ) {s : Fleet} {pid : ℕ}
    (hlaunched : pid ∉ s.launched) (hstarted : pid ∉ s.started) :
  (s.cleanUp codes).children pid = s.children pid
  := by
  by_cases h : ∃ pid ∈ s.started, (s.children pid).crashed = true
  · rw [cleanUp_of_crashed codes h]
    exact if_neg hstarted
  · rw [cleanUp_of_not_crashed codes (by simpa using h)]
    simp only [killWorkers, if_neg hlaunched]
    exact if_neg hstarted

/-- A started worker is stopped and reaped. -/
theorem isReaped_cleanUp_of_started (codes : ℕ → ℤ) {s : Fleet} {pid : ℕ}
    (hlaunched : pid ∉ s.launched) (hstarted : pid ∈ s.started) :
  ((s.cleanUp codes).children pid).isReaped = true
  := by
  have hstopped : (s.stopped codes pid).isReaped = true := by
    rw [stopped, if_pos hstarted]
    exact Child.isReaped_stop _ _
  by_cases h : ∃ pid ∈ s.started, (s.children pid).crashed = true
  · rw [cleanUp_of_crashed codes h]
    exact hstopped
  · rw [cleanUp_of_not_crashed codes (by simpa using h)]
    simpa only [killWorkers, if_neg hlaunched] using hstopped

/-- What the handler makes of the children when it runs. -/
theorem Accounted.allReaped_cleanUp_iff {s : Fleet} (hs : s.Accounted) (codes : ℕ → ℤ) :
  (s.cleanUp codes).AllReaped ↔ s.Recoverable
  := by
  have hborn : (s.cleanUp codes).born = s.born := by
    rw [cleanUp]
    split <;> rfl
  have hunreaped : ∀ pid ∈ s.launched, (s.children pid).isReaped = false :=
    fun pid hpid => hs.unreaped pid (List.mem_append_left _ hpid)
  rw [AllReaped, hborn]
  constructor
  · intro h
    constructor
    · intro pid hpid
      obtain ⟨hlaunched, hstarted⟩ := hs.disjoint.1 pid hpid
      rw [← cleanUp_children_of_not_mem codes hlaunched hstarted]
      exact h pid (hs.lt_born (by simp [Fleet.held, hpid]))
    · by_contra hleak
      rw [not_or, List.eq_nil_iff_forall_not_mem] at hleak
      simp only [not_forall, Bool.not_eq_false, exists_prop, not_not] at hleak
      obtain ⟨⟨pid, hpid⟩, hcrashed⟩ := hleak
      have hreaped := h pid (hs.lt_born (by simp [Fleet.held, hpid]))
      rw [cleanUp_of_crashed codes hcrashed] at hreaped
      simp only [stopped, if_neg (hs.disjoint.2 pid hpid), hunreaped pid hpid] at hreaped
      cases hreaped
  · rintro ⟨hflight, hlists⟩ pid hpid
    have hheld : pid ∈ s.held := hs.held.mem_iff.mpr (List.mem_range.mpr hpid)
    simp only [Fleet.held, List.mem_append, Option.mem_toList, or_assoc] at hheld
    rcases hheld with hlaunched | hstarted | hpid
    · have hcrashed := hlists.resolve_left (List.ne_nil_of_mem hlaunched)
      rw [cleanUp_of_not_crashed codes hcrashed]
      simp only [killWorkers, if_pos hlaunched]
      exact Child.isReaped_wait_kill _
    · apply isReaped_cleanUp_of_started codes _ hstarted
      intro hlaunched
      exact hs.disjoint.2 pid hlaunched hstarted
    · obtain ⟨hlaunched, hstarted⟩ := hs.disjoint.1 pid hpid
      rw [cleanUp_children_of_not_mem codes hlaunched hstarted]
      exact hflight pid hpid

/-! ### Runs that raise -/

/-- The handler runs where nothing is lost. -/
def CleansUp (s : Fleet) (l : Happening) : Prop := ∀ codes, l = .cleanUp codes → s.Recoverable

/-- Once the handler has run, all that happens is that a child that was left exits. -/
theorem raised_step {count : ℕ} {s s' : Fleet} {l : Happening} (h : step count s l = some s')
    (hs : s.phase = .raised) :
  s'.phase = .raised ∧ ¬ s.AllReaped ∧ ¬ s'.AllReaped ∧ s.CleansUp l
  := by
  cases l with
  | exits pid code =>
      simp only [step] at h
      split at h
      · rename_i hpid
        obtain rfl := Option.some.inj h
        refine ⟨hs, ?_, ?_, ?_⟩
        · intro hreaped
          have hchild := hreaped pid hpid.1
          rw [hpid.2] at hchild
          cases hchild
        · intro hreaped
          have hchild := hreaped pid hpid.1
          simp only [setChild, Function.update_self] at hchild
          cases hchild
        · intro codes hl
          cases hl
      · cases h
  | _ => simp [step, next, hs, Phase.inTry] at h

theorem raised_run {count : ℕ} {ls : List Happening} {s s' : Fleet}
    (h : (machine count).run s ls = some s') (hs : s.phase = .raised) :
  (s'.AllReaped ↔ s.AllReaped) ∧ (machine count).Along CleansUp s ls
  := by
  induction ls generalizing s with
  | nil =>
      obtain rfl := Option.some.inj h
      exact ⟨Iff.rfl, trivial⟩
  | cons l ls ih =>
      obtain ⟨s₁, hstep, hrun⟩ := Machine.run_cons.mp h
      obtain ⟨hs₁, hleft, hleft₁, hclean⟩ := raised_step hstep hs
      obtain ⟨hiff, halong⟩ := ih hrun hs₁
      constructor
      · rw [hiff]
        exact iff_of_false hleft₁ hleft
      · exact (Machine.along_cons hstep).mpr ⟨hclean, halong⟩

theorem cleanUp_phase (codes : ℕ → ℤ) (s : Fleet) :
  (s.cleanUp codes).phase = .raised
  := by
  rw [cleanUp]
  split <;> rfl

/-- From a state with every child accounted for, a run that raises leaves every child reaped
when the handler ran where nothing was lost. -/
theorem Accounted.allReaped_iff {count : ℕ} {ls : List Happening} {s s' : Fleet}
    (hs : s.Accounted) (h : (machine count).run s ls = some s') (hraised : s'.phase = .raised) :
  s'.AllReaped ↔ (machine count).Along CleansUp s ls
  := by
  induction ls generalizing s with
  | nil =>
      obtain rfl := Option.some.inj h
      exact absurd hraised hs.phase
  | cons l ls ih =>
      obtain ⟨s₁, hstep, hrun⟩ := Machine.run_cons.mp h
      rw [Machine.along_cons hstep]
      rcases accounted_step hstep hs with ⟨codes, rfl, rfl⟩ | hs₁
      · obtain ⟨hiff, halong⟩ := raised_run hrun (cleanUp_phase codes s)
        rw [hiff, hs.allReaped_cleanUp_iff codes]
        constructor
        · intro hrecoverable
          exact ⟨fun _ _ => hrecoverable, halong⟩
        · rintro ⟨hclean, -⟩
          exact hclean codes rfl
      · rw [ih hs₁ hrun, iff_and_self]
        rintro - codes rfl
        simp only [machine, step] at hstep
        split at hstep
        · rw [← Option.some.inj hstep] at hs₁
          exact absurd (cleanUp_phase codes s) hs₁.phase
        · cases hstep

/-- When `start_workers` raises, every child it launched is terminated and reaped exactly when
the exception was caught with no unreaped child in flight, and with no crashed worker or none
left in `launched`. -/
theorem startWorkers_allReaped_iff {count : ℕ} {ls : List Happening} {s : Fleet}
    (h : (machine count).run init ls = some s) (hraised : s.phase = .raised) :
  s.AllReaped ↔ (machine count).Along CleansUp init ls
  := accounted_init.allReaped_iff h hraised

/-- A child is launched and goes into `launched`. -/
def launchOne : List Happening := [.next, .next]

/-- One worker that exits before it is ready. -/
def oneExits : List Happening :=
  launchOne ++ [.next, .next, .exits 0 1, .giveUp, .next, .exception, .cleanUp (fun _ => 0)]

/-- The worker that exited was waited for, so nothing was in flight when the handler ran. -/
theorem startWorkers_allReaped_oneExits :
  ∃ s, (machine 1).run init oneExits = some s ∧ s.AllReaped
    ∧ (machine 1).Along CleansUp init oneExits
  := by
  obtain ⟨s, hrun⟩ : ∃ s, (machine 1).run init oneExits = some s := ⟨_, rfl⟩
  have hphase : s.phase = .raised := by
    cases hrun
    rfl
  have hreaped : s.AllReaped := by
    intro pid hpid
    cases hrun
    rw [Nat.lt_one_iff.mp hpid]
    rfl
  exact ⟨s, hrun, hreaped, (startWorkers_allReaped_iff hrun hphase).mp hreaped⟩

/-- Three workers: the first is ready and then exits with 1, the second exits before it is
ready, and the third is left running. -/
theorem crashedWorker_leaks :
  ¬ ∀ (count : ℕ) (ls : List Happening) (s : Fleet), (machine count).run init ls = some s →
    s.phase = .raised → s.AllReaped
  := by
  intro h
  have hreaped := h 3 (launchOne ++ launchOne ++ launchOne ++ [.next, .next, .ready, .next, .next,
    .exits 0 1, .giveUp, .next, .exception, .cleanUp (fun _ => 0)]) _ rfl rfl 2 (by decide)
  cases hreaped

end Fleet

end DjangoAbsurd.Benchmarks
