import DjangoAbsurd.Worker.Announcements

/-!
# Acknowledged suspensions

Failures are announced alone as long as every suspension of a last attempt ends its handler:
then the run of a handler that may yet complete or suspend it is neither pending nor sleeping,
so no claim takes it and no other handler has it. Claims that expire, cancellations and crashes
do no harm.
-/

namespace DjangoAbsurd.Worker

open Engine

/-- A suspension of a last attempt ends its handler. -/
def Acknowledged (w : World) : Act → Prop
  | .suspends i call acknowledged => ∀ e, w.executions[i]? = some e →
      LastAttempt e.maxAttempts e.attempt → call.suspends w.queue e = true → acknowledged = true
  | _ => True

/-- The handler is at the last attempt, and may yet complete or suspend the run. -/
def Execution.HoldsLast (e : Execution) : Prop :=
  LastAttempt e.maxAttempts e.attempt ∧ e.phase.holds = true

/-- The last attempts that a handler holds are awake, and held by that handler alone. -/
structure Sole (executions : List Execution) (k : Lifecycle) : Prop where
  awake : ∀ e ∈ executions, e.HoldsLast → Awake k e.runId
  alone : ∀ (i j : ℕ) (e e' : Execution), executions[i]? = some e → executions[j]? = some e' →
    e.HoldsLast → e'.runId = e.runId → e'.phase.holds = true → j = i

section

variable {pg : Postgres} {E : List Execution} {k : Lifecycle} {s s' : QueueState}
  {e : Execution} {runId : Uuid}

/-- An `await_event` that does not suspend leaves the run awake. -/
theorem awake_suspension {call : Suspension} (hs : Engine.step pg s (call.label e) = some s')
    (hgoes : call.suspends s e = false) (hawake : Awake s.life runId) :
  Awake s'.life runId
  := by
  cases call with
  | sleep wakeAt => cases hgoes
  | await now stepName eventName timeout =>
      obtain ⟨hown, hs⟩ := step_eq_some.mp hs
      obtain ⟨⟨_, suspend, payload⟩, hawait, rfl⟩ :=
        Except.map_eq_ok (Except.toOption_eq_some.mp hs)
      rw [Suspension.suspends, hawait] at hgoes
      apply awake_lives _ hawake
      apply refines_awaitEvent _ _ _ hawait
      · intro r hr
        rw [Suspension.label, AwaitsOwn, hr] at hown
        simpa using hown
      · intro hsuspend
        cases hgoes.symm.trans hsuspend
      · exact fun _ _ _ _ _ _ => id

/-! ### Handlers -/

/-- What a list of handlers has after one of them came to another phase. -/
theorem getElem?_set_phase {i j : ℕ} {phase : Phase} {e' : Execution} (he : E[i]? = some e)
    (hphase : phase.holds = true → e.phase.holds = true)
    (hj : (E.set i { e with phase })[j]? = some e') :
  ∃ e₀, E[j]? = some e₀ ∧ e'.runId = e₀.runId ∧ (e'.phase.holds = true → e₀.phase.holds = true)
    ∧ (e'.HoldsLast → e₀.HoldsLast)
  := by
  by_cases hij : i = j
  · obtain rfl := hij
    rw [List.getElem?_set_self (List.getElem?_eq_some_iff.mp he).1] at hj
    obtain rfl := Option.some.inj hj
    exact ⟨e, he, rfl, hphase, fun h => ⟨h.1, hphase h.2⟩⟩
  · rw [List.getElem?_set_ne hij] at hj
    exact ⟨e', hj, rfl, id, id⟩

theorem Sole.set (h : Sole E k) {k' : Lifecycle} {i : ℕ} {phase : Phase} (he : E[i]? = some e)
    (hphase : phase.holds = true → e.phase.holds = true)
    (hawake : ∀ e' ∈ E.set i { e with phase }, e'.HoldsLast → Awake k' e'.runId) :
  Sole (E.set i { e with phase }) k'
  where
  awake := hawake
  alone := by
    intro j₁ j₂ e₁ e₂ h₁ h₂ hlast hrun hholds
    obtain ⟨e₁', h₁', hrun₁, -, hlast₁⟩ := getElem?_set_phase he hphase h₁
    obtain ⟨e₂', h₂', hrun₂, hholds₂, -⟩ := getElem?_set_phase he hphase h₂
    apply h.alone j₁ j₂ e₁' e₂' h₁' h₂' (hlast₁ hlast) _ (hholds₂ hholds)
    rw [← hrun₁, ← hrun₂, hrun]

/-- A step of a handler that does not suspend. -/
theorem sole_handle {w w' : World} {i : ℕ} {phases : List Phase}
    {call : Execution → Option Engine.Label} {next : Execution → Phase}
    (hsole : Sole w.executions w.queue.life) (h : w.handle pg i phases call next = some w')
    (hnext : ∀ e, w.executions[i]? = some e → e.phase ∈ phases →
      (next e).holds = true → e.phase.holds = true)
    (hcall : ∀ e l id, call e = some l → ¬ l.Pauses id) :
  Sole w'.executions w'.queue.life
  := by
  obtain ⟨e, s, he, hphase, hs, rfl⟩ := handle_eq_some h
  apply hsole.set he (hnext e he hphase)
  intro e' he' hlast
  obtain ⟨j, hj⟩ := List.mem_iff_getElem?.mp he'
  obtain ⟨e₀, he₀, hrun, -, hlast₀⟩ := getElem?_set_phase he (hnext e he hphase) hj
  rw [hrun]
  have hawake := hsole.awake e₀ (List.mem_of_getElem? he₀) (hlast₀ hlast)
  rcases hs with ⟨-, rfl⟩ | ⟨l, hl, hs⟩
  · exact hawake
  · exact awake_step hs (hcall e l _ hl) hawake

/-- A suspension that ends its handler, when it suspends a last attempt. -/
theorem sole_suspends {w w' : World} {i : ℕ} {call : Suspension} {acknowledged : Bool}
    (hsole : Sole w.executions w.queue.life)
    (hack : Acknowledged w (.suspends i call acknowledged))
    (h : w.step pg (.suspends i call acknowledged) = some w') :
  Sole w'.executions w'.queue.life
  := by
  rw [World.step] at h
  obtain ⟨e, s, he, hphase, hs, rfl⟩ := handle_eq_some h
  have hholds : e.phase.holds = true := holds_of_mem hphase rfl
  obtain ⟨l, hl, hs⟩ := hs.resolve_left (fun hnone => by cases hnone.1)
  obtain rfl := Option.some.inj hl
  apply hsole.set he (fun _ => hholds)
  intro e' he' hlast
  obtain ⟨j, hj⟩ := List.mem_iff_getElem?.mp he'
  by_cases hij : i = j
  · obtain rfl := hij
    rw [List.getElem?_set_self (List.getElem?_eq_some_iff.mp he).1] at hj
    obtain rfl := Option.some.inj hj
    have hgoes : call.suspends w.queue e = false := by
      apply Bool.eq_false_iff.mpr
      intro hsuspends
      have hover := hlast.2
      dsimp only at hover
      rw [if_pos ⟨hack e he hlast.1 hsuspends, hsuspends⟩] at hover
      cases hover
    exact awake_suspension hs hgoes (hsole.awake e (List.mem_of_getElem? he) ⟨hlast.1, hholds⟩)
  · rw [List.getElem?_set_ne hij] at hj
    apply awake_step hs _ (hsole.awake e' (List.mem_of_getElem? hj) hlast)
    intro hpauses
    have hrun : e.runId = e'.runId := by cases call <;> exact hpauses
    exact hij (hsole.alone j i e' e hj he hlast hrun hholds)

/-- What a claim delivers has the ids of the runs it took. -/
theorem map_runId_deliver (claimed : List Uuid) :
  ((claimed.filterMap (deliver s)).map Execution.runId).Sublist claimed
  := by
  induction claimed with
  | nil => exact .slnil
  | cons id claimed ih =>
      rw [List.filterMap_cons]
      cases hdeliver : deliver s id with
      | none => exact ih.cons id
      | some e =>
          obtain ⟨r, -, t, -, hid, -, hrun, -⟩ := deliver_eq_some hdeliver
          rw [List.map_cons, hrun, hid]
          exact ih.cons_cons id

/-- Two handlers of one run were given the same terms. -/
theorem lastAttempt_of_known {e' : Execution} {r : RunRow} {t : TaskRow} (he : e.Known k)
    (he' : e'.Known k) (hr : r ∈ k.runs.rows) (ht : t ∈ k.tasks.rows) (hown : t.taskId = r.taskId)
    (hrun : r.runId = e.runId) (hrun' : e'.runId = e.runId)
    (hlast : LastAttempt e.maxAttempts e.attempt) :
  LastAttempt e'.maxAttempts e'.attempt
  := by
  obtain ⟨htask, hattempt⟩ := he.run r hr hrun
  obtain ⟨htask', hattempt'⟩ := he'.run r hr (hrun.trans hrun'.symm)
  rw [← hattempt', hattempt, ← (he'.task t ht (hown.trans htask')).1,
    (he.task t ht (hown.trans htask)).1]
  exact hlast

/-- A claim takes no last attempt that a handler holds. -/
theorem sole_claim {w w' : World} {now : Time} {worker : String} {timeout qty : ℤ} (hw : w.Sound)
    (hsole : Sole w.executions w.queue.life)
    (h : w.step pg (.claim now worker timeout qty) = some w') :
  Sole w'.executions w'.queue.life
  := by
  have hknown := (continues_claim hw h).sound.known
  rw [World.step] at h
  split at h
  · cases h
  · rename_i s claimed hclaim
    cases h
    have hnodup := nodup_claimed hclaim
    have hstep := step_claim hclaim
    have hnew : ∀ e ∈ claimed.filterMap (deliver s), e.runId ∈ claimed :=
      fun e he => (map_runId_deliver claimed).subset (List.mem_map_of_mem he)
    have hold : ∀ e ∈ w.executions, e.HoldsLast → e.runId ∉ claimed :=
      fun e he hlast hmem => not_awake_of_claimed hclaim hmem (hsole.awake e he hlast)
    constructor
    · intro e he hlast
      rcases List.mem_append.mp he with hwas | hwas
      · exact awake_step hstep id (hsole.awake e hwas hlast)
      · use (hknown e he).runDrawn
        intro r hr hid hwaits
        rw [(running_of_claimed hclaim hr (hid ▸ hnew e hwas)).1] at hwaits
        rcases hwaits with hwaits | hwaits <;> cases hwaits
    · intro i j e e' hi hj hlast hrun hholds
      have hi' := List.mem_of_getElem? hi
      have hj' := List.mem_of_getElem? hj
      rw [List.getElem?_append] at hi hj
      split at hi
      · have hmem := List.mem_of_getElem? hi
        split at hj
        · exact hsole.alone i j e e' hi hj hlast hrun hholds
        · exact absurd (hrun ▸ hnew e' (List.mem_of_getElem? hj)) (hold e hmem hlast)
      · rename_i hle
        have hmem := List.mem_of_getElem? hi
        split at hj
        · obtain ⟨id, -, hdeliver⟩ := List.mem_filterMap.mp hmem
          obtain ⟨r, hr, t, ht, -, hown, hrun₀, -⟩ := deliver_eq_some hdeliver
          have hlast' : e'.HoldsLast := ⟨lastAttempt_of_known (hknown e hi') (hknown e' hj') hr ht
            hown hrun₀.symm hrun hlast.1, hholds⟩
          exact absurd (hrun ▸ hnew e hmem) (hold e' (List.mem_of_getElem? hj) hlast')
        · rename_i hle'
          have hids := (map_runId_deliver (s := s) claimed).nodup hnodup
          have heq : i - w.executions.length = j - w.executions.length := by
            apply (List.getElem?_inj _ hids).mp
            · rw [List.getElem?_map, List.getElem?_map, hi, hj, Option.map_some, Option.map_some,
                hrun]
            · rw [List.length_map]
              exact (List.getElem?_eq_some_iff.mp hi).1
          omega

/-- One step. -/
theorem sole_step {w w' : World} {a : Act} (hw : w.Sound)
    (hsole : Sole w.executions w.queue.life) (hack : Acknowledged w a)
    (h : w.step pg a = some w') :
  Sole w'.executions w'.queue.life
  := by
  cases a with
  | call l =>
      rw [World.step] at h
      split at h
      · rename_i hanyone
        obtain ⟨s, hs, rfl⟩ := Option.map_eq_some_iff.mp h
        refine ⟨fun e he hlast => awake_step hs ?_ (hsole.awake e he hlast), hsole.alone⟩
        intro hpauses
        cases l with
        | schedule | await => cases hanyone
        | _ => exact hpauses
      · cases h
  | claim => exact sole_claim hw hsole h
  | suspends => exact sole_suspends hsole hack h
  | returns i =>
      rw [World.step] at h
      apply sole_handle hsole h
      · intro e _ hphase _
        exact holds_of_mem hphase rfl
      · rintro e l id ⟨⟩
  | raises i x =>
      obtain ⟨w₁, hhandle, rfl⟩ := Option.map_eq_some_iff.mp h
      apply sole_handle hsole hhandle
      · intro e _ _ hholds
        rw [not_holds_afterRaise] at hholds
        cases hholds
      · rintro e l id ⟨⟩
  | stops i =>
      rw [World.step] at h
      apply sole_handle hsole h
      · rintro e _ _ ⟨⟩
      · rintro e l id ⟨⟩
  | completes i now payload | fails i now reason retryAt =>
      rw [World.step] at h
      apply sole_handle hsole h
      · rintro e _ _ ⟨⟩
      · intro e l id hl hpauses
        cases hl
        exact hpauses

/-- A handler that holds its last attempt alone announces its failure alone. -/
theorem announcesAlone_of_sole {w : World} {a : Act} (hsole : Sole w.executions w.queue.life) :
  AnnouncesAlone w a
  := by
  cases a with
  | raises i x =>
      intro e he hexecuting hannounces r hr hrun ha
      have hlast : e.HoldsLast := by
        constructor
        · rw [← isTerminalAttempt_iff]
          exact (Bool.and_eq_true_iff.mp hannounces).2
        · rw [hexecuting]
          rfl
      constructor
      · have hawake := (hsole.awake e (List.mem_of_getElem? he) hlast).2 r hr hrun
        rw [not_or] at hawake
        rw [RunRow.Active] at ha
        cases hstate : r.state with
        | running => rfl
        | pending => exact absurd hstate hawake.1
        | sleeping => exact absurd hstate hawake.2
        | completed | failed | cancelled =>
            rw [hstate] at ha
            cases ha
      · intro j e' hj hrun' hholds
        exact hsole.alone i j e e' he hj hlast hrun' hholds
  | _ => trivial

/-- When every suspension of a last attempt ends its handler, every failure is announced
alone. -/
theorem along_announcesAlone {storage : StorageMode} {as : List Act}
    (hack : (worldMachine pg).Along Acknowledged (World.create storage) as) :
  (worldMachine pg).Along AnnouncesAlone (World.create storage) as
  := by
  have hstep : ∀ w a w', Acknowledged w a → w.Sound ∧ Sole w.executions w.queue.life →
      (worldMachine pg).step w a = some w' → w'.Sound ∧ Sole w'.executions w'.queue.life := by
    rintro w a w' hack ⟨hw, hsole⟩ hs
    exact ⟨(continues_step hw (announcesAlone_of_sole hsole) hs).sound, sole_step hw hsole hack hs⟩
  have hcreate : (World.create storage).Sound
      ∧ Sole (World.create storage).executions (World.create storage).queue.life :=
    ⟨sound_create storage, fun e he => absurd he List.not_mem_nil, fun i _ _ _ hi => by cases hi⟩
  exact (Machine.Along.invariant hstep hack hcreate).mono (fun w a h => announcesAlone_of_sole h.1.2)

end

end DjangoAbsurd.Worker
