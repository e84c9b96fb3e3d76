import DjangoAbsurd.Engine.Fairness

/-!
# Waits that time out

A wait with a timeout ends when its event is emitted or when a claim takes its run after the
timeout. It never ends early: an await gives up only after a claim whose clock had reached the
moment an earlier await asked for (`gives_up_late`). It is never skipped: a run that was claimed
out of its wait does not sleep again for the event it waited for (`timed_wait_ends`).
-/

namespace DjangoAbsurd.Engine

section

variable {pg : Postgres} {s s' : QueueState} {l : Label} {ls : List Label} {r r' : RunRow}

/-! ### Runs under moves -/

/-- What a move makes of a run. -/
def Move.run (s : QueueState) : Move → RunRow → RunRow
  | .change c, r => c.run r
  | .sleep r₀ wakeAt, r => if r.runId = r₀.runId then (RunRow.sleep wakeAt).apply r else r
  | .extend r₀ claimUntil, r =>
      if r.runId = r₀.runId then (RunRow.extendClaim claimUntil).apply r else r
  | .ask r₀ _, r => if r.runId = r₀.runId then RunRow.clearPayload.apply r else r
  | .giveUp r₀, r => if r.runId = r₀.runId then RunRow.clearWakeEvent.apply r else r
  | .wait _ r₀ _ eventName timeoutAt, r =>
      if r.runId = r₀.runId then (RunRow.wait eventName timeoutAt).apply r else r
  | .emit now eventName payload, r =>
      if s.Wakes now eventName r then (RunRow.wake now payload).apply r else r
  | .record _ _, r | .receive _ _ _ _ _, r | .forget _, r => r

theorem runId_move (m : Move) (r : RunRow) :
  (m.run s r).runId = r.runId
  := by
  cases m with
  | change c => exact Change.runId_run c r
  | record | receive | forget => rfl
  | _ =>
      rw [Move.run]
      split
      · apply Keyed.Edit.key_apply
      · rfl

/-- A run after a move is what the move made of a run, or one it added. -/
theorem mem_runs_move (hwaits : WaitsSound s) {m : Move} (hr' : r' ∈ (m.apply s).runs.rows) :
  (∃ r ∈ s.runs.rows, m.run s r = r') ∨ ∃ c, m = .change c ∧ r' ∈ c.added s.life
  := by
  have hedited : ∀ {id : Uuid} {e : RunEdit}, r' ∈ (s.updateRun id e).runs.rows →
      ∃ r ∈ s.runs.rows, (if r.runId = id then e.apply r else r) = r' := by
    intro id e hmem
    obtain ⟨r, hr, rfl⟩ := Keyed.Table.mem_update.mp hmem
    use r, hr
    simp
  cases m with
  | change c =>
      rcases Change.mem_runs_apply hr' with hold | hadded
      · exact .inl hold
      · exact .inr ⟨c, rfl, hadded⟩
  | sleep | extend | giveUp | wait => exact .inl (hedited hr')
  | ask r₀ eventName =>
      left
      apply hedited
      rwa [Move.apply, QueueState.updateRun, QueueState.updateRuns, runs_ensureEvent] at hr'
  | emit => exact .inl ((mem_runs_emitted hwaits).mp hr')
  | record | receive | forget => exact .inl ⟨r', hr', rfl⟩

/-! ### What the timeouts of a run come from -/

/-- An await asked for the event with a timeout, and a claim came after it. -/
def Overdue (ls : List Label) (taskId runId : Uuid) (eventName : String) : Prop :=
  ∃ now stepName n now' worker claimTimeout qty,
    Label.await now taskId runId stepName eventName (some n) ∈ ls
      ∧ Label.claim now' worker claimTimeout qty ∈ ls ∧ now + seconds n ≤ now'

/-- The event a run waits or waited for is one the calls asked for. -/
structure RunRow.TimesOut (ls : List Label) (r : RunRow) : Prop where
  pending : r.state = .pending → r.wakeEvent = none
  unpaid : r.Active → r.wakeEvent ≠ none → r.eventPayload = none
  asked : r.state = .sleeping → ∀ eventName, r.wakeEvent = some eventName →
    ∃ now stepName timeout, Label.await now r.taskId r.runId stepName eventName timeout ∈ ls
      ∧ r.availableAt
        = (timeout.map (fun n => now + seconds n)).elim ⊤ (fun t => (t : WithTop Time))
  overdue : r.state = .running → ∀ eventName, r.wakeEvent = some eventName →
    Overdue ls r.taskId r.runId eventName

namespace RunRow.TimesOut

theorem of_none (h : r.wakeEvent = none) :
  r.TimesOut ls
  := by
  constructor
  · exact fun _ => h
  · exact fun _ hne => absurd h hne
  · intro _ eventName heq
    rw [h] at heq
    cases heq
  · intro _ eventName heq
    rw [h] at heq
    cases heq

theorem of_ended (h : ¬ r.Active) :
  r.TimesOut ls
  := by
  constructor
  · exact fun hstate => absurd (active_of_waiting (.inl hstate)) h
  · exact fun ha => absurd ha h
  · exact fun hstate => absurd (active_of_sleeping hstate) h
  · exact fun hstate => absurd (active_of_running hstate) h

/-- A run that sleeps and is claimed after its time is overdue. -/
theorem claim {now : Time} {worker : String} {claimTimeout qty : ℤ} {claimUntil : Option Time}
    (h : r.TimesOut ls) (hl : Label.claim now worker claimTimeout qty ∈ ls)
    (hwaiting : r.state = .pending ∨ r.state = .sleeping)
    (hdue : r.availableAt ≤ (now : WithTop Time)) (name : String) :
  ((RunRow.claim now name claimUntil).apply r).TimesOut ls
  := by
  constructor
  · exact fun hstate => by cases hstate
  · exact fun _ hne => h.unpaid (active_of_waiting hwaiting) hne
  · exact fun hstate => by cases hstate
  · intro _ eventName heq
    have heq : r.wakeEvent = some eventName := heq
    rcases hwaiting with hstate | hstate
    · rw [h.pending hstate] at heq
      cases heq
    · obtain ⟨now₀, stepName, timeout, hmem, havailable⟩ := h.asked hstate eventName heq
      rw [havailable] at hdue
      cases timeout with
      | none => exact absurd (top_le_iff.mp hdue) (WithTop.coe_ne_top)
      | some n =>
          exact ⟨now₀, stepName, n, now, worker, claimTimeout, qty, hmem, hl,
            WithTop.coe_le_coe.mp hdue⟩

/-- A change that starts no wait keeps track of what a run waits for. -/
theorem change {c : Change} (h : r.TimesOut ls) (hr : r ∈ s.runs.rows) (hl : l ∈ ls)
    (hmakes : l.Makes c) (hc : c.Allowed s.life) (hplain : c.Plain) (hchecked : c.Checked s.life) :
  (c.run r).TimesOut ls
  := by
  cases c with
  | draw | spawn | retry | delete => exact h
  | park | wakeRun | wakeTask | adjust => exact hplain.elim
  | claim now name claimUntil r₀ =>
      rw [Change.run]
      split
      · rename_i hid
        obtain rfl := Keyed.Table.eq_of_key_eq hr hc.1 hid
        obtain ⟨worker, claimTimeout, qty, rfl⟩ := hmakes
        exact h.claim hl hc.2 hchecked name
      · exact h
  | complete _ r₀ _ | failForGood _ r₀ _ | failCancelled _ r₀ _ | failRetried _ r₀ _ _
  | cancel _ id =>
      rw [Change.run]
      split
      · apply of_ended
        rintro (hactive : _ = false)
        cases hactive
      · exact h

end RunRow.TimesOut

theorem timesOut_move {m : Move} (hl : l ∈ ls) (htakes : l.Takes m) (hallowed : m.Allowed s)
    (hwaits : WaitsSound s) (h : ∀ r ∈ s.runs.rows, r.TimesOut ls) :
  ∀ r ∈ (m.apply s).runs.rows, r.TimesOut ls
  := by
  intro r' hr'
  rcases mem_runs_move hwaits hr' with ⟨r, hr, rfl⟩ | ⟨c, rfl, hadded⟩
  · have hkept := h r hr
    cases m with
    | change c => exact hkept.change hr hl htakes hallowed.1 hallowed.2.1 hallowed.2.2
    | sleep r₀ wakeAt | giveUp r₀ =>
        rw [Move.run]
        split
        · exact .of_none rfl
        · exact hkept
    | extend r₀ claimUntil =>
        rw [Move.run]
        split
        · rw [RunRow.extendClaim]
          dsimp only
          split
          · exact ⟨hkept.pending, hkept.unpaid, hkept.asked, hkept.overdue⟩
          · exact hkept
        · exact hkept
    | ask r₀ eventName =>
        rw [Move.run]
        split
        · exact ⟨hkept.pending, fun _ _ => rfl, hkept.asked, hkept.overdue⟩
        · exact hkept
    | wait now r₀ stepName eventName timeoutAt =>
        rw [Move.run]
        split
        · rename_i hid
          obtain rfl := Keyed.Table.eq_of_key_eq hr hallowed.1 hid
          obtain ⟨timeout, rfl, rfl⟩ := htakes
          constructor
          · exact fun hstate => by cases hstate
          · exact fun _ _ => rfl
          · intro _ eventName' heq
            obtain rfl := Option.some.inj heq
            exact ⟨now, stepName, timeout, hl, rfl⟩
          · exact fun hstate => by cases hstate
        · exact hkept
    | emit now eventName payload =>
        rw [Move.run]
        split
        · exact .of_none rfl
        · exact hkept
    | record | receive | forget => exact hkept
  · apply RunRow.TimesOut.of_none
    cases c with
    | spawn | failRetried | retry =>
        obtain rfl := List.mem_singleton.mp hadded
        rfl
    | _ => exact absurd hadded List.not_mem_nil

theorem timesOut_run {storage : StorageMode} (hrun : (machine pg).run (.create storage) ls = some s) :
  ∀ r ∈ s.runs.rows, r.TimesOut ls
  := by
  apply And.right
  apply And.left
  apply preserved_along (D := fun l => l ∈ ls)
    (I := fun s => WaitsSound s ∧ ∀ r ∈ s.runs.rows, r.TimesOut ls) _ (.create storage) _
    (fun _ hl => hl) hrun
  · rintro s l m hl htakes hallowed hs ⟨hwaits, h⟩
    exact ⟨waitsSound_move hallowed hs hwaits, timesOut_move hl htakes hallowed hwaits h⟩
  · exact ⟨.create storage, fun r hr => absurd hr List.not_mem_nil⟩

/-! ### Awaits that give up -/

/-- An await that gives up is made by a run that was claimed out of its wait. -/
theorem wakeEvent_of_awaitEvent {now : Time} {id runId : Uuid} {stepName eventName : String}
    {timeout : Option ℤ}
    (hawait : awaitEvent s now id runId stepName eventName timeout = .ok (s', false, none)) :
  ∃ r, s.runs.get? runId = some r ∧ r.state = .running ∧ r.wakeEvent = some eventName
  := by
  rw [awaitEvent] at hawait
  split at hawait
  · cases hawait
  · split at hawait
    · cases hawait
    · split at hawait
      · cases hawait
      · split at hawait
        · cases hawait
        · rename_i r hr
          split at hawait
          · cases hawait
          · split at hawait
            · cases hawait
            · split at hawait
              · cases hawait
              · rename_i hrunning
                dsimp only at hawait
                split at hawait
                · cases hawait
                · split at hawait
                  · rename_i hwoken
                    exact ⟨r, hr, not_not.mp hrunning, hwoken.1⟩
                  · cases hawait

/-- The order waits five seconds to be paid. -/
def orderTimed : QueueState :=
  markWaiting ((ensureEvent orderClaimed "paid").updateRun ⟨1⟩ RunRow.clearPayload) 1 ⟨0⟩ ⟨1⟩
    "payment" "paid" (some (1 + seconds 5))

/-- The row of the waits of the order. -/
def timedWait : WaitRow := ⟨⟨0⟩, ⟨1⟩, "payment", "paid", some (1 + seconds 5), 1⟩

/-- A claim takes the order when the five seconds are over. -/
def orderRoused : QueueState :=
  markClaimed (seconds 10) "worker" (some (seconds 10 + seconds 60)) orderTimed
    ((RunRow.wait "paid" (some (1 + seconds 5))).apply
      ((RunRow.claim 0 "worker" (some (seconds 60))).apply (newRun ⟨1⟩ ⟨0⟩ 1 .pending 0 0)))

theorem claim_orderTimed :
  claimTask plainPostgres orderTimed (seconds 10) "worker" 60 1 = .ok (orderRoused, [⟨1⟩])
  := claimTask_one rfl rfl rfl

/-- Waiting for the payment and being claimed again. -/
def timedCalls : List Label :=
  [.await 1 ⟨0⟩ ⟨1⟩ "payment" "paid" (some 5), .claim (seconds 10) "worker" 60 1]

theorem run_timedCalls :
  (machine plainPostgres).run (.create .unpartitioned) (orderCalls ++ timedCalls) = some orderRoused
  := by
  have hstep := step_claim claim_orderTimed
  apply (Machine.run_append run_orderCalls).trans
  apply Machine.run_cons.mpr
  use orderTimed, rfl
  exact Machine.run_cons.mpr ⟨orderRoused, hstep, rfl⟩

/-- No wait gives up early: when an await gives up, the run had asked for the event with a timeout
before, and a claim came at or after the moment it asked for. -/
theorem gives_up_late {storage : StorageMode} {now : Time} {id runId : Uuid}
    {stepName eventName : String} {timeout : Option ℤ}
    (hrun : (machine pg).run (.create storage) ls = some s)
    (hawait : awaitEvent s now id runId stepName eventName timeout = .ok (s', false, none)) :
  ∃ r, s.runs.get? runId = some r ∧ Overdue ls r.taskId runId eventName
  := by
  obtain ⟨r, hr, hrunning, hevent⟩ := wakeEvent_of_awaitEvent hawait
  have hoverdue := (timesOut_run hrun r (Keyed.Table.mem_of_get? hr)).overdue hrunning _ hevent
  rw [show r.runId = runId from Keyed.Table.key_of_get? hr] at hoverdue
  exact ⟨r, hr, hoverdue⟩

theorem orderRoused_late :
  ∃ r, orderRoused.runs.get? ⟨1⟩ = some r
    ∧ Overdue (orderCalls ++ timedCalls) r.taskId ⟨1⟩ "paid"
  := by
  have hawait : ∃ s, awaitEvent orderRoused (seconds 11) ⟨0⟩ ⟨1⟩ "payment" "paid" none
      = .ok (s, false, none) := ⟨_, rfl⟩
  obtain ⟨s, hawait⟩ := hawait
  exact gives_up_late run_timedCalls hawait

/-! ### Runs that were claimed out of their wait -/

/-- The run waits no more, and while it runs it remembers the event. -/
structure Roused (runId : Uuid) (eventName : String) (s : QueueState) : Prop where
  awake : Awake s.life runId
  event : ∀ r ∈ s.runs.rows, r.runId = runId → r.state = .running → r.wakeEvent = some eventName

/-- A move of a call that does not suspend the run leaves it roused. -/
theorem roused_move {runId : Uuid} {eventName : String} {m : Move} (hl : ¬ l.Pauses runId)
    (htakes : l.Takes m) (hallowed : m.Allowed s) (hs : s.life.Consistent) (hwaits : WaitsSound s)
    (h : Roused runId eventName s) :
  Roused runId eventName (m.apply s)
  := by
  have hdrawn : runId.index < (m.apply s).drawn := by
    apply preserved_move (J := fun k => runId.index < k.drawn) hs hallowed _ h.awake.1
    exact fun k c _ hc _ hlt => hlt.trans_le (Change.drawn_le_apply hc)
  have hruns : ∀ r' ∈ (m.apply s).runs.rows, r'.runId = runId →
      ¬ (r'.state = .pending ∨ r'.state = .sleeping)
        ∧ (r'.state = .running → r'.wakeEvent = some eventName) := by
    intro r' hr' hid
    rcases mem_runs_move hwaits hr' with ⟨r, hr, rfl⟩ | ⟨c, rfl, hadded⟩
    · rw [runId_move] at hid
      have hawake := h.awake.2 r hr hid
      have hkept : r.state = .running → r.wakeEvent = some eventName := h.event r hr hid
      cases m with
      | change c =>
          rcases run_of_plain hallowed.1 hallowed.2.1 hr with
            hsame | ⟨now, worker, claimUntil, rfl⟩ | hended
          · rw [Move.run, hsame]
            exact ⟨hawake, hkept⟩
          · exact absurd hallowed.1.2 hawake
          · exact ⟨fun hwaiting => hended (active_of_waiting hwaiting),
              fun hrunning => absurd (active_of_running hrunning) hended⟩
      | sleep r₀ wakeAt =>
          obtain rfl := htakes
          rw [Move.run, if_neg (fun heq => hl (heq.symm.trans hid))]
          exact ⟨hawake, hkept⟩
      | extend r₀ claimUntil =>
          rw [Move.run]
          split
          · rw [RunRow.extendClaim]
            dsimp only
            split
            · exact ⟨hawake, hkept⟩
            · exact ⟨hawake, hkept⟩
          · exact ⟨hawake, hkept⟩
      | ask r₀ =>
          obtain ⟨_, _, _, rfl⟩ := htakes
          rw [Move.run, if_neg (fun heq => hl (heq.symm.trans hid))]
          exact ⟨hawake, hkept⟩
      | giveUp r₀ =>
          obtain ⟨_, _, _, _, rfl⟩ := htakes
          rw [Move.run, if_neg (fun heq => hl (heq.symm.trans hid))]
          exact ⟨hawake, hkept⟩
      | wait now r₀ =>
          obtain ⟨_, _, rfl⟩ := htakes
          rw [Move.run, if_neg (fun heq => hl (heq.symm.trans hid))]
          exact ⟨hawake, hkept⟩
      | emit now eventName' payload =>
          rw [Move.run, if_neg]
          · exact ⟨hawake, hkept⟩
          · rintro ⟨w, hw, -, -, hrun⟩
            exact hawake (.inr (hwaits.sleeper_of_runId hw hr hrun.symm).state)
      | record | receive | forget => exact ⟨hawake, hkept⟩
    · have hfresh := (Change.added_fresh hallowed.1 hadded).1
      rw [hid] at hfresh
      exact absurd h.awake.1 (not_lt.mpr hfresh)
  exact ⟨⟨hdrawn, fun r hr hid => (hruns r hr hid).1⟩, fun r hr hid => (hruns r hr hid).2⟩

/-- While the run waits, it waits for the event. -/
def WaitsFor (runId : Uuid) (eventName : String) (k : Lifecycle) : Prop :=
  runId.index < k.drawn ∧ ∀ r ∈ k.runs.rows, r.runId = runId → r.Waiting →
    r.wakeEvent = some eventName

theorem waitsFor_apply {k : Lifecycle} {c : Change} {runId : Uuid} {eventName : String}
    (hc : c.Allowed k) (hplain : c.Plain) (h : WaitsFor runId eventName k) :
  WaitsFor runId eventName (c.apply k)
  := by
  use h.1.trans_le (Change.drawn_le_apply hc)
  intro r' hr' hid hwaiting
  rcases Change.mem_runs_apply hr' with ⟨r, hr, rfl⟩ | hadded
  · rw [Change.runId_run] at hid
    rcases run_of_plain hc hplain hr with hsame | ⟨now, worker, claimUntil, rfl⟩ | hended
    · rw [hsame] at hwaiting ⊢
      exact h.2 r hr hid hwaiting
    · rw [Change.run, if_pos rfl] at hwaiting
      rcases hwaiting with hstate | hstate
      all_goals cases hstate
    · exact absurd (active_of_waiting hwaiting) hended
  · have hfresh := (Change.added_fresh hc hadded).1
    rw [hid] at hfresh
    exact absurd h.1 (not_lt.mpr hfresh)

/-- A claim that takes the run of a wait rouses it. -/
theorem roused_of_claimed {now : Time} {worker : String} {claimTimeout qty : ℤ} {claimed : List Uuid}
    {w : WaitRow} (hs : s.life.Consistent) (hwaits : WaitsSound s) (hw : w ∈ s.waits.rows)
    (hclaim : claimTask pg s now worker claimTimeout qty = .ok (s', claimed))
    (hmem : w.runId ∈ claimed) :
  Roused w.runId w.eventName s'
  := by
  have hawaits : WaitsFor w.runId w.eventName s.life := by
    obtain ⟨r, hr, has⟩ := hwaits.sleeper w hw
    constructor
    · exact has.runId ▸ hs.runDrawn r hr
    · intro r' hr' hid _
      rw [Keyed.Table.eq_of_key_eq hr' hr (hid.trans has.runId.symm)]
      exact has.wakeEvent
  have hdrawn : w.runId.index < s'.life.drawn := by
    have hstep := step_claim hclaim
    apply preserved_step (I := fun k => w.runId.index < k.drawn) hs _ hawaits.1 hstep
    exact fun k c _ _ hc hlt => hlt.trans_le (Change.drawn_le_apply hc)
  obtain ⟨s₂, worker', claimUntil, hleads, rfl, rfl⟩ := claimTask_leads hclaim
  -- what the claim cancels and fails before does not wait any more
  have hbefore : WaitsFor w.runId w.eventName s₂.life := by
    apply hleads.invariant (I := fun s => WaitsFor w.runId w.eventName s.life) _ hawaits
    rintro s₃ m s₄ ⟨htakes, -⟩ h hm
    obtain ⟨hallowed, rfl⟩ := step_moves.mp hm
    cases m with
    | change c => exact waitsFor_apply hallowed.1 hallowed.2.1 h
    | extend | record | ask | receive | giveUp | wait | emit | forget | sleep => grind [Label.Takes]
  have hclaimed : ∀ r' ∈ ((claimCandidates pg s₂ now (max qty 1).toNat).foldl
      (markClaimed now worker' claimUntil) s₂).runs.rows, r'.runId = w.runId →
      r'.state = .running ∧ r'.wakeEvent = some w.eventName := by
    intro r' hr' hid
    rcases mem_claims hr' with ⟨-, hnot⟩ | ⟨r, hr, htaken, rfl⟩
    · exact absurd (hid ▸ hmem) hnot
    · obtain ⟨r₀, hcandidate, hrun⟩ := List.mem_map.mp htaken
      obtain ⟨hr₀, hwaiting⟩ := mem_claimCandidates hcandidate
      obtain rfl := Keyed.Table.eq_of_key_eq hr₀ hr hrun
      exact ⟨rfl, hbefore.2 r₀ hr hid hwaiting⟩
  constructor
  · use hdrawn
    intro r hr hid
    rw [(hclaimed r hr hid).1]
    rintro (hstate | hstate) <;> cases hstate
  · exact fun r hr hid _ => (hclaimed r hr hid).2

/-- A run that remembers the event does not wait for it. -/
theorem awaitEvent_of_woken (hs : s.life.Consistent) (hr : r ∈ s.runs.rows)
    (hrunning : r.state = .running) {eventName : String} (hevent : r.wakeEvent = some eventName)
    (hunpaid : r.eventPayload = none) (hname : blank eventName = false) (now : Time) (id : Uuid)
    (stepName : String) {timeout : Option ℤ} (htimeout : ∀ n, timeout = some n → 0 ≤ n) :
  ∃ s' payload, awaitEvent s now id r.runId stepName eventName timeout = .ok (s', false, payload)
  := by
  have hnonneg : timeout.any (· < 0) = false := by
    cases timeout with
    | none => rfl
    | some n => simpa using htimeout n rfl
  obtain ⟨t, ht, hlive, -⟩ := task_of_active hs hr (active_of_running hrunning)
  have huncancelled : t.state ≠ .cancelled := by
    intro hcancelled
    rw [hcancelled] at hlive
    cases hlive
  rw [awaitEvent, if_neg (by simp [hname]), if_neg (by simp [hnonneg])]
  split
  · exact ⟨_, _, rfl⟩
  · have hrow : s.runs.get? r.runId = some r := Keyed.Table.get?_of_mem hr
    have htask : s.tasks.get? r.taskId = some t := ht
    rw [hrow]
    dsimp only
    rw [htask]
    dsimp only
    rw [if_neg huncancelled, if_neg (not_not_intro hrunning), if_pos ⟨hevent, hunpaid⟩]
    split
    · exact ⟨_, _, rfl⟩
    · exact ⟨_, _, rfl⟩

/-- No timeout is skipped: after a claim took a run out of its wait, and as long as the run neither
awaits nor sleeps, it waits for nothing, and while it runs an await of the event ends at once. -/
theorem timed_wait_ends (h : Reachable pg s) {w : WaitRow} (hw : w ∈ s.waits.rows) {now : Time}
    {worker : String} {claimTimeout qty : ℤ} {s₁ : QueueState} {claimed : List Uuid}
    (hclaim : claimTask pg s now worker claimTimeout qty = .ok (s₁, claimed))
    (hmem : w.runId ∈ claimed) (hpauses : ∀ l ∈ ls, ¬ l.Pauses w.runId)
    (hrun : (machine pg).run s₁ ls = some s') :
  (∀ w' ∈ s'.waits.rows, w'.runId ≠ w.runId)
    ∧ ∀ r ∈ s'.runs.rows, r.runId = w.runId → r.state = .running →
      ∀ now' id stepName timeout, (∀ n, timeout = some n → 0 ≤ n) → ∃ s'' payload,
        awaitEvent s' now' id w.runId stepName w.eventName timeout = .ok (s'', false, payload)
  := by
  have hwaits := waitsSound_of_reachable h
  have hclaims : (machine pg).run s [.claim now worker claimTimeout qty] = some s₁ := by
    have hstep := step_claim hclaim
    exact Machine.run_cons.mpr ⟨s₁, hstep, rfl⟩
  have h₁ := h.run hclaims
  have hkept : (WaitsSound s' ∧ Roused w.runId w.eventName s') ∧ s'.life.Consistent := by
    apply preserved_along (D := fun l => ¬ l.Pauses w.runId)
      (I := fun s => WaitsSound s ∧ Roused w.runId w.eventName s) _ (consistent_of_reachable h₁)
      ⟨waitsSound_of_reachable h₁,
        roused_of_claimed (consistent_of_reachable h) hwaits hw hclaim hmem⟩ hpauses hrun
    rintro s l m hl htakes hallowed hs ⟨hwaits, hroused⟩
    exact ⟨waitsSound_move hallowed hs hwaits,
      roused_move hl htakes hallowed hs hwaits hroused⟩
  obtain ⟨⟨hwaits', hroused⟩, hs'⟩ := hkept
  constructor
  · intro w' hw' hid
    obtain ⟨r, hr, has⟩ := hwaits'.sleeper w' hw'
    exact hroused.awake.2 r hr (has.runId.trans hid) (.inr has.state)
  · intro r hr hid hrunning now' id stepName timeout htimeout
    have hevent := hroused.event r hr hid hrunning
    obtain ⟨storage, calls, hcalls⟩ := reachable_iff.mp (h₁.run hrun)
    have hunpaid := (timesOut_run hcalls r hr).unpaid (active_of_running hrunning)
      (by rw [hevent]; exact Option.some_ne_none _)
    rw [← hid]
    exact awaitEvent_of_woken hs' hr hrunning hevent hunpaid (hwaits.named w hw) now' id stepName
      htimeout

theorem orderRoused_ends :
  ∃ s payload, awaitEvent orderRoused (seconds 11) ⟨0⟩ ⟨1⟩ "payment" "paid" (some 5)
    = .ok (s, false, payload)
  := by
  have hreachable : Reachable plainPostgres orderTimed := by
    have hrun : (machine plainPostgres).run orderClaimed
        [.await 1 ⟨0⟩ ⟨1⟩ "payment" "paid" (some 5)] = some orderTimed := rfl
    exact reachable_orderClaimed.run hrun
  have hpauses : ∀ l ∈ ([] : List Label), ¬ l.Pauses timedWait.runId :=
    fun l hl => absurd hl List.not_mem_nil
  have hends := timed_wait_ends (w := timedWait) hreachable (List.mem_singleton_self _)
    claim_orderTimed (List.mem_singleton_self _) hpauses rfl
  apply hends.2 _ (List.mem_singleton_self _) rfl rfl
  intro n hn
  obtain rfl := Option.some.inj hn
  decide

end

end DjangoAbsurd.Engine
