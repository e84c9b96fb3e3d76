import DjangoAbsurd.Testing.Clock

/-!
# Releasing the clocks

Leaving a `freeze_time` block releases the clocks when `time_travel` is assigned, which it is
once time-machine has started. From then on every way out of the block releases them
(`FreezeState.Holding`). Entering at an instant in the past writes `absurd.fake_now` first, so
an entry that fails in between leaves it behind: `released_iff` says that it is the only way.
-/

namespace DjangoAbsurd

open Engine (Time)

/-- The label enters a block. -/
def FreezeLabel.Enters : FreezeLabel → Prop
  | .enter _ _ => True
  | _ => False

/-- An entry whose first two writes are the database's and the session's fails once the
database's has had its effect. -/
def FailsAfterDatabaseWrite : List FreezeLabel → Prop
  | .interrupt true :: _ => True
  | .write :: .interrupt _ :: _ => True
  | .write :: .write :: .interrupt _ :: _ => True
  | _ => False

namespace FreezeState

variable {s s' : FreezeState} {l : FreezeLabel} {ls : List FreezeLabel}

/-- Time-machine has started in a block that is not left, or the block is left and the clocks
are real. -/
def Holding (s : FreezeState) : Prop :=
  s.travelling = true ∧ s.phase ≠ .closed ∨ s = fresh

theorem leave_of_travelling (h : s.travelling = true) :
  s.leave = fresh
  := by
  rw [leave, releaseClock, if_pos h]
  rfl

/-- Whatever happens after time-machine has started, leaving the block releases the clocks. -/
theorem Holding.step (h : s.Holding) (hl : ¬ l.Enters) (hs : s.step l = some s') :
  s'.Holding
  := by
  rcases h with ⟨htravelling, hphase⟩ | rfl
  · have hbegin : ∀ move, (s.begin move).Holding := by
      rintro (_ | writes)
      · rw [FreezeState.begin]
        split
        · exact .inr (leave_of_travelling htravelling)
        · exact .inl ⟨htravelling, hphase⟩
      · exact .inl ⟨htravelling, hphase⟩
    cases l with
    | enter destination env => exact absurd trivial hl
    | moveTo destination env =>
        rw [FreezeState.step] at hs
        split at hs
        · cases hs
          apply hbegin
        · cases hs
    | shift delta env =>
        rw [FreezeState.step] at hs
        split at hs
        · cases hs
          apply hbegin
        · cases hs
    | write =>
        rw [FreezeState.step] at hs
        cases hpending : s.pending with
        | nil =>
            rw [hpending] at hs
            cases hs
        | cons w writes =>
            rw [hpending] at hs
            cases hs
            left
            constructor
            · cases w <;> first | rfl | exact htravelling
            · dsimp only
              split
              · rintro ⟨⟩
              · exact hphase
    | interrupt effect =>
        rw [FreezeState.step] at hs
        cases hpending : s.pending with
        | nil =>
            rw [hpending] at hs
            cases hs
        | cons w writes =>
            rw [hpending] at hs
            cases hs
            have hraised : (s.raised w effect).travelling = true := by
              cases w <;> simp only [raised] <;> split <;> exact htravelling
            split
            · exact .inr (leave_of_travelling hraised)
            · left
              use hraised
              dsimp only
              rwa [phase_raised]
    | exit =>
        rw [FreezeState.step] at hs
        split at hs
        · cases hs
          exact .inr (leave_of_travelling htravelling)
        · cases hs
  · cases l with
    | enter destination env => exact absurd trivial hl
    | moveTo | shift | write | interrupt | exit => cases hs

/-- A block that is left after time-machine has started has released the clocks. -/
theorem Holding.released (h : s.Holding) (hblock : ∀ l ∈ ls, ¬ l.Enters)
    (hrun : freezeMachine.run s ls = some s') (hclosed : s'.phase = .closed) :
  s'.clocks = .real
  := by
  have hend : s'.Holding := by
    apply Machine.invariant_along (m := freezeMachine) (P := fun _ l => ¬ l.Enters) _ _ h hrun
    · exact fun _ _ _ hl hI hs => hI.step hl hs
    · exact Machine.along_of_forall (fun _ l hl => hblock l hl)
  rcases hend with ⟨-, hphase⟩ | rfl
  · exact absurd hclosed hphase
  · rfl

/-- Nothing happens in a block that is left. -/
theorem run_closed (hphase : s.phase = .closed) (hpending : s.pending = [])
    (hblock : ∀ l ∈ ls, ¬ l.Enters) (hrun : freezeMachine.run s ls = some s') :
  ls = [] ∧ s' = s
  := by
  cases ls with
  | nil => exact ⟨rfl, (Option.some.inj hrun).symm⟩
  | cons l ls =>
      obtain ⟨s₁, hs, -⟩ := Machine.run_cons.mp hrun
      have hl := hblock l List.mem_cons_self
      have hrefused : s.step l = none := by
        cases l with
        | enter destination env => exact absurd trivial hl
        | moveTo | shift | write | interrupt | exit => simp [FreezeState.step, hphase, hpending]
      cases hrefused.symm.trans hs

/-! ### Entering -/

/-- A block that is being entered, with the writes that are still to be done. -/
def entering (c : Clocks) (writes : List ClockWrite) : FreezeState := ⟨c, false, writes, .entering⟩

/-- A block that is being entered does its next write or fails at it, and when it fails it is
left. -/
theorem run_entering {c : Clocks} {w : ClockWrite} {writes : List ClockWrite}
    (hblock : ∀ l ∈ ls, ¬ l.Enters)
    (hrun : freezeMachine.run (entering c (w :: writes)) ls = some s) (hclosed : s.phase = .closed) :
  (∃ s₁ ls', ls = .write :: ls' ∧ (∀ l ∈ ls', ¬ l.Enters)
      ∧ (entering c (w :: writes)).step .write = some s₁ ∧ freezeMachine.run s₁ ls' = some s)
    ∨ ∃ effect, ls = [.interrupt effect] ∧ s.clocks = ((entering c (w :: writes)).raised w effect).clocks
  := by
  cases ls with
  | nil =>
      obtain rfl := Option.some.inj hrun
      cases hclosed
  | cons l ls =>
      obtain ⟨hl, hrest⟩ := List.forall_mem_cons.mp hblock
      obtain ⟨s₁, hs, hrun'⟩ := Machine.run_cons.mp hrun
      cases l with
      | enter destination env => exact absurd trivial hl
      | write => exact .inl ⟨s₁, ls, rfl, hrest, hs, hrun'⟩
      | interrupt effect =>
          right
          have hleft : s₁.phase = .closed ∧ s₁.pending = []
              ∧ s₁.clocks = ((entering c (w :: writes)).raised w effect).clocks := by
            cases hs
            cases w <;> cases effect <;> exact ⟨rfl, rfl, rfl⟩
          obtain ⟨rfl, rfl⟩ := run_closed hleft.1 hleft.2.1 hrest hrun'
          exact ⟨effect, rfl, hleft.2.2⟩
      | moveTo | shift | exit => simp [freezeMachine, FreezeState.step, entering] at hs

/-- A block that is entered by moving Python's clock next has its clocks released, unless that
fails. -/
theorem run_entering_python {c : Clocks} {i : Time} {writes : List ClockWrite}
    (hblock : ∀ l ∈ ls, ¬ l.Enters)
    (hrun : freezeMachine.run (entering c (.python i :: writes)) ls = some s)
    (hclosed : s.phase = .closed) :
  (∃ ls', ls = .write :: ls' ∧ s.clocks = .real)
    ∨ ∃ effect, ls = [.interrupt effect] ∧ s.clocks = c
  := by
  rcases run_entering hblock hrun hclosed with ⟨s₁, ls', rfl, hblock, hs, hrun⟩ | ⟨effect, rfl, hclocks⟩
  · left
    have hholding : s₁.Holding := by
      cases hs
      left
      use rfl
      dsimp only
      split <;> rintro ⟨⟩
    exact ⟨ls', rfl, hholding.released hblock hrun hclosed⟩
  · right
    use effect, rfl
    rw [hclocks]
    cases effect <;> rfl

/-- A block entered at an instant that is not past is released however it is left. -/
theorem released_forward {i : Time} (hblock : ∀ l ∈ ls, ¬ l.Enters)
    (hrun : freezeMachine.run (entering .real (movePythonClock i ++ writeFakeNow i)) ls = some s)
    (hclosed : s.phase = .closed) :
  s.clocks = .real
  := by
  rcases run_entering_python hblock hrun hclosed with ⟨-, -, hreal⟩ | ⟨-, -, hreal⟩
  · exact hreal
  · exact hreal

/-- A block entered at a past instant is released unless its entry fails after the database's
write. -/
theorem released_backward {i : Time} (hblock : ∀ l ∈ ls, ¬ l.Enters)
    (hrun : freezeMachine.run (entering .real (writeFakeNow i ++ movePythonClock i)) ls = some s)
    (hclosed : s.phase = .closed) :
  s.clocks = .real ↔ ¬ FailsAfterDatabaseWrite ls
  := by
  rcases run_entering hblock hrun hclosed with ⟨s₁, ls, rfl, hblock, hs, hrun⟩ | ⟨effect, rfl, hclocks⟩
  · obtain rfl : entering ⟨none, some i, none⟩ (.session i :: movePythonClock i) = s₁ :=
      Option.some.inj hs
    rcases run_entering hblock hrun hclosed with ⟨s₂, ls, rfl, hblock, hs, hrun⟩ | ⟨effect, rfl, hclocks⟩
    · obtain rfl : entering ⟨none, some i, some i⟩ (movePythonClock i) = s₂ := Option.some.inj hs
      rcases run_entering_python hblock hrun hclosed with ⟨ls, rfl, hreal⟩ | ⟨effect, rfl, hclocks⟩
      · exact iff_of_true hreal (by rintro ⟨⟩)
      · rw [hclocks]
        exact iff_of_false (by rintro ⟨⟩) (not_not.mpr trivial)
    · rw [hclocks]
      cases effect <;> exact iff_of_false (by rintro ⟨⟩) (not_not.mpr trivial)
  · rw [hclocks]
    cases effect with
    | true => exact iff_of_false (by rintro ⟨⟩) (not_not.mpr trivial)
    | false => exact iff_of_true rfl (by rintro ⟨⟩)

/-- A block is released after an entry that raises before its first write, and after the others
by their direction. -/
theorem released_entry {env : Surroundings} {destination : Destination}
    {reference : Option Time} (hreference : reference.getD env.realNow = env.realNow)
    (hblock : ∀ l ∈ ls, ¬ l.Enters)
    (hrun : freezeMachine.run ({ fresh with phase := .entering }.begin
      (applyClockMove .real env destination reference)) ls = some s)
    (hclosed : s.phase = .closed) :
  s.clocks = .real
    ↔ ¬ ((∃ instant, destination = .aware instant ∧ instant < env.realNow)
      ∧ FailsAfterDatabaseWrite ls)
  := by
  cases hmove : applyClockMove .real env destination reference with
  | none =>
      rw [hmove] at hrun
      obtain ⟨rfl, rfl⟩ := run_closed rfl rfl hblock hrun
      exact iff_of_true rfl (fun hfails => hfails.2)
  | some writes =>
      rw [hmove] at hrun
      obtain ⟨instant, rfl, -, hwrites⟩ := applyClockMove_eq_some.mp hmove
      have hcurrent : reference.getD (Clocks.real.now env) = env.realNow := hreference
      rw [hcurrent] at hwrites
      rcases hwrites with ⟨hback, rfl⟩ | ⟨hforward, rfl⟩
      · rw [released_backward hblock hrun hclosed, not_and]
        constructor
        · exact fun hfails _ => hfails
        · exact fun hfails => hfails ⟨instant, rfl, hback⟩
      · apply iff_of_true (released_forward hblock hrun hclosed)
        rintro ⟨⟨i, heq, hpast⟩, -⟩
        cases heq
        exact absurd hpast (not_lt.mpr hforward)

end FreezeState

/-- Every clock is released when a block is left, unless the block was entered at an instant in
the past and its entry failed after the database's clock had been written. -/
theorem released_iff {destination : Option Destination} {env : Surroundings}
    {ls : List FreezeLabel} {s : FreezeState} (hblock : ∀ l ∈ ls, ¬ l.Enters)
    (hrun : freezeMachine.run .fresh (.enter destination env :: ls) = some s)
    (hclosed : s.phase = .closed) :
  s.clocks = .real
    ↔ ¬ ((∃ instant, destination = some (.aware instant) ∧ instant < env.realNow)
      ∧ FailsAfterDatabaseWrite ls)
  := by
  obtain ⟨s₁, hs, hrun⟩ := Machine.run_cons.mp hrun
  obtain rfl := Option.some.inj hs
  cases destination with
  | none =>
      -- Without an instant the block is entered at the reading of the clock.
      have hentry := FreezeState.released_entry rfl hblock hrun hclosed
      have hnow : FreezeState.fresh.clocks.now env = env.realNow := rfl
      rw [hentry, hnow]
      simp
  | some destination =>
      rw [FreezeState.released_entry rfl hblock hrun hclosed]
      simp only [Option.some.injEq]

/-- A block entered at a past instant, moved forward, and left after a move that fails. -/
theorem released_iff_moved :
  ∃ s, freezeMachine.run .fresh
      [.enter (some (.aware 5)) ⟨10, true⟩, .write, .write, .write, .shift 3 ⟨10, true⟩, .write,
        .interrupt true, .exit] = some s
    ∧ s.clocks = .real
  := by
  have hrun : freezeMachine.run .fresh
      [.enter (some (.aware 5)) ⟨10, true⟩, .write, .write, .write, .shift 3 ⟨10, true⟩, .write,
        .interrupt true, .exit] = some .fresh := rfl
  use .fresh, hrun
  apply (released_iff _ hrun rfl).mpr
  · rintro ⟨-, hfails⟩
    exact hfails
  · simp [FreezeLabel.Enters]

/-- The session's write fails while a block is entered at a past instant: the database's clock
stays held. -/
theorem entry_strands_database :
  ¬ ∀ (destination : Option Destination) (env : Surroundings) (ls : List FreezeLabel)
      (s : FreezeState), (∀ l ∈ ls, ¬ l.Enters) →
      freezeMachine.run .fresh (.enter destination env :: ls) = some s → s.phase = .closed →
      s.clocks = .real
  := by
  intro h
  have hreal := h (some (.aware 5)) ⟨10, true⟩ [.write, .interrupt false]
    ⟨⟨none, some 5, none⟩, false, [], .closed⟩ (by simp [FreezeLabel.Enters]) rfl rfl
  cases hreal

end DjangoAbsurd
