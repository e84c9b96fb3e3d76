import DjangoAbsurd.Engine.State
import DjangoAbsurd.Library.Machine

/-!
# The clocks of a test

`freeze_time` holds three clocks at one instant: Python's, through time-machine, and
`absurd.fake_now` of the database and of Django's session. A move writes them one after
another, in an order that depends on its direction, and an exception may come before a write
or after it. `freezeMachine` has a state for every point between two writes, so what holds of
its states holds at every intermediate point.

A write that is not done in time leaves the clocks apart, but the order of the writes keeps
Python's ahead: `python_ahead`.

The session level is `set_config(.., false)`, which a rollback of the transaction it was written in
undoes. Only moves write it here, so no transaction that the body of a block opens around a move is
rolled back before the block is left.
-/

namespace DjangoAbsurd

open Engine (Time)

/-! ### Clocks and writes -/

/-- What the clocks are held at: `none` is real time. -/
structure Clocks where
  python : Option Time
  database : Option Time
  session : Option Time
  deriving DecidableEq, Repr

/-- No clock is held. -/
def Clocks.real : Clocks := ⟨none, none, none⟩

/-- Python's clock is held at or after both levels of `absurd.fake_now`. -/
def Clocks.PythonAhead (c : Clocks) : Prop :=
  ∃ python database session, c = ⟨some python, some database, some session⟩
    ∧ database ≤ python ∧ session ≤ python

/-- A write of one of the clocks. -/
inductive ClockWrite where
  | python (instant : Time)
  | database (instant : Time)
  | session (instant : Time)
  deriving DecidableEq, Repr

def ClockWrite.apply (c : Clocks) : ClockWrite → Clocks
  | .python instant => { c with python := some instant }
  | .database instant => { c with database := some instant }
  | .session instant => { c with session := some instant }

/-- `_move_python_clock`. -/
def movePythonClock (instant : Time) : List ClockWrite := [.python instant]

/-- `_write_fake_now`. -/
def writeFakeNow (instant : Time) : List ClockWrite := [.database instant, .session instant]

/-- The destination of a move: an aware `datetime`, or anything else. -/
inductive Destination where
  | aware (instant : Time)
  | other
  deriving DecidableEq, Repr

/-- What a move finds: real time, and whether `guard_against_blocked_database` and
`require_time_machine` let it go on. -/
structure Surroundings where
  realNow : Time
  guards : Bool

/-- `datetime.now(UTC)`. -/
def Clocks.now (c : Clocks) (env : Surroundings) : Time := c.python.getD env.realNow

/-- `_apply_clock_move`: the writes of a move, unless it raises before the first. -/
def applyClockMove (c : Clocks) (env : Surroundings) (destination : Destination)
    (reference : Option Time) : Option (List ClockWrite) :=
  match destination with
  | .other => none
  | .aware instant =>
      if env.guards then
        let current := reference.getD (c.now env)
        if instant < current then some (writeFakeNow instant ++ movePythonClock instant)
        else some (movePythonClock instant ++ writeFakeNow instant)
      else none

/-! ### The window -/

/-- Where a `freeze_time` block is. -/
inductive WindowPhase where
  | closed
  | entering
  | opened
  deriving DecidableEq, Repr

/-- The clocks, whether `time_travel` is assigned, the writes a move still has to do, and the
`freeze_time` block. -/
structure FreezeState where
  clocks : Clocks
  travelling : Bool
  pending : List ClockWrite
  phase : WindowPhase
  deriving DecidableEq, Repr

/-- No block has been entered. -/
def FreezeState.fresh : FreezeState := ⟨.real, false, [], .closed⟩

inductive FreezeLabel where
  /-- Entering a block; without an instant, at the reading of the clock. -/
  | enter (destination : Option Destination) (env : Surroundings)
  /-- Beginning `FrozenTime.move_to`. -/
  | moveTo (destination : Destination) (env : Surroundings)
  /-- Beginning `FrozenTime.shift`. -/
  | shift (delta : Time) (env : Surroundings)
  /-- The next write is done. -/
  | write
  /-- The next write raises, with its effect or without. -/
  | interrupt (effect : Bool)
  /-- The block is left, by its end or by an exception. -/
  | exit

namespace FreezeState

/-- `_release_clock`, when the statements that release succeed. -/
def releaseClock (s : FreezeState) : FreezeState :=
  if s.travelling then { s with clocks := .real, travelling := false } else s

/-- The block is left: its handle is dead and the clocks are released. -/
def leave (s : FreezeState) : FreezeState :=
  releaseClock { s with pending := [], phase := .closed }

/-- A move begins. When it raises before a write, entering leaves the block. -/
def begin (s : FreezeState) : Option (List ClockWrite) → FreezeState
  | some writes => { s with pending := writes }
  | none => if s.phase = .entering then s.leave else s

/-- A write is done: `time_travel` is assigned once time-machine has started. -/
def did (s : FreezeState) (w : ClockWrite) : FreezeState :=
  match w with
  | .python _ => { s with clocks := w.apply s.clocks, travelling := true }
  | .database _ | .session _ => { s with clocks := w.apply s.clocks }

/-- A write raises. A start of time-machine that raises holds no clock. -/
def raised (s : FreezeState) (w : ClockWrite) (effect : Bool) : FreezeState :=
  match w with
  | .python _ => if effect && s.travelling then { s with clocks := w.apply s.clocks } else s
  | .database _ | .session _ => if effect then { s with clocks := w.apply s.clocks } else s

/-- A step of the test. Moves are made in an open block only, and while none is under way;
entering a block in an open one raises. -/
def step (s : FreezeState) : FreezeLabel → Option FreezeState
  | .enter destination env =>
      if s.phase = .entering ∨ s.pending ≠ [] then none
      else if s.travelling then some s
      else
        let now := s.clocks.now env
        let entering := { s with phase := .entering }
        some (entering.begin (match destination with
          | none => applyClockMove s.clocks env (.aware now) (some now)
          | some destination => applyClockMove s.clocks env destination none))
  | .moveTo destination env =>
      if s.phase = .opened ∧ s.pending = [] then
        some (s.begin (applyClockMove s.clocks env destination none))
      else none
  | .shift delta env =>
      if s.phase = .opened ∧ s.pending = [] then
        let now := s.clocks.now env
        some (s.begin (applyClockMove s.clocks env (.aware (now + delta)) (some now)))
      else none
  | .write =>
      match s.pending with
      | [] => none
      | w :: writes =>
          let phase := if writes = [] then .opened else s.phase
          some { s.did w with pending := writes, phase }
  | .interrupt effect =>
      match s.pending with
      | [] => none
      | w :: _ =>
          let stopped := { s.raised w effect with pending := [] }
          some (if s.phase = .entering then stopped.leave else stopped)
  | .exit => if s.phase = .opened ∧ s.pending = [] then some s.leave else none

end FreezeState

/-- The machine of a test that freezes time. -/
def freezeMachine : Machine FreezeState FreezeLabel := ⟨FreezeState.step⟩

/-! ### The order of the writes -/

/-- After each of the writes Python's clock is ahead. -/
def WritesSafe : Clocks → List ClockWrite → Prop
  | _, [] => True
  | c, w :: writes => (w.apply c).PythonAhead ∧ WritesSafe (w.apply c) writes

/-- What a move that does not raise at once writes, forward and backward. -/
theorem applyClockMove_eq_some {c : Clocks} {env : Surroundings} {destination : Destination}
    {reference : Option Time} {writes : List ClockWrite} :
  applyClockMove c env destination reference = some writes
    ↔ ∃ instant, destination = .aware instant ∧ env.guards = true
      ∧ (instant < reference.getD (c.now env)
          ∧ writes = writeFakeNow instant ++ movePythonClock instant
        ∨ reference.getD (c.now env) ≤ instant
          ∧ writes = movePythonClock instant ++ writeFakeNow instant)
  := by
  cases destination with
  | other => simp [applyClockMove]
  | aware instant =>
      rw [applyClockMove.eq_def]
      cases env.guards with
      | false => simp
      | true =>
          rcases lt_or_ge instant (reference.getD (c.now env)) with hback | hforward
          · simp [hback, eq_comm]
          · simp [hforward, not_lt.mpr hforward, eq_comm]

/-- A move keeps Python's clock ahead after each of its writes: forward it is moved first, and
backward last. -/
theorem writesSafe_applyClockMove {c : Clocks} {env : Surroundings} {destination : Destination}
    {reference : Option Time} {writes : List ClockWrite} (hahead : c.PythonAhead)
    (hreference : reference = none ∨ reference = some (c.now env))
    (h : applyClockMove c env destination reference = some writes) :
  WritesSafe c writes
  := by
  have hcurrent : reference.getD (c.now env) = c.now env := by
    rcases hreference with rfl | rfl <;> rfl
  obtain ⟨python, database, session, rfl, hdatabase, hsession⟩ := hahead
  obtain ⟨instant, -, -, hmove⟩ := applyClockMove_eq_some.mp h
  rw [hcurrent] at hmove
  rcases hmove with ⟨hback, rfl⟩ | ⟨hforward, rfl⟩
  · have hle : instant ≤ python := hback.le
    exact ⟨⟨python, instant, session, rfl, hle, hsession⟩,
      ⟨python, instant, instant, rfl, hle, hle⟩,
      ⟨instant, instant, instant, rfl, le_rfl, le_rfl⟩, trivial⟩
  · have hle : python ≤ instant := hforward
    exact ⟨⟨instant, database, session, rfl, hdatabase.trans hle, hsession.trans hle⟩,
      ⟨instant, instant, session, rfl, le_rfl, hsession.trans hle⟩,
      ⟨instant, instant, instant, rfl, le_rfl, le_rfl⟩, trivial⟩

/-- The writes of a move, all done, hold the clocks at one instant. -/
theorem foldl_applyClockMove {c : Clocks} {env : Surroundings} {destination : Destination}
    {reference : Option Time} {writes : List ClockWrite}
    (h : applyClockMove c env destination reference = some writes) :
  writes ≠ [] ∧ (writes.foldl ClockWrite.apply c).PythonAhead
  := by
  obtain ⟨instant, -, -, ⟨-, rfl⟩ | ⟨-, rfl⟩⟩ := applyClockMove_eq_some.mp h
  all_goals
    exact ⟨List.cons_ne_nil _ _, instant, instant, instant, rfl, le_rfl, le_rfl⟩

namespace FreezeState

variable {s s' : FreezeState}

theorem clocks_did (s : FreezeState) (w : ClockWrite) :
  (s.did w).clocks = w.apply s.clocks
  := by
  cases w <;> rfl

theorem clocks_raised (s : FreezeState) (w : ClockWrite) (effect : Bool) :
  (s.raised w effect).clocks = s.clocks ∨ (s.raised w effect).clocks = w.apply s.clocks
  := by
  cases w <;> simp only [raised] <;> split
  all_goals first | exact .inr rfl | exact .inl rfl

theorem phase_raised (s : FreezeState) (w : ClockWrite) (effect : Bool) :
  (s.raised w effect).phase = s.phase
  := by
  cases w <;> simp only [raised] <;> split <;> rfl

theorem phase_leave (s : FreezeState) :
  s.leave.phase = .closed ∧ s.leave.pending = []
  := by
  rw [leave, releaseClock]
  split <;> exact ⟨rfl, rfl⟩

/-- In an open block Python's clock is ahead, and stays ahead through the writes that are still
to be done; while a block is entered, the writes still to be done will bring that about. -/
structure Guarded (s : FreezeState) : Prop where
  opened : s.phase = .opened → s.clocks.PythonAhead ∧ WritesSafe s.clocks s.pending
  entering : s.phase = .entering →
    s.pending ≠ [] ∧ (s.pending.foldl ClockWrite.apply s.clocks).PythonAhead
  closed : s.phase = .closed → s.pending = []

theorem guarded_leave (s : FreezeState) :
  s.leave.Guarded
  := by
  obtain ⟨hphase, hpending⟩ := s.phase_leave
  constructor
  · rw [hphase]
    rintro ⟨⟩
  · rw [hphase]
    rintro ⟨⟩
  · exact fun _ => hpending

/-- A move that begins in an open block keeps Python's clock ahead. -/
theorem Guarded.begin {env : Surroundings} {destination : Destination}
    {reference : Option Time} (h : s.Guarded) (hphase : s.phase = .opened)
    (hreference : reference = none ∨ reference = some (s.clocks.now env)) :
  (s.begin (applyClockMove s.clocks env destination reference)).Guarded
  := by
  have hahead := (h.opened hphase).1
  cases hmove : applyClockMove s.clocks env destination reference with
  | none =>
      rw [FreezeState.begin, if_neg (by rw [hphase]; rintro ⟨⟩)]
      exact h
  | some writes =>
      constructor
      · intro _
        exact ⟨hahead, writesSafe_applyClockMove hahead hreference hmove⟩
      · intro hentering
        cases hphase.symm.trans hentering
      · intro hclosed
        cases hphase.symm.trans hclosed

/-- A block that begins to be entered will have Python's clock ahead. -/
theorem guarded_enter {env : Surroundings} {destination : Destination}
    {reference : Option Time} :
  FreezeState.Guarded ({ s with phase := .entering }.begin
    (applyClockMove s.clocks env destination reference))
  := by
  cases hmove : applyClockMove s.clocks env destination reference with
  | none =>
      apply guarded_leave
  | some writes =>
      constructor
      · rintro ⟨⟩
      · intro _
        exact foldl_applyClockMove hmove
      · rintro ⟨⟩

/-- A write that is done keeps the clocks as the writes after it need them. -/
theorem Guarded.write {w : ClockWrite} {writes : List ClockWrite} (h : s.Guarded)
    (hpending : s.pending = w :: writes) :
  Guarded { s.did w with
    pending := writes, phase := if writes = [] then .opened else s.phase }
  := by
  have hclocks := s.clocks_did w
  by_cases hlast : writes = []
  · subst hlast
    have hahead : (w.apply s.clocks).PythonAhead := by
      cases hphase : s.phase with
      | closed => simp [h.closed hphase] at hpending
      | entering => simpa [hpending] using (h.entering hphase).2
      | opened =>
          have hsafe := (h.opened hphase).2
          rw [hpending] at hsafe
          exact hsafe.1
    constructor
    · intro _
      rw [hclocks]
      exact ⟨hahead, trivial⟩
    · simp
    · simp
  · rw [if_neg hlast]
    constructor
    · intro hphase
      have hsafe := (h.opened hphase).2
      rw [hpending] at hsafe
      rw [hclocks]
      exact hsafe
    · intro hphase
      have hfold := (h.entering hphase).2
      rw [hpending] at hfold
      rw [hclocks]
      exact ⟨hlast, hfold⟩
    · intro hphase
      rw [h.closed hphase] at hpending
      cases hpending

/-- A write that raises in an open block leaves Python's clock ahead, done or not. -/
theorem Guarded.raised {w : ClockWrite} {writes : List ClockWrite} {effect : Bool}
    (h : s.Guarded) (hpending : s.pending = w :: writes) (hentering : s.phase ≠ .entering) :
  Guarded { s.raised w effect with pending := [] }
  := by
  have hkeeps := s.phase_raised w effect
  constructor
  · intro hphase
    obtain ⟨hahead, hsafe⟩ := h.opened (hkeeps.symm.trans hphase)
    rw [hpending] at hsafe
    rcases s.clocks_raised w effect with hclocks | hclocks
    · exact ⟨hclocks ▸ hahead, trivial⟩
    · exact ⟨hclocks ▸ hsafe.1, trivial⟩
  · intro hphase
    exact absurd (hkeeps.symm.trans hphase) hentering
  · exact fun _ => rfl

/-- Python's clock stays ahead, whatever the test does and wherever it is interrupted. -/
theorem Guarded.step {l : FreezeLabel} (h : s.Guarded) (hs : s.step l = some s') :
  s'.Guarded
  := by
  cases l with
  | enter destination env =>
      rw [FreezeState.step] at hs
      split at hs
      · cases hs
      · split at hs
        · cases hs
          exact h
        · cases hs
          cases destination <;> apply guarded_enter
  | moveTo destination env =>
      rw [FreezeState.step] at hs
      split at hs
      · rename_i hopened
        cases hs
        exact h.begin hopened.1 (.inl rfl)
      · cases hs
  | shift delta env =>
      rw [FreezeState.step] at hs
      split at hs
      · rename_i hopened
        cases hs
        exact h.begin hopened.1 (.inr rfl)
      · cases hs
  | write =>
      rw [FreezeState.step] at hs
      cases hpending : s.pending with
      | nil =>
          rw [hpending] at hs
          cases hs
      | cons w writes =>
          rw [hpending] at hs
          cases hs
          exact h.write hpending
  | interrupt effect =>
      rw [FreezeState.step] at hs
      cases hpending : s.pending with
      | nil =>
          rw [hpending] at hs
          cases hs
      | cons w writes =>
          rw [hpending] at hs
          cases hs
          split
          · apply guarded_leave
          · rename_i hentering
            exact h.raised hpending hentering
  | exit =>
      rw [FreezeState.step] at hs
      split at hs
      · cases hs
        apply guarded_leave
      · cases hs

end FreezeState

/-- From an open block in which Python's clock is ahead, it is ahead at every point of every
sequence of moves, however often they are interrupted. -/
theorem python_ahead {s s' : FreezeState} {ls : List FreezeLabel} (hopened : s.phase = .opened)
    (hpending : s.pending = []) (hahead : s.clocks.PythonAhead)
    (hrun : freezeMachine.run s ls = some s') (hopened' : s'.phase = .opened) :
  s'.clocks.PythonAhead
  := by
  have hguarded : s.Guarded := by
    constructor
    · intro _
      rw [hpending]
      exact ⟨hahead, trivial⟩
    · intro hentering
      cases hopened.symm.trans hentering
    · exact fun _ => hpending
  have hend := Machine.invariant (fun _ _ _ h hs => h.step hs) hguarded hrun
  exact (hend.opened hopened').1

/-- A move back that is interrupted between its first two writes, and then a move forward that
has moved Python's clock. -/
theorem python_ahead_interrupted :
  freezeMachine.run ⟨⟨some 10, some 10, some 10⟩, true, [], .opened⟩
      [.moveTo (.aware 5) ⟨0, true⟩, .write, .interrupt false, .shift 3 ⟨0, true⟩, .write]
      = some ⟨⟨some 13, some 5, some 10⟩, true, writeFakeNow 13, .opened⟩
    ∧ Clocks.PythonAhead ⟨some 13, some 5, some 10⟩
  := by
  have hahead : Clocks.PythonAhead ⟨some 10, some 10, some 10⟩ :=
    ⟨10, 10, 10, rfl, le_rfl, le_rfl⟩
  have hrun : freezeMachine.run ⟨⟨some 10, some 10, some 10⟩, true, [], .opened⟩
      [.moveTo (.aware 5) ⟨0, true⟩, .write, .interrupt false, .shift 3 ⟨0, true⟩, .write]
      = some ⟨⟨some 13, some 5, some 10⟩, true, writeFakeNow 13, .opened⟩ := rfl
  use hrun
  have hend := python_ahead rfl rfl hahead hrun rfl
  exact hend

end DjangoAbsurd
