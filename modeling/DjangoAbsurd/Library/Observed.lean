import Mathlib.Tactic.Common

/-!
# Observed computations

A program tells its observers what happens, and an observer may raise instead of taking
note. An observed computation ends with a value or an exception, and leaves what its
observers were told, the last first.

A *script* is a list of sends and an ending. A send tells an event, and tells a report of
the failure when an observer raises; it escapes when an observer raises at the report as
well. Run before observers, a script ends with the first send that escapes, and with its
ending when none does: `Script.run_eq_ending_iff` says when observers leave its ending as it
is. Running respects the composition of scripts.
-/

/-- What the observers of a program raise at an event, given what they were told before it.
They raise nothing but what `caught` holds of. -/
structure Observers (Event Exc : Type) (caught : Exc → Bool) where
  raises : List Event → Event → Option Exc
  caught_of_raises : ∀ {told event e}, raises told event = some e → caught e = true

/-- The observers that raise nothing. -/
def Observers.silent (Event Exc : Type) (caught : Exc → Bool) : Observers Event Exc caught where
  raises _ _ := none
  caught_of_raises := by simp

/-- A computation: from what the observers were told, how it ends and what they were told by
then. -/
def Observed (Event Exc α : Type) := List Event → Except Exc α × List Event

namespace Observed

variable {Event Exc α β : Type} {caught : Exc → Bool}

/-- A computation that tells nothing. -/
def ended (ending : Except Exc α) : Observed Event Exc α := fun told => (ending, told)

/-- One computation after the other, unless the first raises. -/
def andThen (x : Observed Event Exc α) (f : α → Observed Event Exc β) : Observed Event Exc β :=
  fun told =>
    match x told with
    | (.ok a, told) => f a told
    | (.error e, told) => (.error e, told)

instance : Monad (Observed Event Exc) where
  pure a := ended (.ok a)
  bind := andThen

instance : LawfulMonad (Observed Event Exc) := by
  refine LawfulMonad.mk' _ ?_ ?_ ?_
  · intro α x
    funext told
    change andThen x _ told = x told
    rw [andThen]
    rcases x told with ⟨ending | ending, told'⟩ <;> rfl
  · intro α β a f
    rfl
  · intro α β γ x f g
    funext told
    change andThen (andThen x f) g told = andThen x (fun a => andThen (f a) g) told
    rw [andThen, andThen, andThen]
    rcases x told with ⟨ending | ending, told'⟩ <;> rfl

@[simp]
theorem ended_ok_bind (a : α) (f : α → Observed Event Exc β) :
  (ended (.ok a) >>= f) = f a
  := rfl

@[simp]
theorem ended_error_bind (e : Exc) (f : α → Observed Event Exc β) :
  (ended (.error e) >>= f) = ended (.error e)
  := rfl

/-- `try` with a handler of the exceptions that `caught` holds of. -/
def tryExcept (caught : Exc → Bool) (x : Observed Event Exc α)
    (handler : Exc → Observed Event Exc α) : Observed Event Exc α :=
  fun told =>
    match x told with
    | (.ok a, told) => (.ok a, told)
    | (.error e, told) => if caught e then handler e told else (.error e, told)

@[simp]
theorem tryExcept_ended_ok (a : α) (handler : Exc → Observed Event Exc α) :
  tryExcept caught (ended (.ok a)) handler = ended (.ok a)
  := rfl

@[simp]
theorem tryExcept_ended_error (e : Exc) (handler : Exc → Observed Event Exc α) :
  tryExcept caught (ended (.error e)) handler = if caught e then handler e else ended (.error e)
  := by
  funext told
  change (if caught e then handler e told else (.error e, told)) = _
  cases caught e <;> rfl

/-- `try` with a handler that raises another exception in place of each. -/
def translate (g : Exc → Exc) (x : Observed Event Exc α) : Observed Event Exc α :=
  fun told => ((x told).1.mapError g, (x told).2)

/-- Telling the observers an event. -/
def tell (obs : Observers Event Exc caught) (event : Event) : Observed Event Exc Unit :=
  fun told =>
    match obs.raises told event with
    | none => (.ok (), event :: told)
    | some e => (.error e, event :: told)

/-- Telling an event, and a report of the failure when an observer raises. -/
def reported (obs : Observers Event Exc caught) (event : Event) (report : Exc → Event) :
    Observed Event Exc Unit :=
  tryExcept caught (tell obs event) (fun e => tell obs (report e))

/-- Telling an event and a report of the failure, where a failure of the report is
suppressed. -/
def suppressed (obs : Observers Event Exc caught) (event : Event) (report : Exc → Event) :
    Observed Event Exc Unit :=
  tryExcept caught (tell obs event)
    (fun e => tryExcept caught (tell obs (report e)) (fun _ => ended (.ok ())))

end Observed

/-! ### Sends and scripts -/

/-- A send: what is told, the report of a failure, and what an exception that escapes it is
translated to. -/
structure Send (Event Exc : Type) where
  event : Event
  report : Exc → Event
  translation : Exc → Exc

namespace Send

variable {Event Exc α β : Type} {caught : Exc → Bool} (obs : Observers Event Exc caught)

/-- The exception a send escapes with, if it does. -/
def escape (s : Send Event Exc) (told : List Event) : Option Exc :=
  (obs.raises told s.event).bind
    (fun e => (obs.raises (s.event :: told) (s.report e)).map s.translation)

/-- What the observers were told after a send. -/
def after (s : Send Event Exc) (told : List Event) : List Event :=
  match obs.raises told s.event with
  | none => s.event :: told
  | some e => s.report e :: s.event :: told

/-- The exception the first of the sends to escape does so with, if one does. -/
def firstEscape : List (Send Event Exc) → List Event → Option Exc
  | [], _ => none
  | s :: sends, told => (s.escape obs told).or (firstEscape sends (s.after obs told))

/-- What the observers were told after the sends, up to the first that escapes. -/
def afterAll : List (Send Event Exc) → List Event → List Event
  | [], told => told
  | s :: sends, told =>
      if (s.escape obs told).isSome then s.after obs told else afterAll sends (s.after obs told)

/-- The send with what escapes it translated further. -/
def translate (g : Exc → Exc) (s : Send Event Exc) : Send Event Exc :=
  { s with translation := g ∘ s.translation }

@[simp]
theorem escape_silent (s : Send Event Exc) (told : List Event) :
  s.escape (.silent Event Exc caught) told = none
  := rfl

@[simp]
theorem firstEscape_silent (sends : List (Send Event Exc)) (told : List Event) :
  firstEscape (.silent Event Exc caught) sends told = none
  := by
  induction sends generalizing told with
  | nil => rfl
  | cons s sends ih =>
      rw [firstEscape, escape_silent, ih]
      rfl

theorem firstEscape_append (sends sends' : List (Send Event Exc)) (told : List Event) :
  firstEscape obs (sends ++ sends') told
    = (firstEscape obs sends told).or (firstEscape obs sends' (afterAll obs sends told))
  := by
  induction sends generalizing told with
  | nil => rfl
  | cons s sends ih =>
      rw [List.cons_append, firstEscape, firstEscape, afterAll, ih]
      cases s.escape obs told <;> rfl

theorem afterAll_append (sends sends' : List (Send Event Exc)) (told : List Event) :
  afterAll obs (sends ++ sends') told
    = if (firstEscape obs sends told).isSome then afterAll obs sends told
      else afterAll obs sends' (afterAll obs sends told)
  := by
  induction sends generalizing told with
  | nil => rfl
  | cons s sends ih =>
      rw [List.cons_append, firstEscape, afterAll, afterAll, ih]
      cases s.escape obs told <;> rfl

theorem escape_translate (g : Exc → Exc) (s : Send Event Exc) (told : List Event) :
  (s.translate g).escape obs told = (s.escape obs told).map g
  := by
  rw [escape, escape, Option.map_bind]
  simp only [Function.comp_def, Option.map_map]
  rfl

theorem firstEscape_translate (g : Exc → Exc) (sends : List (Send Event Exc))
    (told : List Event) :
  firstEscape obs (sends.map (translate g)) told = (firstEscape obs sends told).map g
  := by
  induction sends generalizing told with
  | nil => rfl
  | cons s sends ih =>
      rw [List.map_cons, firstEscape, firstEscape, escape_translate, Option.map_or]
      exact congrArg _ (ih _)

theorem afterAll_translate (g : Exc → Exc) (sends : List (Send Event Exc))
    (told : List Event) :
  afterAll obs (sends.map (translate g)) told = afterAll obs sends told
  := by
  induction sends generalizing told with
  | nil => rfl
  | cons s sends ih =>
      rw [List.map_cons, afterAll, afterAll, escape_translate, Option.isSome_map]
      split
      · rfl
      · exact ih _

/-- A send that is reported on failure, as a computation. -/
theorem reported_apply (event : Event) (report : Exc → Event) (told : List Event) :
  Observed.reported obs event report told
    = (match escape obs ⟨event, report, id⟩ told with
        | some e => .error e
        | none => .ok (),
       after obs ⟨event, report, id⟩ told)
  := by
  rw [Observed.reported, Observed.tryExcept, Observed.tell, escape, after]
  cases hevent : obs.raises told event with
  | none => rfl
  | some e =>
      simp only [obs.caught_of_raises hevent, if_true, Option.bind_some, Option.map_id, id]
      rw [Observed.tell]
      cases obs.raises (event :: told) (report e) <;> rfl

end Send

/-- The sends of a computation, and how it ends when none of them escapes. -/
structure Script (Event Exc α : Type) where
  sends : List (Send Event Exc)
  ending : Except Exc α

namespace Script

variable {Event Exc α β : Type} {caught : Exc → Bool} (obs : Observers Event Exc caught)

/-- The script without a send. -/
def ended (ending : Except Exc α) : Script Event Exc α := ⟨[], ending⟩

/-- The script of one send. -/
def send (event : Event) (report : Exc → Event) : Script Event Exc Unit :=
  ⟨[⟨event, report, id⟩], .ok ()⟩

/-- One script after the other, unless the first raises. -/
def andThen (x : Script Event Exc α) (f : α → Script Event Exc β) : Script Event Exc β :=
  match x.ending with
  | .ok a => ⟨x.sends ++ (f a).sends, (f a).ending⟩
  | .error e => ⟨x.sends, .error e⟩

instance : Monad (Script Event Exc) where
  pure a := ended (.ok a)
  bind := andThen

/-- The script with its exceptions translated. -/
def translate (g : Exc → Exc) (x : Script Event Exc α) : Script Event Exc α :=
  ⟨x.sends.map (Send.translate g), x.ending.mapError g⟩

@[simp]
theorem ending_bind (x : Script Event Exc α) (f : α → Script Event Exc β) :
  (x >>= f).ending = x.ending >>= fun a => (f a).ending
  := by
  change (x.andThen f).ending = _
  rw [andThen]
  cases x.ending <;> rfl

@[simp]
theorem ending_ended (ending : Except Exc α) :
  (ended ending : Script Event Exc α).ending = ending
  := rfl

/-- The exception that escapes a script, if one does. -/
def escape (x : Script Event Exc α) (told : List Event) : Option Exc :=
  Send.firstEscape obs x.sends told

/-- The computation that makes the sends and then ends. -/
def run (x : Script Event Exc α) : Observed Event Exc α :=
  fun told =>
    (match x.escape obs told with
      | some e => .error e
      | none => x.ending,
     Send.afterAll obs x.sends told)

/-- Unobserved, a script ends with its ending. -/
theorem run_silent (x : Script Event Exc α) (told : List Event) :
  (x.run (.silent Event Exc caught) told).1 = x.ending
  := by
  rw [run, escape, Send.firstEscape_silent]

/-- A script ends with its ending exactly when what escapes it is the exception that it ends
with anyway. -/
theorem run_eq_ending_iff {x : Script Event Exc α} {told : List Event} :
  (x.run obs told).1 = x.ending ↔ ∀ e, x.escape obs told = some e → x.ending = .error e
  := by
  rw [run]
  cases x.escape obs told with
  | none => simp
  | some e => simp [eq_comm]

@[simp]
theorem run_ended (ending : Except Exc α) :
  (ended ending).run obs = Observed.ended ending
  := rfl

@[simp]
theorem run_pure (a : α) :
  (pure a : Script Event Exc α).run obs = pure a
  := rfl

@[simp]
theorem run_send (event : Event) (report : Exc → Event) :
  (send event report).run obs = Observed.reported obs event report
  := by
  funext told
  rw [Send.reported_apply, run, escape, send, Send.firstEscape, Send.firstEscape, Send.afterAll]
  cases Send.escape obs ⟨event, report, id⟩ told <;> rfl

@[simp]
theorem run_bind (x : Script Event Exc α) (f : α → Script Event Exc β) :
  (x >>= f).run obs = x.run obs >>= fun a => (f a).run obs
  := by
  funext told
  change (x.andThen f).run obs told = Observed.andThen (x.run obs) _ told
  rw [andThen, Observed.andThen, run]
  cases hending : x.ending with
  | ok a =>
      rw [run, escape, escape, Send.firstEscape_append, Send.afterAll_append, hending]
      cases Send.firstEscape obs x.sends told <;> rfl
  | error e =>
      rw [run, escape, escape, hending]
      cases Send.firstEscape obs x.sends told <;> rfl

@[simp]
theorem run_translate (g : Exc → Exc) (x : Script Event Exc α) :
  (x.translate g).run obs = Observed.translate g (x.run obs)
  := by
  funext told
  rw [Observed.translate, run, run, escape, escape, translate, Send.firstEscape_translate,
    Send.afterAll_translate]
  cases Send.firstEscape obs x.sends told <;> rfl

end Script

/-! ### What is suppressed -/

namespace Observed

variable {Event Exc α : Type} {caught : Exc → Bool} (obs : Observers Event Exc caught)

/-- A suppressed send ends well. -/
theorem suppressed_ends (event : Event) (report : Exc → Event) (told : List Event) :
  (suppressed obs event report told).1 = .ok ()
  := by
  rw [suppressed, tryExcept, tell]
  cases hevent : obs.raises told event with
  | none => rfl
  | some e =>
      simp only [obs.caught_of_raises hevent, if_true]
      rw [tryExcept, tell]
      cases hreport : obs.raises (event :: told) (report e) with
      | none => rfl
      | some e' =>
          simp only [obs.caught_of_raises hreport, if_true]
          rfl

/-- What follows a suppressed send ends as it does from what the observers were told by
it. -/
theorem suppressed_bind_ends (event : Event) (report : Exc → Event)
    (f : Unit → Observed Event Exc α) (told : List Event) :
  ((suppressed obs event report >>= f) told).1 = (f () (suppressed obs event report told).2).1
  := by
  have hends := suppressed_ends obs event report told
  change (andThen _ _ told).1 = _
  rw [andThen]
  cases hrun : suppressed obs event report told with
  | mk ending told' =>
      rw [hrun] at hends
      obtain rfl : ending = .ok () := hends
      rfl

/-- A computation that is followed by one that gives its value back ends as it does. -/
theorem bind_ends_of_keeps {x : Observed Event Exc α} {f : α → Observed Event Exc α}
    (h : ∀ a told, (f a told).1 = .ok a) (told : List Event) :
  ((x >>= f) told).1 = (x told).1
  := by
  change (andThen x f told).1 = _
  rw [andThen]
  rcases x told with ⟨e | a, told'⟩
  · rfl
  · exact h a told'

/-- A computation with a handler that raises again what it caught ends as it does. -/
theorem tryExcept_ends_of_keeps {x : Observed Event Exc α} {handler : Exc → Observed Event Exc α}
    (h : ∀ e told, (handler e told).1 = .error e) (told : List Event) :
  (tryExcept caught x handler told).1 = (x told).1
  := by
  rw [tryExcept]
  rcases x told with ⟨e | a, told'⟩
  · dsimp only
    split
    · exact h e told'
    · rfl
  · rfl

end Observed
