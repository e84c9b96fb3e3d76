import DjangoAbsurd.Engine.State

/-!
# Cron expressions of the beat scheduler

croniter reads an expression field by field. Five fields are minute, hour, day, month and
weekday; a sixth field is seconds and comes last, or first with `second_at_beginning=True`;
a seventh is the year. The check asks croniter with the seconds last, the runtime with the
seconds first, and for a moment besides: `isValidBeatCron_agrees_iff` goes through the places
of an expression and the two units of each.

What a field may say for a unit, and which moment comes next, are croniter's own.
-/

namespace DjangoAbsurd

open Engine (Time)

/-- What a field of a cron expression is about. -/
inductive CronUnit where
  | second
  | minute
  | hour
  | day
  | month
  | weekday
  | year
  deriving DecidableEq, Repr

/-- The units of five fields. -/
def unixCronUnits : List CronUnit := [.minute, .hour, .day, .month, .weekday]

/-- The units of six fields. -/
def secondCronUnits (secondAtBeginning : Bool) : List CronUnit :=
  if secondAtBeginning then .second :: unixCronUnits else unixCronUnits ++ [.second]

/-- The units of the fields of an expression, by their number. -/
def cronUnits (secondAtBeginning : Bool) : ℕ → Option (List CronUnit)
  | 5 => some unixCronUnits
  | 6 => some (secondCronUnits secondAtBeginning)
  | 7 => some (secondCronUnits secondAtBeginning ++ [.year])
  | _ => none

/-- The fields of an expression, with `@`-aliases expanded; whether a text is a field of a
unit in an expression of so many fields (a weekday may be 7 when there are five, a day 0 when
there are six); and the next moment, if there is one, that fields describe. -/
structure Croniter where
  split : String → List String
  fits : ℕ → CronUnit → String → Bool
  next : List (CronUnit × String) → Time → Option Time

/-- `CroniterBadCronError` and `CroniterBadDateError`. -/
inductive CronError where
  | badCron
  | badDate
  deriving DecidableEq, Repr

/-- `croniter.expand`. -/
def Croniter.expand (c : Croniter) (expression : String) (secondAtBeginning : Bool) :
    Except CronError (List (CronUnit × String)) :=
  match cronUnits secondAtBeginning (c.split expression).length with
  | none => .error .badCron
  | some units =>
      if ∀ place ∈ units.zip (c.split expression),
          c.fits (c.split expression).length place.1 place.2 then
        .ok (units.zip (c.split expression))
      else .error .badCron

/-- `croniter.is_valid`. -/
def Croniter.isValid (c : Croniter) (expression : String) : Bool :=
  match c.expand expression false with
  | .ok _ => true
  | .error _ => false

/-- `is_valid_beat_cron`. -/
def isValidBeatCron (c : Croniter) : PyValue → Bool
  | .str cron => c.isValid cron
  | _ => false

/-- `get_next_datetime`. -/
def getNextDatetime (c : Croniter) (cron : String) (after : Time) : Except CronError Time :=
  match c.expand cron true with
  | .error e => .error e
  | .ok fields =>
      match c.next fields after with
      | none => .error .badDate
      | some moment => .ok moment

/-! ### The places of an expression -/

/-- A field, with the unit of its place when the seconds come last and when they come first. -/
structure CronPlace where
  last : CronUnit
  first : CronUnit
  field : String

/-- The places of the fields of an expression, if they are as many as it may have. -/
def cronPlaces : List String → Option (List CronPlace)
  | [f₁, f₂, f₃, f₄, f₅] =>
      some [⟨.minute, .minute, f₁⟩, ⟨.hour, .hour, f₂⟩, ⟨.day, .day, f₃⟩, ⟨.month, .month, f₄⟩,
        ⟨.weekday, .weekday, f₅⟩]
  | [f₁, f₂, f₃, f₄, f₅, f₆] =>
      some [⟨.minute, .second, f₁⟩, ⟨.hour, .minute, f₂⟩, ⟨.day, .hour, f₃⟩, ⟨.month, .day, f₄⟩,
        ⟨.weekday, .month, f₅⟩, ⟨.second, .weekday, f₆⟩]
  | [f₁, f₂, f₃, f₄, f₅, f₆, f₇] =>
      some [⟨.minute, .second, f₁⟩, ⟨.hour, .minute, f₂⟩, ⟨.day, .hour, f₃⟩, ⟨.month, .day, f₄⟩,
        ⟨.weekday, .month, f₅⟩, ⟨.second, .weekday, f₆⟩, ⟨.year, .year, f₇⟩]
  | _ => none

/-- The unit of a place. -/
def CronPlace.unit (p : CronPlace) (secondAtBeginning : Bool) : CronUnit :=
  if secondAtBeginning then p.first else p.last

/-- The places are the fields with their units, wherever the seconds stand. -/
theorem zip_cronUnits (secondAtBeginning : Bool) (fields : List String) :
  (cronUnits secondAtBeginning fields.length).map (fun units => units.zip fields)
    = (cronPlaces fields).map
        (fun places => places.map (fun p => (p.unit secondAtBeginning, p.field)))
  := by
  match fields with
  | [] | [_] | [_, _] | [_, _, _] | [_, _, _, _] => rfl
  | [_, _, _, _, _] | [_, _, _, _, _, _] | [_, _, _, _, _, _, _] =>
      cases secondAtBeginning <;> rfl
  | _ :: _ :: _ :: _ :: _ :: _ :: _ :: _ :: fields =>
      have hlength : ∀ n, n ≠ 5 → n ≠ 6 → n ≠ 7 → cronUnits secondAtBeginning n = none := by
        intro n h₅ h₆ h₇
        unfold cronUnits
        split <;> simp_all
      rw [hlength _ (by simp) (by simp) (by simp)]
      rfl

section

variable (c : Croniter)

/-- The fields fit the units of their places. -/
def Croniter.Fits (secondAtBeginning : Bool) (places : List CronPlace) : Prop :=
  ∀ p ∈ places, c.fits places.length (p.unit secondAtBeginning) p.field = true

instance (secondAtBeginning : Bool) (places : List CronPlace) :
    Decidable (c.Fits secondAtBeginning places) :=
  inferInstanceAs (Decidable (∀ p ∈ places, _))

theorem length_cronPlaces {fields : List String} {places : List CronPlace}
    (h : cronPlaces fields = some places) :
  places.length = fields.length
  := by
  unfold cronPlaces at h
  split at h
  case h_4 => cases h
  all_goals
    cases h
    rfl

/-- An expression is read place by place. -/
theorem expand_eq (expression : String) (secondAtBeginning : Bool) :
  c.expand expression secondAtBeginning
    = match cronPlaces (c.split expression) with
      | none => .error .badCron
      | some places =>
          if c.Fits secondAtBeginning places then
            .ok (places.map (fun p => (p.unit secondAtBeginning, p.field)))
          else .error .badCron
  := by
  have hzip := zip_cronUnits secondAtBeginning (c.split expression)
  rw [Croniter.expand]
  cases hunits : cronUnits secondAtBeginning (c.split expression).length with
  | none =>
      rw [hunits, Option.map_none] at hzip
      rw [Option.map_eq_none_iff.mp hzip.symm]
  | some units =>
      rw [hunits, Option.map_some] at hzip
      obtain ⟨places, hplaces, hfields⟩ := Option.map_eq_some_iff.mp hzip.symm
      rw [hplaces]
      dsimp only
      rw [← hfields]
      simp only [List.forall_mem_map, Croniter.Fits, length_cronPlaces hplaces]

theorem isValidBeatCron_iff (cron : String) :
  isValidBeatCron c (.str cron) = true
    ↔ ∃ places, cronPlaces (c.split cron) = some places ∧ c.Fits false places
  := by
  rw [isValidBeatCron, Croniter.isValid, expand_eq]
  cases cronPlaces (c.split cron) with
  | none => simp
  | some places => by_cases hfits : c.Fits false places <;> simp [hfits]

/-- The fields as the runtime reads them. -/
def runtimeFields (places : List CronPlace) : List (CronUnit × String) :=
  places.map (fun p => (p.first, p.field))

theorem getNextDatetime_isOk_iff (cron : String) (after : Time) :
  (∃ moment, getNextDatetime c cron after = .ok moment)
    ↔ ∃ places, cronPlaces (c.split cron) = some places ∧ c.Fits true places
      ∧ c.next (runtimeFields places) after ≠ none
  := by
  rw [getNextDatetime, expand_eq]
  cases cronPlaces (c.split cron) with
  | none => simp
  | some places =>
      by_cases hfits : c.Fits true places
      · have hfields : places.map (fun p => (p.unit true, p.field)) = runtimeFields places := rfl
        simp only [hfits, if_true, hfields, Option.some.injEq, exists_eq_left', true_and]
        cases c.next (runtimeFields places) after <;> simp
      · simp [hfits]

end

/-! ### The check against the runtime -/

/-- The moments fields describe, and up to when croniter looks for the next one. -/
structure Croniter.Calendar (c : Croniter) where
  occurs : List (CronUnit × String) → Time → Prop
  horizon : Time → Time
  next_ne_none_iff : ∀ fields after, c.next fields after ≠ none
    ↔ ∃ moment, after < moment ∧ moment ≤ horizon after ∧ occurs fields moment

section

variable {c : Croniter}

/-- The fields describe a moment croniter looks at. -/
def Croniter.Calendar.Describes (calendar : c.Calendar) (places : List CronPlace)
    (after : Time) : Prop :=
  ∃ moment, after < moment ∧ moment ≤ calendar.horizon after
    ∧ calendar.occurs (runtimeFields places) moment

/-- The field is one of the unit of its place, only when the seconds come last. -/
def CronPlace.OnlyLast (c : Croniter) (n : ℕ) (p : CronPlace) : Prop :=
  c.fits n p.last p.field = true ∧ c.fits n p.first p.field = false

/-- The field is one of the unit of its place, only when the seconds come first. -/
def CronPlace.OnlyFirst (c : Croniter) (n : ℕ) (p : CronPlace) : Prop :=
  c.fits n p.last p.field = false ∧ c.fits n p.first p.field = true

/-- Wherever the seconds come, the field is one of the unit of its place. -/
def CronPlace.Both (c : Croniter) (n : ℕ) (p : CronPlace) : Prop :=
  c.fits n p.last p.field = true ∧ c.fits n p.first p.field = true

/-- Wherever the seconds come, the field is not one of the unit of its place. -/
def CronPlace.Neither (c : Croniter) (n : ℕ) (p : CronPlace) : Prop :=
  c.fits n p.last p.field = false ∧ c.fits n p.first p.field = false

/-- Some field fits neither unit of its place; or some field fits only the one with the seconds
first, and some other only the one with the seconds last, or there is no moment; or all fields fit
both units, and there is a moment. -/
def PlacesAgree (calendar : c.Calendar) (places : List CronPlace) (after : Time) : Prop :=
  (∃ p ∈ places, p.Neither c places.length)
    ∨ ((∃ p ∈ places, p.OnlyFirst c places.length)
      ∧ ((∃ p ∈ places, p.OnlyLast c places.length) ∨ ¬ calendar.Describes places after))
    ∨ ((∀ p ∈ places, p.Both c places.length) ∧ calendar.Describes places after)

/-- A list that passes the first test exactly when it passes the second and there is a moment. -/
theorem passes_iff {α : Type} (as : List α) (last first : α → Bool) (moment : Prop) :
  ((∀ a ∈ as, last a = true) ↔ (∀ a ∈ as, first a = true) ∧ moment)
    ↔ (∃ a ∈ as, last a = false ∧ first a = false)
      ∨ ((∃ a ∈ as, last a = false ∧ first a = true)
        ∧ ((∃ a ∈ as, last a = true ∧ first a = false) ∨ ¬ moment))
      ∨ ((∀ a ∈ as, last a = true ∧ first a = true) ∧ moment)
  := by
  by_cases hlast : ∀ a ∈ as, last a = true
  · have hnot : ∀ b, ¬ ∃ a ∈ as, last a = false ∧ first a = b := by
      rintro b ⟨a, ha, hfalse, -⟩
      rw [hlast a ha] at hfalse
      cases hfalse
    have hboth : (∀ a ∈ as, last a = true ∧ first a = true) ↔ ∀ a ∈ as, first a = true :=
      forall₂_congr (fun a ha => and_iff_right (hlast a ha))
    simp only [hnot, false_or, false_and, hboth]
    exact iff_true_left hlast
  · have hnone : ¬ ∀ a ∈ as, last a = true ∧ first a = true :=
      fun hall => hlast (fun a ha => (hall a ha).1)
    rw [iff_false_left hlast]
    simp only [hnone, false_and, or_false]
    push Not at hlast
    obtain ⟨a, ha, hne⟩ := hlast
    have hfalse : last a = false := Bool.eq_false_of_not_eq_true hne
    by_cases hfirst : ∀ a ∈ as, first a = true
    · have hnot : ∀ b, ¬ ∃ a ∈ as, last a = b ∧ first a = false := by
        rintro b ⟨a', ha', -, hfalse'⟩
        rw [hfirst a' ha'] at hfalse'
        cases hfalse'
      rw [and_iff_right hfirst]
      simp only [hnot, false_or]
      exact ⟨fun hmoment => ⟨⟨a, ha, hfalse, hfirst a ha⟩, hmoment⟩, And.right⟩
    · refine iff_of_true (fun h => hfirst h.1) ?_
      push Not at hfirst
      obtain ⟨a', ha', hne'⟩ := hfirst
      have hfalse' : first a' = false := Bool.eq_false_of_not_eq_true hne'
      cases hfirst : first a with
      | false => exact .inl ⟨a, ha, hfalse, hfirst⟩
      | true =>
          cases hlast' : last a' with
          | false => exact .inl ⟨a', ha', hlast', hfalse'⟩
          | true => exact .inr ⟨⟨a, ha, hfalse, hfirst⟩, .inl ⟨a', ha', hlast', hfalse'⟩⟩

/-- The check accepts an expression exactly when the runtime gets a moment from it, if and only
if the places of the expression agree. -/
theorem isValidBeatCron_agrees_iff (calendar : c.Calendar) (cron : String) (after : Time) :
  (isValidBeatCron c (.str cron) = true ↔ ∃ moment, getNextDatetime c cron after = .ok moment)
    ↔ ∀ places, cronPlaces (c.split cron) = some places → PlacesAgree calendar places after
  := by
  rw [isValidBeatCron_iff, getNextDatetime_isOk_iff]
  cases cronPlaces (c.split cron) with
  | none => simp
  | some places =>
      simp only [Option.some.injEq, exists_eq_left', forall_eq', calendar.next_ne_none_iff]
      apply passes_iff places (fun p => c.fits places.length p.last p.field)
        (fun p => c.fits places.length p.first p.field) (calendar.Describes places after)

end

/-- The number a text of digits denotes. -/
def decimal? (s : String) : Option ℕ :=
  if s.toList ≠ [] ∧ s.toList.all Char.isDigit then
    some (s.toList.foldl (fun n c => 10 * n + (c.toNat - '0'.toNat)) 0)
  else none

/-- A croniter that reads `*` and the numbers in the standard range of each unit. -/
def plainCroniter : Croniter where
  split s := (s.toList.splitOn ' ').map String.ofList
  fits count unit field :=
    field = "*" ∨ (decimal? field).any (fun n =>
      match unit with
      | .second | .minute => n ≤ 59
      | .hour => n ≤ 23
      | .day => (1 ≤ n ∨ count = 6) ∧ n ≤ 31
      | .month => 1 ≤ n ∧ n ≤ 12
      | .weekday => n ≤ 6 ∨ (n = 7 ∧ count = 5)
      | .year => 1970 ≤ n ∧ n ≤ 2099)
  next _ after := some (after + 1)

/-- A croniter for which every expression means every minute. -/
def minuteCroniter : Croniter :=
  { plainCroniter with next := fun _ after => some ((after / 60000000 + 1) * 60000000) }

/-- The whole minutes of fifty years. -/
def minuteCalendar : minuteCroniter.Calendar where
  occurs _ moment := 60000000 ∣ moment
  horizon after := after + 1577836800000000
  next_ne_none_iff _ after := by
    apply iff_of_true
    · exact Option.some_ne_none _
    · refine ⟨(after / 60000000 + 1) * 60000000, ?_, ?_, Int.dvd_mul_left _ _⟩
      all_goals
        change (_ : ℤ) ≤ _
        omega

theorem split_stars :
  minuteCroniter.split "* * * * *" = ["*", "*", "*", "*", "*"]
  := by
  decide

theorem isValidBeatCron_agrees_minutes :
  isValidBeatCron minuteCroniter (.str "* * * * *") = true
    ↔ ∃ moment, getNextDatetime minuteCroniter "* * * * *" 0 = .ok moment
  := by
  apply (isValidBeatCron_agrees_iff minuteCalendar "* * * * *" 0).mpr
  rw [split_stars]
  rintro _ ⟨⟩
  right
  right
  constructor
  · simp only [List.forall_mem_cons, List.not_mem_nil, false_imp_iff, implies_true, and_true]
    exact ⟨⟨rfl, rfl⟩, ⟨rfl, rfl⟩, ⟨rfl, rfl⟩, ⟨rfl, rfl⟩, ⟨rfl, rfl⟩⟩
  · exact ⟨60000000, by decide, by decide, 1, rfl⟩

theorem split_trailing :
  plainCroniter.split "* * * * * 45" = ["*", "*", "*", "*", "*", "45"]
  := by
  decide

/-- `* * * * * 45` passes the check, and the runtime cannot read it. -/
theorem trailing_seconds_accepted :
  ¬ ∀ (c : Croniter) (cron : String) (after : Time),
      (isValidBeatCron c (.str cron) = true ↔ ∃ moment, getNextDatetime c cron after = .ok moment)
  := by
  intro h
  have hvalid : isValidBeatCron plainCroniter (.str "* * * * * 45") = true := by
    rw [isValidBeatCron, Croniter.isValid, Croniter.expand, split_trailing]
    rfl
  obtain ⟨moment, hmoment⟩ := (h plainCroniter "* * * * * 45" 0).mp hvalid
  rw [getNextDatetime, Croniter.expand, split_trailing] at hmoment
  cases hmoment

end DjangoAbsurd
