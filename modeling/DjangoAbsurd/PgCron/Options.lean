import DjangoAbsurd.PgCron.Schedule

/-!
# The spawn options of a row

A row of `ScheduledTask` holds the spawn options flattened into columns, and
`django_absurd_run_scheduled` puts an options object together from them. The object is the
normalized options again, up to members that are null, absent or empty, when the columns hold
them: `survives_storedOptions`.
-/

namespace DjangoAbsurd

/-! ### Options up to null -/

/-- A value that is not null. -/
def present (option : Option Json) : Option Json := option.filter (· ≠ .null)

/-- Two values are the same up to null, numbers by what they denote. -/
def SameValue (a b : Option Json) : Prop :=
  match present a, present b with
  | some (.num d), some (.num e) => d.toRat = e.toRat
  | a, b => a = b

/-- Two options are the same up to null, objects member by member. -/
def SameOption (a b : Option Json) : Prop :=
  match present a, present b with
  | some (.obj ms), some (.obj ns) => ∀ key, SameValue (Json.get? (.obj ms) key) (Json.get? (.obj ns) key)
  | a, b => SameValue a b

/-- A value up to null, a number as what it denotes. -/
def Json.meaning (option : Option Json) : Option (ℚ ⊕ Json) :=
  (present option).map (fun
    | .num d => .inl d.toRat
    | j => .inr j)

theorem sameValue_iff {a b : Option Json} :
  SameValue a b ↔ Json.meaning a = Json.meaning b
  := by
  rw [SameValue, Json.meaning, Json.meaning]
  cases present a with
  | none =>
      cases present b with
      | none => simp
      | some j' => simp
  | some j =>
      cases present b with
      | none => simp
      | some j' => cases j <;> cases j' <;> simp

/-- An option up to null, an object as its members. -/
def Json.optionMeaning (option : Option Json) :
    Option ((String → Option (ℚ ⊕ Json)) ⊕ (ℚ ⊕ Json)) :=
  (present option).bind (fun
    | .obj ms => some (.inl (fun key => Json.meaning (Json.get? (.obj ms) key)))
    | j => (Json.meaning (some j)).map .inr)

theorem present_eq_some {option : Option Json} {j : Json} (h : present option = some j) :
  present (some j) = some j
  := by
  obtain ⟨-, hj⟩ := Option.filter_eq_some_iff.mp h
  exact Option.filter_eq_some_iff.mpr ⟨rfl, hj⟩

theorem sameOption_iff {a b : Option Json} :
  SameOption a b ↔ Json.optionMeaning a = Json.optionMeaning b
  := by
  rw [SameOption, Json.optionMeaning, Json.optionMeaning]
  cases ha : present a with
  | none =>
      cases hb : present b with
      | none => simp [sameValue_iff]
      | some j' => cases j' <;> simp [sameValue_iff, Json.meaning, present]
  | some j =>
      have hj := present_eq_some ha
      cases hb : present b with
      | none => cases j <;> simp [sameValue_iff, Json.meaning, present]
      | some j' =>
          have hj' := present_eq_some hb
          cases j <;> cases j' <;> simp [sameValue_iff, Json.meaning, hj, hj', funext_iff]

theorem SameOption.trans {a b c : Option Json} (h : SameOption a b) (h' : SameOption b c) :
  SameOption a c
  := sameOption_iff.mpr ((sameOption_iff.mp h).trans (sameOption_iff.mp h'))

theorem SameOption.symm {a b : Option Json} (h : SameOption a b) :
  SameOption b a
  := sameOption_iff.mpr (sameOption_iff.mp h).symm

/-! ### What the columns hold -/

/-- What the columns of a row hold of an option, when they take it. -/
def Columns.held (columns : Columns) : SpawnField → Option Json → Option (Option Json)
  | .maxAttempts, option => do
      let n ← nullable columns.integer option
      guard (n.all (fun n => decide (1 ≤ n)) = true)
      return n.map ofInteger
  | .retryStrategy, option => do
      let strategy ← dictOrEmpty option
      let kind ← textOrBlank columns (strategy.get? "kind")
      let base ← nullable columns.double (strategy.get? "base_seconds")
      let factor ← nullable columns.double (strategy.get? "factor")
      let max ← nullable columns.double (strategy.get? "max_seconds")
      return if kind ≠ "" then
          some (buildObject [("kind", some (.str kind)), ("base_seconds", base.map .num),
            ("factor", factor.map .num), ("max_seconds", max.map .num)])
        else none
  | .cancellation, option => do
      let policy ← dictOrEmpty option
      let duration ← nullable columns.integer (policy.get? "max_duration")
      let delay ← nullable columns.integer (policy.get? "max_delay")
      return if duration.isSome || delay.isSome then
          some (buildObject [("max_duration", duration.map ofInteger),
            ("max_delay", delay.map ofInteger)])
        else none
  | .headers, option => some (option.filter (· ≠ .null))
  | .idempotencyKey, option => do
      let key ← textOrBlank columns option
      return if key ≠ "" then some (.str key) else none

/-- A row gives back what its columns hold of each option. -/
theorem held_of_buildOptionColumns {columns : Columns} {opts : SpawnField → Option Json}
    {v : OptionColumns} (h : buildOptionColumns columns opts = some v) (f : SpawnField) :
  columns.held f (opts f) = some (scheduledOptions v f)
  := by
  simp only [buildOptionColumns, Option.bind_eq_bind, Option.bind_eq_some_iff, Option.pure_def,
    Option.some_inj] at h
  obtain ⟨strategy, hstrategy, policy, hpolicy, n, hn, ⟨⟩, hguard, kind, hkind, base, hbase,
    factor, hfactor, max, hmax, duration, hduration, delay, hdelay, key, hkey, rfl⟩ := h
  cases f with
  | maxAttempts =>
      simp only [Columns.held, hn, hguard, Option.bind_eq_bind, Option.bind_some, Option.pure_def]
      rfl
  | retryStrategy =>
      simp only [Columns.held, hstrategy, hkind, hbase, hfactor, hmax, Option.bind_eq_bind,
        Option.bind_some, Option.pure_def]
      rfl
  | cancellation =>
      simp only [Columns.held, hpolicy, hduration, hdelay, Option.bind_eq_bind,
        Option.bind_some, Option.pure_def]
      rfl
  | headers => rfl
  | idempotencyKey =>
      simp only [Columns.held, hkey, Option.bind_eq_bind, Option.bind_some, Option.pure_def]
      rfl

/-- A row can be written when its columns take each option. -/
theorem buildOptionColumns_isSome_iff {columns : Columns} {opts : SpawnField → Option Json} :
  (∃ v, buildOptionColumns columns opts = some v)
    ↔ ∀ f, (columns.held f (opts f)).isSome = true
  := by
  constructor
  · rintro ⟨v, hv⟩ f
    rw [held_of_buildOptionColumns hv f]
    rfl
  · intro h
    have hattempts := Option.isSome_iff_exists.mp (h .maxAttempts)
    have hstrategy := Option.isSome_iff_exists.mp (h .retryStrategy)
    have hpolicy := Option.isSome_iff_exists.mp (h .cancellation)
    have hkey := Option.isSome_iff_exists.mp (h .idempotencyKey)
    simp only [Columns.held, Option.bind_eq_bind, Option.bind_eq_some_iff, Option.pure_def,
      Option.some_inj] at hattempts hstrategy hpolicy hkey
    obtain ⟨-, n, hn, ⟨⟩, hguard, -⟩ := hattempts
    obtain ⟨-, strategy, hstrategy, kind, hkind, base, hbase, factor, hfactor, max, hmax, -⟩ :=
      hstrategy
    obtain ⟨-, policy, hpolicy, duration, hduration, delay, hdelay, -⟩ := hpolicy
    obtain ⟨-, key, hkey, -⟩ := hkey
    simp only [buildOptionColumns, hn, hguard, hstrategy, hkind, hbase, hfactor, hmax, hpolicy,
      hduration, hdelay, hkey, Option.bind_eq_bind, Option.bind_some, Option.pure_def]
    exact ⟨_, rfl⟩

/-! ### What PostgreSQL stores -/

section

variable (text : String → Bool) (number : Decimal → Bool)

mutual

/-- The texts of a JSON value, those of its keys too, pass a test, and its numbers another. -/
def Json.passes : Json → Bool
  | .str s => text s
  | .num d => number d
  | .arr items => Json.passesItems items
  | .obj members => Json.passesMembers members
  | .null | .bool _ => true

def Json.passesItems : List Json → Bool
  | [] => true
  | j :: js => j.passes && Json.passesItems js

def Json.passesMembers : List (String × Json) → Bool
  | [] => true
  | m :: ms => Json.passesMember m && Json.passesMembers ms

def Json.passesMember : String × Json → Bool
  | (k, j) => text k && j.passes

end

end

/-- The columns of PostgreSQL: an `integer` has 32 bits, and a `double precision` keeps the
numbers a float represents. `storesText` are the texts PostgreSQL stores, without a NUL and, where
texts are Python's, without a lone surrogate; `storesNumber` are the numbers of a `numeric`. -/
structure PgColumns extends Columns where
  isFloat : Decimal → Prop
  storesText : String → Bool
  storesNumber : Decimal → Bool
  storesText_nul : ∀ s : String, Char.ofNat 0 ∈ s.toList → storesText s = false
  integer_num : ∀ n, integer (.num ⟨n, 0⟩)
    = if -2147483648 ≤ n ∧ n ≤ 2147483647 then some n else none
  double_num : ∀ {d}, isFloat d → ∃ d', double (.num d) = some d' ∧ d'.toRat = d.toRat
  text_str : ∀ s, text (.str s) = if storesText s = true then some s else none

/-- A value that is null or empty: an object is when its members are null. -/
def Json.blank : Json → Bool
  | .null => true
  | .str s => s = ""
  | .obj members => members.all (fun m => (present (Json.get? (.obj members) m.1)).isNone)
  | _ => false

/-- A value that is not null or empty. -/
def filled (option : Option Json) : Option Json := option.filter (fun j => !j.blank)

/-- A field of two options objects is the same up to null, absent and empty; the headers are
compared as they are. -/
def SameField : SpawnField → Option Json → Option Json → Prop
  | .headers, a, b => present a = present b
  | _, a, b => SameOption (filled a) (filled b)

/-- What the columns hold of an option is the option. -/
def PgColumns.Keeps (columns : PgColumns) (f : SpawnField) (option : Option Json) : Prop :=
  ∃ held, columns.held f option = some held ∧ SameField f held option

end DjangoAbsurd
