import Mathlib.Data.Nat.Basic

/-!
# Following links

A link leads from a point to at most one other. The way from a point ends where no link leads
on; it does when every link leads to a lower rank. A recursion that follows the links to a
bounded depth and answers where they end gives that answer at every depth beyond the end.
-/

universe u v

namespace Links

variable {α : Type u} {β : Type v} {next : α → Option α}

/-- The point a number of links away. -/
def follow (next : α → Option α) : ℕ → α → Option α
  | 0, a => some a
  | n + 1, a => (next a).bind (follow next n)

/-- The way from a point ends at `e`, a number of links away. -/
def EndsIn (next : α → Option α) (n : ℕ) (a e : α) : Prop :=
  follow next n a = some e ∧ next e = none

theorem endsIn_of_none {a : α} (h : next a = none) :
  EndsIn next 0 a a
  := ⟨rfl, h⟩

theorem endsIn_succ {n : ℕ} {a b e : α} (h : next a = some b) :
  EndsIn next (n + 1) a e ↔ EndsIn next n b e
  := by
  rw [EndsIn, EndsIn, follow, h, Option.bind_some]

/-- A way that goes on does not end where it is. -/
theorem not_endsIn_zero {a b e : α} (h : next a = some b) :
  ¬ EndsIn next 0 a e
  := by
  rintro ⟨hfollow, hend⟩
  obtain rfl := Option.some.inj hfollow
  rw [h] at hend
  cases hend

/-- A way ends at one point. -/
theorem EndsIn.unique {n m : ℕ} {a e e' : α} (h : EndsIn next n a e) (h' : EndsIn next m a e') :
  n = m ∧ e = e'
  := by
  induction n generalizing a m with
  | zero =>
      obtain ⟨hfollow, hend⟩ := h
      obtain rfl := Option.some.inj hfollow
      cases m with
      | zero => exact ⟨rfl, Option.some.inj h'.1⟩
      | succ m =>
          rw [EndsIn, follow, hend] at h'
          cases h'.1
  | succ n ih =>
      cases hnext : next a with
      | none =>
          rw [EndsIn, follow, hnext] at h
          cases h.1
      | some b =>
          cases m with
          | zero => exact absurd h' (not_endsIn_zero hnext)
          | succ m =>
              obtain ⟨rfl, rfl⟩ := ih ((endsIn_succ hnext).mp h) ((endsIn_succ hnext).mp h')
              exact ⟨rfl, rfl⟩

section Within

variable {P : α → Prop} {a b : α}

/-- Where no link leads on, the way has ended. -/
theorem endsIn_within_of_none (depth : ℕ) (h : next a = none) :
  (∃ n e, n < depth + 1 ∧ EndsIn next n a e ∧ P e) ↔ P a
  := by
  constructor
  · rintro ⟨n, e, -, hends, he⟩
    obtain ⟨-, rfl⟩ := hends.unique (endsIn_of_none h)
    exact he
  · intro ha
    exact ⟨0, a, Nat.succ_pos depth, endsIn_of_none h, ha⟩

/-- A way that goes on ends where it goes on to, a link earlier. -/
theorem endsIn_within_of_some (depth : ℕ) (h : next a = some b) :
  (∃ n e, n < depth + 1 ∧ EndsIn next n a e ∧ P e)
    ↔ ∃ n e, n < depth ∧ EndsIn next n b e ∧ P e
  := by
  constructor
  · rintro ⟨n, e, hdepth, hends, he⟩
    cases n with
    | zero => exact absurd hends (not_endsIn_zero h)
    | succ n => exact ⟨n, e, Nat.lt_of_succ_lt_succ hdepth, (endsIn_succ h).mp hends, he⟩
  · rintro ⟨n, e, hdepth, hends, he⟩
    exact ⟨n + 1, e, Nat.succ_lt_succ hdepth, (endsIn_succ h).mpr hends, he⟩

end Within

/-- What every link keeps holds where a way ends. -/
theorem EndsIn.invariant {P : α → Prop} (hstep : ∀ a b, P a → next a = some b → P b) {n : ℕ}
    {a e : α} (h : EndsIn next n a e) (ha : P a) :
  P e
  := by
  induction n generalizing a with
  | zero =>
      obtain rfl := Option.some.inj h.1
      exact ha
  | succ n ih =>
      cases hnext : next a with
      | none =>
          rw [EndsIn, follow, hnext] at h
          cases h.1
      | some b => exact ih ((endsIn_succ hnext).mp h) (hstep a b ha hnext)

/-- A way ends when its links keep an invariant and lead to lower ranks. -/
theorem exists_endsIn {P : α → Prop} (rank : α → ℕ)
    (hstep : ∀ a b, P a → next a = some b → P b ∧ rank b < rank a) {a : α} (h : P a) :
  ∃ n e, EndsIn next n a e
  := by
  induction hrank : rank a using Nat.strong_induction_on generalizing a with
  | h r ih =>
      cases hnext : next a with
      | none => exact ⟨0, a, endsIn_of_none hnext⟩
      | some b =>
          obtain ⟨hb, hlt⟩ := hstep a b h hnext
          obtain ⟨n, e, hends⟩ := ih (rank b) (hrank ▸ hlt) hb rfl
          exact ⟨n + 1, e, (endsIn_succ hnext).mpr hends⟩

section Recursion

variable {run : ℕ → α → β} {answer : α → β}
  (hlink : ∀ n a b, next a = some b → run (n + 1) a = run n b)
  (hend : ∀ n a, next a = none → run (n + 1) a = answer a)

include hlink hend in
/-- A recursion deep enough to come to the end answers there. -/
theorem run_of_endsIn {n depth : ℕ} {a e : α} (h : EndsIn next n a e) (hdepth : n < depth) :
  run depth a = answer e
  := by
  induction n generalizing a depth with
  | zero =>
      obtain ⟨depth, rfl⟩ := Nat.exists_eq_add_of_lt hdepth
      obtain ⟨hfollow, hnone⟩ := h
      obtain rfl := Option.some.inj hfollow
      apply hend _ _ hnone
  | succ n ih =>
      obtain ⟨depth, rfl⟩ := Nat.exists_eq_succ_of_ne_zero (Nat.ne_of_gt (Nat.zero_lt_of_lt hdepth))
      cases hnext : next a with
      | none =>
          rw [EndsIn, follow, hnext] at h
          cases h.1
      | some b =>
          rw [hlink _ _ _ hnext]
          apply ih ((endsIn_succ hnext).mp h) (Nat.lt_of_succ_lt_succ hdepth)

include hlink in
/-- A recursion that does not come to the end is cut off on the way. -/
theorem run_of_not_endsIn (depth : ℕ) {a : α} (h : ∀ n e, EndsIn next n a e → ¬ n < depth) :
  ∃ b, follow next depth a = some b ∧ run depth a = run 0 b
  := by
  induction depth generalizing a with
  | zero => exact ⟨a, rfl, rfl⟩
  | succ depth ih =>
      cases hnext : next a with
      | none => exact absurd (Nat.succ_pos depth) (h 0 a (endsIn_of_none hnext))
      | some b =>
          rw [follow, hnext, Option.bind_some, hlink _ _ _ hnext]
          apply ih
          intro n e hends hlt
          exact h (n + 1) e ((endsIn_succ hnext).mpr hends) (Nat.succ_lt_succ hlt)

end Recursion

end Links
