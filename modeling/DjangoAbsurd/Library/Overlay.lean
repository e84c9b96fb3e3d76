import Mathlib.Logic.Basic

/-!
# Right-biased overlays of partial maps

`overlay a b` has the value of `b` where `b` has one and the value of `a` elsewhere.
Overlays are associative with the empty map as the unit, and overlaying a map that is
already overlaid changes nothing. Overlaying the layers of a list in order gives each key the
value of the last layer that has one.
-/

universe u v

variable {κ : Type u} {α : Type v}

/-- The values of `b`, and those of `a` where `b` has none. -/
def overlay (a b : κ → Option α) : κ → Option α :=
  fun k => (b k).or (a k)

namespace overlay

theorem apply (a b : κ → Option α) (k : κ) : overlay a b k = (b k).or (a k) := rfl

@[simp]
theorem empty_left (a : κ → Option α) :
  overlay (fun _ => none) a = a
  := by
  funext k
  simp [overlay]

@[simp]
theorem empty_right (a : κ → Option α) :
  overlay a (fun _ => none) = a
  := by
  funext k
  simp [overlay]

theorem assoc (a b c : κ → Option α) :
  overlay (overlay a b) c = overlay a (overlay b c)
  := by
  funext k
  simp only [overlay]
  cases c k <;> rfl

/-- A map with a value wherever `a` has one hides `a`. -/
theorem eq_right {a b : κ → Option α} (h : ∀ k, a k ≠ none → b k ≠ none) :
  overlay a b = b
  := by
  funext k
  have hk := h k
  simp only [overlay]
  cases hb : b k with
  | some v => rfl
  | none =>
      cases ha : a k with
      | none => rfl
      | some v => exact absurd hb (hk (by simp [ha]))

/-- Overlaying again what is already the lower layer changes nothing. -/
theorem absorb (a b : κ → Option α) :
  overlay a (overlay a b) = overlay a b
  := by
  apply eq_right
  intro k hk
  simp only [overlay]
  cases b k <;> simp [hk]

theorem ne_none {a b : κ → Option α} {k : κ} :
  overlay a b k ≠ none ↔ a k ≠ none ∨ b k ≠ none
  := by
  simp only [overlay]
  cases b k <;> simp

/-- The value of the last layer that has one. -/
def lastSet (layers : List (κ → Option α)) (k : κ) : Option α :=
  layers.reverse.findSome? (fun layer => layer k)

theorem lastSet_cons (a : κ → Option α) (layers : List (κ → Option α)) (k : κ) :
  lastSet (a :: layers) k = (lastSet layers k).or (a k)
  := by
  rw [lastSet, lastSet, List.reverse_cons, List.findSome?_append, List.findSome?_singleton]

theorem foldl_eq_lastSet (a : κ → Option α) (layers : List (κ → Option α)) :
  layers.foldl overlay a = lastSet (a :: layers)
  := by
  induction layers generalizing a with
  | nil =>
      funext k
      exact (lastSet_cons a [] k).symm
  | cons b layers ih =>
      funext k
      rw [List.foldl_cons, ih, lastSet_cons, lastSet_cons, lastSet_cons, Option.or_assoc]
      rfl

end overlay
