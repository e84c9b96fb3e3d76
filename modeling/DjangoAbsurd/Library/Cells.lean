import DjangoAbsurd.Library.Fallible
import Mathlib.Data.List.Nodup
import Mathlib.Tactic.Common

/-!
# Steps on separate cells

A state has a cell for every key, and setting one leaves the others as they are. A step reads
a cell, and fails or sets it; a list of steps stops at the first that fails. When the steps
are on different cells, each finds its cell as it was before all of them: so the steps succeed
together exactly when each does on its own (`visitAll_eq_ok`, `visitAll_isOk_iff`).
-/

universe u

variable {σ κ χ α ε ρ : Type u}

/-- The cells of a state. -/
structure Cells (σ κ χ : Type u) where
  get : σ → κ → χ
  set : σ → κ → χ → σ
  get_set_self : ∀ s k c, get (set s k c) k = c
  get_set_of_ne : ∀ s k k' c, k' ≠ k → get (set s k c) k' = get s k'

namespace Cells

variable (cells : Cells σ κ χ)

/-- A step on the cell of a key, and what it returns. -/
def visit (f : χ → Except ε (χ × ρ)) (k : κ) (s : σ) : Except ε (σ × ρ) :=
  (f (cells.get s k)).map (fun out => (cells.set s k out.1, out.2))

/-- A step for each of a list, in order, and what they return. -/
def visitAll (step : α → χ → Except ε (χ × ρ)) (key : α → κ) : List α → σ → Except ε (σ × List ρ)
  | [], s => .ok (s, [])
  | a :: as, s =>
      match cells.visit (step a) (key a) s with
      | .error e => .error e
      | .ok (s, r) => (visitAll step key as s).map (fun out => (out.1, r :: out.2))

variable {cells} {step : α → χ → Except ε (χ × ρ)} {key : α → κ} {s s' : σ}

theorem visit_eq_ok {f : χ → Except ε (χ × ρ)} {k : κ} {r : ρ} :
  cells.visit f k s = .ok (s', r) ↔ ∃ c, f (cells.get s k) = .ok (c, r) ∧ s' = cells.set s k c
  := by
  rw [visit]
  constructor
  · intro h
    obtain ⟨⟨c, r'⟩, hc, heq⟩ := Except.map_eq_ok h
    cases heq
    exact ⟨c, hc, rfl⟩
  · rintro ⟨c, hc, rfl⟩
    rw [hc]
    rfl

theorem visitAll_cons_eq_ok {a : α} {as : List α} {rs : List ρ} :
  cells.visitAll step key (a :: as) s = .ok (s', rs)
    ↔ ∃ c r rs', step a (cells.get s (key a)) = .ok (c, r)
      ∧ cells.visitAll step key as (cells.set s (key a) c) = .ok (s', rs') ∧ rs = r :: rs'
  := by
  rw [visitAll]
  constructor
  · intro h
    split at h
    · cases h
    · rename_i s₁ r hvisit
      obtain ⟨c, hc, rfl⟩ := visit_eq_ok.mp hvisit
      cases hrest : cells.visitAll step key as (cells.set s (key a) c) with
      | error e =>
          rw [hrest] at h
          cases h
      | ok out =>
          rw [hrest] at h
          cases h
          exact ⟨c, r, out.2, hc, hrest, rfl⟩
  · rintro ⟨c, r, rs', hc, hrest, rfl⟩
    rw [visit_eq_ok.mpr ⟨c, hc, rfl⟩]
    simp only [hrest]
    rfl

/-- Steps on different cells find and leave each its own cell, and no other. -/
theorem visitAll_eq_ok {as : List α} {rs : List ρ} (hnodup : (as.map key).Nodup)
    (h : cells.visitAll step key as s = .ok (s', rs)) :
  (∀ k, k ∉ as.map key → cells.get s' k = cells.get s k)
    ∧ (∀ a ∈ as, ∃ r, step a (cells.get s (key a)) = .ok (cells.get s' (key a), r))
    ∧ as.map (fun a => (step a (cells.get s (key a))).map Prod.snd) = rs.map .ok
  := by
  induction as generalizing s rs with
  | nil =>
      cases h
      exact ⟨fun _ _ => rfl, fun _ ha => absurd ha List.not_mem_nil, rfl⟩
  | cons a as ih =>
      obtain ⟨c, r, rs', hc, hrest, rfl⟩ := visitAll_cons_eq_ok.mp h
      obtain ⟨hfresh, hnodup⟩ := List.nodup_cons.mp hnodup
      obtain ⟨hframe, hcells, hresults⟩ := ih hnodup hrest
      have hsame : ∀ a' ∈ as,
          cells.get (cells.set s (key a) c) (key a') = cells.get s (key a') := by
        intro a' ha'
        apply cells.get_set_of_ne
        intro heq
        exact hfresh (heq ▸ List.mem_map_of_mem ha')
      refine ⟨?_, ?_, ?_⟩
      · intro k hk
        rw [List.map_cons, List.mem_cons, not_or] at hk
        rw [hframe k hk.2, cells.get_set_of_ne _ _ _ _ hk.1]
      · intro a' ha'
        rcases List.mem_cons.mp ha' with rfl | ha'
        · rw [hframe _ hfresh, cells.get_set_self]
          exact ⟨r, hc⟩
        · rw [← hsame a' ha']
          exact hcells a' ha'
      · rw [List.map_cons, List.map_cons, hc, ← hresults]
        apply congrArg (Except.ok r :: ·)
        apply List.map_congr_left
        intro a' ha'
        rw [hsame a' ha']

/-- What no cell has a part in stays as it is. -/
theorem visitAll_preserves {β : Type} {part : σ → β}
    (hpart : ∀ s k c, part (cells.set s k c) = part s) {as : List α} {rs : List ρ}
    (h : cells.visitAll step key as s = .ok (s', rs)) :
  part s' = part s
  := by
  induction as generalizing s rs with
  | nil =>
      cases h
      rfl
  | cons a as ih =>
      obtain ⟨c, r, rs', -, hrest, -⟩ := visitAll_cons_eq_ok.mp h
      rw [ih hrest, hpart]

/-- Steps on different cells succeed when each succeeds on its own. -/
theorem visitAll_isOk {as : List α} (hnodup : (as.map key).Nodup)
    (h : ∀ a ∈ as, ∃ out, step a (cells.get s (key a)) = .ok out) :
  ∃ out, cells.visitAll step key as s = .ok out
  := by
  induction as generalizing s with
  | nil => exact ⟨_, rfl⟩
  | cons a as ih =>
      obtain ⟨hfresh, hnodup⟩ := List.nodup_cons.mp hnodup
      obtain ⟨⟨c, r⟩, hc⟩ := h a List.mem_cons_self
      have hrest : ∀ a' ∈ as, ∃ out,
          step a' (cells.get (cells.set s (key a) c) (key a')) = .ok out := by
        intro a' ha'
        have hne : key a' ≠ key a := fun heq => hfresh (heq ▸ List.mem_map_of_mem ha')
        rw [cells.get_set_of_ne _ _ _ _ hne]
        exact h a' (List.mem_cons_of_mem a ha')
      obtain ⟨⟨s₁, rs⟩, hs₁⟩ := ih hnodup hrest
      exact ⟨_, visitAll_cons_eq_ok.mpr ⟨c, r, rs, hc, hs₁, rfl⟩⟩

theorem visitAll_isOk_iff {as : List α} (hnodup : (as.map key).Nodup) :
  (∃ out, cells.visitAll step key as s = .ok out)
    ↔ ∀ a ∈ as, ∃ out, step a (cells.get s (key a)) = .ok out
  := by
  constructor
  · rintro ⟨⟨s', rs⟩, h⟩ a ha
    obtain ⟨-, hcells, -⟩ := visitAll_eq_ok hnodup h
    obtain ⟨r, hr⟩ := hcells a ha
    exact ⟨_, hr⟩
  · apply visitAll_isOk hnodup

end Cells
