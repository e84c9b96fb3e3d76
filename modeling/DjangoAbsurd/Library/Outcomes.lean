import Mathlib.Order.Monotone.Defs
import Mathlib.Tactic.Common

/-!
# Outcomes

A computation that may fail yields `P` or else `Q` when the value it returns satisfies `P`, or
the error it fails with satisfies `Q`. A fold whose steps keep an invariant and let the state only
grow leaves what each of its steps brought about (`Yields.foldlM`).
-/

universe u v w

namespace Except

section

variable {ε : Type u} {α β : Type v} {x : Except ε α} {P P' : α → Prop} {Q Q' : ε → Prop}

/-- A value that is returned satisfies `P`, and an error satisfies `Q`. -/
def Yields (x : Except ε α) (P : α → Prop) (Q : ε → Prop) : Prop :=
  match x with
  | .ok a => P a
  | .error e => Q e

theorem Yields.of_ok {a : α} (h : x.Yields P Q) (hx : x = .ok a) :
  P a
  := by
  rw [hx] at h
  exact h

theorem Yields.of_error {e : ε} (h : x.Yields P Q) (hx : x = .error e) :
  Q e
  := by
  rw [hx] at h
  exact h

theorem Yields.mono (h : x.Yields P Q) (hP : ∀ a, P a → P' a) (hQ : ∀ e, Q e → Q' e) :
  x.Yields P' Q'
  := by
  cases x with
  | ok a => exact hP a h
  | error e => exact hQ e h

theorem Yields.bind {P' : β → Prop} {f : α → Except ε β} (h : x.Yields P Q)
    (hf : ∀ a, P a → (f a).Yields P' Q) :
  (x >>= f).Yields P' Q
  := by
  cases x with
  | ok a => exact hf a h
  | error e => exact h

end

section

variable {ε : Type u} {σ : Type v} {α : Type w} [Preorder σ] {f : σ → α → Except ε σ}
  {I : σ → Prop} {R : α → σ → Prop} {Q : ε → Prop} {as : List α} {s : σ}

/-- What each step of a fold brings about is there after it, when it stays as the state grows. -/
theorem Yields.foldlM (hmono : ∀ a, Monotone (R a))
    (hstep : ∀ a ∈ as, ∀ s, I s → (f s a).Yields (fun s' => I s' ∧ s ≤ s' ∧ R a s') Q) (hI : I s) :
  (as.foldlM f s).Yields (fun s' => I s' ∧ s ≤ s' ∧ ∀ a ∈ as, R a s') Q
  := by
  induction as generalizing s with
  | nil => exact ⟨hI, le_rfl, fun a ha => absurd ha List.not_mem_nil⟩
  | cons a as ih =>
      rw [List.foldlM_cons]
      apply (hstep a List.mem_cons_self s hI).bind
      rintro s₁ ⟨hI₁, hle, ha⟩
      apply (ih (fun a' ha' => hstep a' (List.mem_cons_of_mem a ha')) hI₁).mono
      · rintro s' ⟨hI', hle', hall⟩
        refine ⟨hI', hle.trans hle', ?_⟩
        intro a' ha'
        rcases List.mem_cons.mp ha' with rfl | ha'
        · exact hmono a' hle' ha
        · exact hall a' ha'
      · exact fun e he => he

end

end Except
