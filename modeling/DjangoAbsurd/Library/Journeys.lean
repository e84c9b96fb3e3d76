import DjangoAbsurd.Library.Machine
import Mathlib.Tactic.Use

/-!
# Journeys of a machine

One state leads to another by labels that satisfy a property. Journeys compose, what every
one of their labels preserves they preserve, and a fold of steps that are journeys is one.
-/

universe u v

namespace Machine

variable {State : Type u} {Label : Type v} {m : Machine State Label}

/-- What holds along a run and along the labels after it holds along both. -/
theorem Along.join {P : State → Label → Prop} {ls ls' : List Label} {s s₁ : State}
    (h : m.Along P s ls) (hrun : m.run s ls = some s₁) (h' : m.Along P s₁ ls') :
  m.Along P s (ls ++ ls')
  := by
  induction ls generalizing s with
  | nil =>
      obtain rfl := Option.some.inj hrun
      exact h'
  | cons l ls ih =>
      obtain ⟨s₂, hs, hrun⟩ := run_cons.mp hrun
      obtain ⟨hl, hrest⟩ := (along_cons hs).mp h
      exact (along_cons hs).mpr ⟨hl, ih hrest hrun⟩

/-- Labels satisfying `P`, none of which is refused, lead from one state to the other. -/
def Leads (m : Machine State Label) (P : Label → Prop) (s s' : State) : Prop :=
  ∃ ls, m.run s ls = some s' ∧ ∀ l ∈ ls, P l

namespace Leads

variable {P Q : Label → Prop} {s s' s₁ s₂ s₃ : State}

theorem refl : m.Leads P s s := ⟨[], rfl, fun _ hl => absurd hl List.not_mem_nil⟩

/-- One label. -/
theorem of {l : Label} (hs : m.step s l = some s') (hP : P l) :
  m.Leads P s s'
  := by
  use [l], run_cons.mpr ⟨s', hs, rfl⟩
  intro l' hl'
  obtain rfl := List.mem_singleton.mp hl'
  exact hP

theorem trans (h : m.Leads P s₁ s₂) (h' : m.Leads P s₂ s₃) :
  m.Leads P s₁ s₃
  := by
  obtain ⟨ls, hrun, hP⟩ := h
  obtain ⟨ls', hrun', hP'⟩ := h'
  use ls ++ ls', (run_append hrun).trans hrun'
  intro l hl
  rcases List.mem_append.mp hl with hl | hl
  · exact hP l hl
  · exact hP' l hl

theorem mono (hPQ : ∀ l, P l → Q l) (h : m.Leads P s s') :
  m.Leads Q s s'
  := by
  obtain ⟨ls, hrun, hP⟩ := h
  exact ⟨ls, hrun, fun l hl => hPQ l (hP l hl)⟩

/-- What every label satisfying `P` preserves is preserved by a journey. -/
theorem invariant {I : State → Prop}
    (hstep : ∀ s l s', P l → I s → m.step s l = some s' → I s') (h : m.Leads P s s') (hI : I s) :
  I s'
  := by
  obtain ⟨ls, hrun, hP⟩ := h
  have halong : m.Along (fun _ l => P l) s ls := along_of_forall (fun _ l hl => hP l hl)
  exact invariant_along (P := fun _ l => P l) hstep halong hI hrun

/-- A fold of steps that are journeys is one. -/
theorem foldlM {α ε : Type} {f : State → α → Except ε State} {as : List α}
    (hf : ∀ s, ∀ a ∈ as, ∀ s', f s a = .ok s' → m.Leads P s s') (hs : as.foldlM f s = .ok s') :
  m.Leads P s s'
  := by
  induction as generalizing s with
  | nil =>
      obtain rfl : s = s' := Except.ok.inj hs
      exact .refl
  | cons a as ih =>
      rw [List.foldlM_cons] at hs
      cases hfa : f s a with
      | error e =>
          rw [hfa] at hs
          cases hs
      | ok s₁ =>
          rw [hfa] at hs
          apply (hf s a List.mem_cons_self s₁ hfa).trans
          exact ih (fun s a' ha' => hf s a' (List.mem_cons_of_mem a ha')) hs

end Leads

end Machine
