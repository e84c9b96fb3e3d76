import DjangoAbsurd.Library.Machine
import Mathlib.Algebra.GroupWithZero.Nat
import Mathlib.Data.List.Basic

/-!
# Waiting for a turn

Whoever is served in some order has a rank, the number of those before it. When no step lets
anybody in before it and every step that serves `n` without serving it lowers the rank by `n`,
it is served before more than its rank have been, unless there is nothing left to serve.
-/

universe u v

namespace Turns

variable {α : Type u} {le : α → α → Bool}

/-- Whoever is not among the first `n` in order has `n` others before it. -/
theorem take_of_not_mem (htrans : ∀ a b c, le a b → le b c → le a c)
    (htotal : ∀ a b, le a b || le b a) {as : List α} {a : α} {n : ℕ} (ha : a ∈ as)
    (hnot : a ∉ (as.mergeSort le).take n) :
  ((as.mergeSort le).take n).length = n ∧ ∀ b ∈ (as.mergeSort le).take n, le b a
  := by
  have hsorted : (as.mergeSort le).Pairwise (fun a b => le a b) :=
    List.pairwise_mergeSort htrans htotal as
  have hmem : a ∈ as.mergeSort le := List.mem_mergeSort.mpr ha
  rw [← List.take_append_drop n (as.mergeSort le)] at hsorted hmem
  have hlater : a ∈ (as.mergeSort le).drop n := (List.mem_append.mp hmem).resolve_left hnot
  constructor
  · have hpos := List.length_pos_of_mem hlater
    rw [List.length_drop] at hpos
    rw [List.length_take]
    omega
  · intro b hb
    exact (List.pairwise_append.mp hsorted).2.2 b hb a hlater

end Turns

namespace Machine

variable {State : Type u} {Label : Type v} {m : Machine State Label}

/-- Whoever waits is served before more than its rank have been, or there is nothing left to
serve. -/
theorem served_or_over (rank : State → ℕ) (slots : Label → ℕ) {P : Label → Prop}
    {I O : State → Prop} {Served : State → Label → Prop}
    (hstep : ∀ s l s', P l → I s → m.step s l = some s' →
      (I s' ∧ rank s' + slots l ≤ rank s) ∨ Served s l ∨ O s')
    (hover : ∀ s l s', O s → m.step s l = some s' → O s') {ls : List Label} {s s' : State}
    (hI : I s) (hP : ∀ l ∈ ls, P l) (hrun : m.run s ls = some s')
    (hrank : rank s < (ls.map slots).sum) :
  (∃ ls₁ l ls₂ s₁, ls = ls₁ ++ l :: ls₂ ∧ m.run s ls₁ = some s₁ ∧ Served s₁ l) ∨ O s'
  := by
  induction ls generalizing s with
  | nil => exact absurd hrank (Nat.not_lt_zero _)
  | cons l ls ih =>
      obtain ⟨s₁, hs, hrun⟩ := run_cons.mp hrun
      rcases hstep s l s₁ (hP l List.mem_cons_self) hI hs with ⟨hI₁, hle⟩ | hserved | hO
      · rw [List.map_cons, List.sum_cons] at hrank
        have hrank₁ : rank s₁ < (ls.map slots).sum := by omega
        rcases ih hI₁ (fun l hl => hP l (List.mem_cons_of_mem _ hl)) hrun hrank₁ with
          ⟨ls₁, l', ls₂, s₂, rfl, hrun₂, hserved⟩ | hO
        · exact .inl ⟨l :: ls₁, l', ls₂, s₂, rfl, run_cons.mpr ⟨s₁, hs, hrun₂⟩, hserved⟩
        · exact .inr hO
      · exact .inl ⟨[], l, ls, s, rfl, rfl, hserved⟩
      · exact .inr (m.invariant hover hO hrun)

/-- A measure that every step lowers by what the label is worth is lowered by a run by what its
labels are worth. -/
theorem measure_le (measure : State → ℕ) (worth : Label → ℕ) {P : Label → Prop} {I : State → Prop}
    (hstep : ∀ s l s', P l → I s → m.step s l = some s' →
      I s' ∧ measure s' ≤ measure s - worth l) {ls : List Label} {s s' : State}
    (hI : I s) (hP : ∀ l ∈ ls, P l) (hrun : m.run s ls = some s') :
  measure s' ≤ measure s - (ls.map worth).sum
  := by
  induction ls generalizing s with
  | nil =>
      obtain rfl := Option.some.inj hrun
      exact Nat.le_refl _
  | cons l ls ih =>
      obtain ⟨s₁, hs, hrun⟩ := run_cons.mp hrun
      obtain ⟨hI₁, hle⟩ := hstep s l s₁ (hP l List.mem_cons_self) hI hs
      have hrest := ih hI₁ (fun l hl => hP l (List.mem_cons_of_mem _ hl)) hrun
      rw [List.map_cons, List.sum_cons]
      omega

end Machine
