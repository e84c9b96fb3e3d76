import Mathlib.Data.List.Pairwise
import Mathlib.MeasureTheory.Integral.Bochner.Set
import Mathlib.MeasureTheory.Measure.Lebesgue.Basic

/-!
# Integrals of step functions

A function that is constant between the consecutive members of a sorted list is integrable from
the first of them to the last, and its integral is the sum of its values times the lengths of the
pieces.
-/

universe u v

namespace Steps

open MeasureTheory

/-- The consecutive pairs of a list. -/
def pairs {α : Type u} : List α → List (α × α)
  | a :: b :: l => (a, b) :: pairs (b :: l)
  | _ => []

section

variable {α : Type u}

theorem pairs_map {β : Type v} (g : α → β) (l : List α) :
  pairs (l.map g) = (pairs l).map (Prod.map g g)
  := by
  induction l with
  | nil => rfl
  | cons a l ih =>
      cases l with
      | nil => rfl
      | cons b l => exact congrArg ((g a, g b) :: ·) ih

/-- The members of a pair are members of the list. -/
theorem mem_of_mem_pairs {l : List α} {p : α × α} (hp : p ∈ pairs l) :
  p.1 ∈ l ∧ p.2 ∈ l
  := by
  induction l with
  | nil => cases hp
  | cons a l ih =>
      cases l with
      | nil => cases hp
      | cons b l =>
          rcases List.mem_cons.mp hp with rfl | hp
          · exact ⟨List.mem_cons_self, List.mem_cons_of_mem a List.mem_cons_self⟩
          · obtain ⟨hfst, hsnd⟩ := ih hp
            exact ⟨List.mem_cons_of_mem a hfst, List.mem_cons_of_mem a hsnd⟩

variable [LinearOrder α] {l : List α} {p : α × α}

theorem lt_of_mem_pairs (h : l.Pairwise (· < ·)) (hp : p ∈ pairs l) :
  p.1 < p.2
  := by
  induction l with
  | nil => cases hp
  | cons a l ih =>
      cases l with
      | nil => cases hp
      | cons b l =>
          obtain ⟨hfirst, hrest⟩ := List.pairwise_cons.mp h
          rcases List.mem_cons.mp hp with rfl | hp
          · exact hfirst b List.mem_cons_self
          · exact ih hrest hp

/-- No member of a sorted list is strictly between two consecutive ones. -/
theorem le_or_le_of_mem_pairs (h : l.Pairwise (· < ·)) (hp : p ∈ pairs l) {x : α} (hx : x ∈ l) :
  x ≤ p.1 ∨ p.2 ≤ x
  := by
  induction l with
  | nil => cases hp
  | cons a l ih =>
      cases l with
      | nil => cases hp
      | cons b l =>
          obtain ⟨hfirst, hrest⟩ := List.pairwise_cons.mp h
          rcases List.mem_cons.mp hp with rfl | hpair
          · rcases List.mem_cons.mp hx with rfl | hx
            · exact .inl le_rfl
            · rcases List.mem_cons.mp hx with rfl | hx
              · exact .inr le_rfl
              · exact .inr ((List.pairwise_cons.mp hrest).1 x hx).le
          · rcases List.mem_cons.mp hx with rfl | hx
            · exact .inl (hfirst p.1 (mem_of_mem_pairs hpair).1).le
            · exact ih hrest hpair hx

/-- The last member of a sorted list is the greatest. -/
theorem le_getLast {a x : α} (h : (a :: l).Pairwise (· < ·)) (hx : x ∈ a :: l) :
  x ≤ (a :: l).getLast (List.cons_ne_nil a l)
  := (h.imp le_of_lt).rel_getLast hx

end

/-! ### Integrals -/

variable {f : ℝ → ℝ} {a b : ℝ}

/-- A function that is constant up to `b`. -/
theorem integral_piece (hab : a ≤ b) (hf : ∀ t, a ≤ t → t < b → f t = f a) :
  IntegrableOn f (Set.Ico a b) ∧ ∫ t in Set.Ico a b, f t = f a * (b - a)
  := by
  have hconst : Set.EqOn (fun _ => f a) f (Set.Ico a b) := fun t ht => (hf t ht.1 ht.2).symm
  constructor
  · have hfinite : volume (Set.Ico a b) ≠ ⊤ := by
      rw [Real.volume_Ico]
      exact ENNReal.ofReal_ne_top
    have hintegrable : IntegrableOn (fun _ => f a) (Set.Ico a b) volume :=
      integrableOn_const hfinite
    exact hintegrable.congr_fun hconst measurableSet_Ico
  · rw [← setIntegral_congr_fun measurableSet_Ico hconst, setIntegral_const,
      Real.volume_real_Ico_of_le hab, smul_eq_mul, mul_comm]

/-- A function that is constant between consecutive members of a sorted list. -/
theorem integral_steps (l : List ℝ) (h : (a :: l).Pairwise (· < ·))
    (hf : ∀ p ∈ pairs (a :: l), ∀ t, p.1 ≤ t → t < p.2 → f t = f p.1) :
  IntegrableOn f (Set.Ico a ((a :: l).getLast (List.cons_ne_nil a l)))
    ∧ ∫ t in Set.Ico a ((a :: l).getLast (List.cons_ne_nil a l)), f t
      = ((pairs (a :: l)).map (fun p => f p.1 * (p.2 - p.1))).sum
  := by
  induction l generalizing a with
  | nil =>
      rw [List.getLast_singleton, Set.Ico_self]
      exact ⟨integrableOn_empty, setIntegral_empty⟩
  | cons b l ih =>
      obtain ⟨hfirst, hrest⟩ := List.pairwise_cons.mp h
      have hab : a ≤ b := (hfirst b List.mem_cons_self).le
      have hlast : b ≤ (b :: l).getLast (List.cons_ne_nil b l) :=
        le_getLast hrest List.mem_cons_self
      obtain ⟨hpiece, hvalue⟩ := integral_piece hab (hf (a, b) List.mem_cons_self)
      obtain ⟨htail, hsum⟩ := ih hrest (fun p hp => hf p (List.mem_cons_of_mem _ hp))
      have hdisjoint : Disjoint (Set.Ico a b)
          (Set.Ico b ((b :: l).getLast (List.cons_ne_nil b l))) :=
        Set.Ico_disjoint_Ico_same
      rw [List.getLast_cons (List.cons_ne_nil b l), ← Set.Ico_union_Ico_eq_Ico hab hlast]
      use hpiece.union htail
      rw [setIntegral_union hdisjoint measurableSet_Ico hpiece htail, hvalue, hsum]
      exact (List.sum_cons ..).symm

/-- A function that is zero from a moment on has no more to integrate there. -/
theorem integral_Ici (hab : a ≤ b) (hf : ∀ t, b ≤ t → f t = 0)
    (hintegrable : IntegrableOn f (Set.Ico a b)) :
  IntegrableOn f (Set.Ici a) ∧ ∫ t in Set.Ici a, f t = ∫ t in Set.Ico a b, f t
  := by
  have hrest : Set.EqOn (fun _ => (0 : ℝ)) f (Set.Ici b) := fun t ht => (hf t ht).symm
  have hzero : IntegrableOn f (Set.Ici b) :=
    integrableOn_zero.congr_fun hrest measurableSet_Ici
  constructor
  · rw [← Set.Ico_union_Ici_eq_Ici hab]
    exact hintegrable.union hzero
  · rw [← Set.Ico_union_Ici_eq_Ici hab, setIntegral_union _ measurableSet_Ici hintegrable hzero,
      ← setIntegral_congr_fun measurableSet_Ici hrest, integral_zero, add_zero]
    rw [Set.disjoint_left]
    exact fun t ht ht' => not_lt.mpr ht' ht.2

end Steps
