import Mathlib.Data.Nat.Digits.Defs
import Mathlib.Tactic.Linarith

/-!
# Big-endian digits

Lists of digits with the most significant first. Lists of the same length are ordered
lexicographically as the numbers they stand for are ordered.
-/

namespace BigEndian

variable {b n x y : ℕ} {ds es : List ℕ}

/-- The number the digits stand for. -/
def value (b : ℕ) (ds : List ℕ) : ℕ := Nat.ofDigits b ds.reverse

/-- The last `n` digits of a number. -/
def digits (b : ℕ) : ℕ → ℕ → List ℕ
  | 0, _ => []
  | n + 1, x => x / b ^ n % b :: digits b n x

theorem value_cons (b d : ℕ) (ds : List ℕ) :
  value b (d :: ds) = b ^ ds.length * d + value b ds
  := by
  rw [value, Nat.ofDigits_reverse_cons, Nat.add_comm]
  rfl

theorem value_lt (hb : 1 < b) (hds : ∀ d ∈ ds, d < b) :
  value b ds < b ^ ds.length
  := by
  have hlt := Nat.ofDigits_lt_base_pow_length (l := ds.reverse) hb
    (fun d hd => hds d (List.mem_reverse.mp hd))
  rwa [List.length_reverse] at hlt

@[simp]
theorem length_digits (b n x : ℕ) :
  (digits b n x).length = n
  := by
  induction n with
  | zero => rfl
  | succ n ih => exact congrArg (· + 1) ih

theorem digits_lt (hb : 0 < b) :
  ∀ d ∈ digits b n x, d < b
  := by
  induction n with
  | zero => exact fun d hd => absurd hd List.not_mem_nil
  | succ n ih =>
      intro d hd
      rcases List.mem_cons.mp hd with rfl | hd
      · exact Nat.mod_lt _ hb
      · exact ih d hd

/-- The last digits of a number stand for its remainder. -/
theorem value_digits (b n x : ℕ) :
  value b (digits b n x) = x % b ^ n
  := by
  induction n with
  | zero => exact (Nat.mod_one x).symm
  | succ n ih => rw [digits, value_cons, length_digits, ih, Nat.pow_succ, Nat.mod_mul, Nat.add_comm]

/-- Digits of the same length are ordered as what they stand for. -/
theorem lt_iff (hb : 1 < b) (hds : ∀ d ∈ ds, d < b) (hes : ∀ e ∈ es, e < b)
    (hlength : ds.length = es.length) :
  ds < es ↔ value b ds < value b es
  := by
  induction ds generalizing es with
  | nil =>
      obtain rfl := List.length_eq_zero_iff.mp hlength.symm
      simp
  | cons d ds ih =>
      obtain ⟨e, es, rfl⟩ := List.exists_cons_of_length_eq_add_one hlength.symm
      have hlength : ds.length = es.length := Nat.succ.inj hlength
      have hds' := fun d hd => hds d (List.mem_cons_of_mem _ hd)
      have hes' := fun e he => hes e (List.mem_cons_of_mem _ he)
      have hd := value_lt hb hds'
      have he := value_lt hb hes'
      rw [List.cons_lt_cons_iff, ih hds' hes' hlength, value_cons, value_cons, hlength]
      rw [hlength] at hd
      constructor
      · rintro (hlt | ⟨rfl, hlt⟩)
        · have hstep : b ^ es.length * (d + 1) ≤ b ^ es.length * e := Nat.mul_le_mul_left _ hlt
          rw [Nat.mul_succ] at hstep
          omega
        · omega
      · intro hlt
        rcases Nat.lt_trichotomy d e with hlt' | rfl | hgt
        · exact .inl hlt'
        · exact .inr ⟨rfl, by omega⟩
        · have hstep : b ^ es.length * (e + 1) ≤ b ^ es.length * d := Nat.mul_le_mul_left _ hgt
          rw [Nat.mul_succ] at hstep
          omega

/-- The digits of numbers that have so many are ordered as the numbers. -/
theorem digits_lt_digits (hb : 1 < b) (hx : x < b ^ n) (hy : y < b ^ n) :
  digits b n x < digits b n y ↔ x < y
  := by
  have hpos : 0 < b := by omega
  rw [lt_iff hb (digits_lt hpos) (digits_lt hpos) (by simp), value_digits, value_digits,
    Nat.mod_eq_of_lt hx, Nat.mod_eq_of_lt hy]

/-- Fronts of the same length decide the order, or else what follows them. -/
theorem append_lt_append_iff {ds' es' : List ℕ} (hlength : ds.length = es.length) :
  ds ++ ds' < es ++ es' ↔ ds < es ∨ (ds = es ∧ ds' < es')
  := by
  induction ds generalizing es with
  | nil =>
      obtain rfl := List.length_eq_zero_iff.mp hlength.symm
      simp
  | cons d ds ih =>
      obtain ⟨e, es, rfl⟩ := List.exists_cons_of_length_eq_add_one hlength.symm
      rw [List.cons_append, List.cons_append, List.cons_lt_cons_iff, List.cons_lt_cons_iff,
        ih (Nat.succ.inj hlength), List.cons.injEq]
      tauto

/-- Digits that are each at most those of another list are not after it. -/
theorem not_lt_of_forall₂ (h : List.Forall₂ (· ≤ ·) ds es) :
  ¬ es < ds
  := by
  induction h with
  | nil => exact List.not_lt_nil []
  | cons hle _ ih =>
      rw [List.cons_lt_cons_iff]
      rintro (hlt | ⟨-, hlt⟩)
      · omega
      · exact ih hlt

end BigEndian
