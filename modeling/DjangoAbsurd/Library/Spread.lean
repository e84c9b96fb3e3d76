import Mathlib.Algebra.BigOperators.Group.Finset.Basic
import Mathlib.Algebra.Order.BigOperators.Group.Finset
import Mathlib.Algebra.BigOperators.Ring.Finset
import Mathlib.Algebra.Order.Field.Rat
import Mathlib.Tactic.Linarith
import Mathlib.Tactic.Ring

/-!
# Spreading groups by rank

The entries of a sequence have a rank and belong to groups, each with its share of the whole.
When the entries of a group come at the pace of its share, as the ranks go up, then every
prefix of the sequence, sorted by rank, has the share of the group to within one entry below
and as many entries above as there are other groups to wait for.
-/

universe u

namespace Spread

variable {γ : Type u} [DecidableEq γ]

/-- The entries of a group up to a rank. -/
def upTo (entries : List (ℚ × γ)) (g : γ) (x : ℚ) : ℕ :=
  entries.countP (fun a => a.2 = g ∧ a.1 ≤ x)

/-- The entries of a group below a rank. -/
def below (entries : List (ℚ × γ)) (g : γ) (x : ℚ) : ℕ :=
  entries.countP (fun a => a.2 = g ∧ a.1 < x)

/-- The shares make up the whole, and at the rank of every entry each group has had its share
of the rank to within one entry. -/
structure Paced (groups : Finset γ) (share : γ → ℚ) (entries : List (ℚ × γ)) : Prop where
  labels : ∀ e ∈ entries, e.2 ∈ groups
  nonneg : ∀ g ∈ groups, 0 ≤ share g
  whole : ∑ g ∈ groups, share g = 1
  ahead : ∀ e ∈ entries, ∀ g ∈ groups, (upTo entries g e.1 : ℚ) ≤ share g * e.1
  behind : ∀ e ∈ entries, ∀ g ∈ groups, share g * e.1 - 1 ≤ (below entries g e.1 : ℚ)

/-! ### Prefixes of a sorted sequence -/

section

variable {entries pre : List (ℚ × γ)} {e : ℚ × γ} {g : γ}

omit [DecidableEq γ] in
theorem pairwise_mergeSort (entries : List (ℚ × γ)) :
  (entries.mergeSort (fun a b => a.1 ≤ b.1)).Pairwise (fun a b => a.1 ≤ b.1)
  := by
  have htrans : ∀ a b c : ℚ × γ,
      decide (a.1 ≤ b.1) → decide (b.1 ≤ c.1) → decide (a.1 ≤ c.1) := by
    simp only [decide_eq_true_eq]
    intro a b c
    apply le_trans
  have htotal : ∀ a b : ℚ × γ, decide (a.1 ≤ b.1) || decide (b.1 ≤ a.1) := by
    simp only [Bool.or_eq_true, decide_eq_true_eq]
    intro a b
    apply le_total
  simpa only [decide_eq_true_eq] using List.pairwise_mergeSort htrans htotal entries

/-- A prefix has no more of a group than comes up to the rank of its last entry. -/
theorem count_le_upTo (hsorted : entries.Pairwise (fun a b => a.1 ≤ b.1))
    (h : pre ++ [e] <+: entries) :
  ((pre ++ [e]).map Prod.snd).count g ≤ upTo entries g e.1
  := by
  have hpre : (pre ++ [e]).Pairwise (fun a b => a.1 ≤ b.1) := hsorted.sublist h.sublist
  have hlast : ∀ a ∈ pre ++ [e], a.1 ≤ e.1 := by
    intro a ha
    rcases List.mem_append.mp ha with ha | ha
    · exact (List.pairwise_append.mp hpre).2.2 a ha e (List.mem_singleton_self e)
    · rw [List.mem_singleton.mp ha]
  calc ((pre ++ [e]).map Prod.snd).count g
      = upTo (pre ++ [e]) g e.1 := by
        rw [List.count, List.countP_map, upTo]
        apply List.countP_congr
        intro a ha
        simp [hlast a ha]
    _ ≤ upTo entries g e.1 := h.sublist.countP_le

/-- A prefix has all of a group that comes below the rank of its last entry. -/
theorem below_le_count (hsorted : entries.Pairwise (fun a b => a.1 ≤ b.1))
    (h : pre ++ [e] <+: entries) :
  below entries g e.1 ≤ ((pre ++ [e]).map Prod.snd).count g
  := by
  obtain ⟨rest, rfl⟩ := h
  have hrest : below rest g e.1 = 0 := by
    apply List.countP_eq_zero.mpr
    intro a ha
    have hle := (List.pairwise_append.mp hsorted).2.2 e (by simp) a ha
    simp [hle.not_gt]
  rw [below, List.countP_append]
  rw [below] at hrest
  rw [hrest, Nat.add_zero, List.count, List.countP_map]
  apply List.countP_mono_left
  intro a _ ha
  rw [decide_eq_true_eq] at ha
  simpa using ha.1

end

/-! ### The spread -/

/-- The entries of a sequence are those of the groups they belong to. -/
theorem length_eq_sum_count {groups : Finset γ} {l : List γ} (h : ∀ g ∈ l, g ∈ groups) :
  (l.length : ℚ) = ∑ g ∈ groups, (l.count g : ℚ)
  := by
  have hsum := Multiset.sum_count_eq_card (m := (l : Multiset γ)) (fun g hg => h g hg)
  rw [Multiset.coe_card] at hsum
  rw [← hsum, Nat.cast_sum]
  apply Finset.sum_congr rfl
  intro g _
  rw [Multiset.coe_count]

section

variable {groups : Finset γ} {share : γ → ℚ} {entries : List (ℚ × γ)}

/-- Sums over the other groups. -/
theorem Paced.sum_erase (h : Paced groups share entries) {g : γ} (hg : g ∈ groups) :
  ∑ h ∈ groups.erase g, share h = 1 - share g
  := by
  rw [← h.whole, ← Finset.add_sum_erase _ _ hg]
  ring

/-- The order of the entries is of no matter to their pace. -/
theorem Paced.perm (h : Paced groups share entries) {entries' : List (ℚ × γ)}
    (hperm : entries.Perm entries') :
  Paced groups share entries'
  := by
  constructor
  · intro e he
    apply h.labels e (hperm.mem_iff.mpr he)
  · apply h.nonneg
  · apply h.whole
  · intro e he g hg
    rw [upTo, ← hperm.countP_eq]
    apply h.ahead e (hperm.mem_iff.mpr he) g hg
  · intro e he g hg
    rw [below, ← hperm.countP_eq]
    apply h.behind e (hperm.mem_iff.mpr he) g hg

/-- A prefix of sorted entries has each group's share of it, less one entry at most, and
one more at most for each other group, to the measure of the share. -/
theorem Paced.spread (h : Paced groups share entries)
    (hsorted : entries.Pairwise (fun a b => a.1 ≤ b.1)) {g : γ} (hg : g ∈ groups)
    {pre : List γ} (hpre : pre <+: entries.map Prod.snd) :
  -1 ≤ (pre.count g : ℚ) - pre.length * share g
    ∧ (pre.count g : ℚ) - pre.length * share g ≤ (groups.card - 1) * share g
  := by
  obtain ⟨es, hes, rfl⟩ := List.prefix_map_iff.mp hpre
  have hnonneg : 0 ≤ share g := h.nonneg g hg
  have hle : share g ≤ 1 := h.whole ▸ Finset.single_le_sum h.nonneg hg
  have hcard : (1 : ℚ) ≤ groups.card := by
    exact_mod_cast Finset.card_pos.mpr ⟨g, hg⟩
  rcases List.eq_nil_or_concat es with rfl | ⟨init, e, rfl⟩
  · have hproduct : 0 ≤ ((groups.card : ℚ) - 1) * share g :=
      mul_nonneg (by linarith) hnonneg
    simpa using hproduct
  · rw [List.concat_eq_append] at hes ⊢
    have he : e ∈ entries := hes.subset (by simp)
    let n : γ → ℚ := fun g => (((init ++ [e]).map Prod.snd).count g : ℚ)
    have hahead : ∀ g ∈ groups, n g ≤ share g * e.1 := by
      intro g hg
      apply le_trans _ (h.ahead e he g hg)
      apply Nat.cast_le.mpr (count_le_upTo hsorted hes)
    have hbehind : ∀ g ∈ groups, share g * e.1 - 1 ≤ n g := by
      intro g hg
      apply le_trans (h.behind e he g hg)
      apply Nat.cast_le.mpr (below_le_count hsorted hes)
    have hlength : (((init ++ [e]).map Prod.snd).length : ℚ)
        = n g + ∑ g' ∈ groups.erase g, n g' := by
      rw [Finset.add_sum_erase _ _ hg]
      apply length_eq_sum_count
      intro g' hg'
      obtain ⟨a, ha, rfl⟩ := List.mem_map.mp hg'
      exact h.labels a (hes.subset ha)
    have hothersAhead : ∑ g' ∈ groups.erase g, n g' ≤ (1 - share g) * e.1 := by
      rw [← h.sum_erase hg, Finset.sum_mul]
      apply Finset.sum_le_sum
      intro g' hg'
      apply hahead g' (Finset.mem_of_mem_erase hg')
    have hothersBehind : (1 - share g) * e.1 - (groups.card - 1)
        ≤ ∑ g' ∈ groups.erase g, n g' := by
      calc (1 - share g) * e.1 - (groups.card - 1)
          = ∑ g' ∈ groups.erase g, (share g' * e.1 - 1) := by
            rw [Finset.sum_sub_distrib, ← Finset.sum_mul, h.sum_erase hg, Finset.sum_const,
              Finset.card_erase_of_mem hg, nsmul_one, Nat.cast_pred (Finset.card_pos.mpr ⟨g, hg⟩)]
        _ ≤ ∑ g' ∈ groups.erase g, n g' := by
            apply Finset.sum_le_sum
            intro g' hg'
            apply hbehind g' (Finset.mem_of_mem_erase hg')
    rw [hlength]
    change -1 ≤ n g - _ ∧ n g - _ ≤ _
    have hg₁ := hahead g hg
    have hg₂ := hbehind g hg
    constructor
    · -- the others are not ahead of their shares, and the group is one entry behind at most
      nlinarith [mul_le_mul_of_nonneg_left hothersAhead hnonneg]
    · -- the group is not ahead of its share, and the others are one entry behind at most
      nlinarith [mul_le_mul_of_nonneg_left hothersBehind hnonneg]

end

/-! ### Groups by their place -/

section

variable {α : Type u} {ranks : α → List ℚ} {l : List α} {a : α} {g : ℕ}

/-- The entries of the groups of a list, each labelled with the place of its group. -/
def labelled (ranks : α → List ℚ) (l : List α) : List (ℚ × ℕ) :=
  l.zipIdx.flatMap (fun a => (ranks a.1).map (·, a.2))

theorem mem_labelled {e : ℚ × ℕ} :
  e ∈ labelled ranks l ↔ ∃ a, l[e.2]? = some a ∧ e.1 ∈ ranks a
  := by
  simp only [labelled, List.mem_flatMap, List.mem_map]
  constructor
  · rintro ⟨⟨a, g⟩, ha, x, hx, rfl⟩
    exact ⟨a, List.mem_zipIdx_iff_getElem?.mp ha, hx⟩
  · rintro ⟨a, ha, hx⟩
    exact ⟨(a, e.2), List.mem_zipIdx_iff_getElem?.mpr ha, e.1, hx, rfl⟩

/-- The entries with the label of a place are those of the group at the place. -/
theorem countP_labelled (h : l[g]? = some a) (p : ℚ → Bool) :
  (labelled ranks l).countP (fun e => e.2 = g ∧ p e.1) = (ranks a).countP p
  := by
  obtain ⟨hg, ha⟩ := List.getElem?_eq_some_iff.mp h
  have hother : ∀ (l' : List α) (n : ℕ), (∀ b ∈ l'.zipIdx n, b.2 ≠ g) →
      ((l'.zipIdx n).flatMap (fun b => (ranks b.1).map (·, b.2))).countP
        (fun e => e.2 = g ∧ p e.1) = 0 := by
    intro l' n hne
    apply List.countP_eq_zero.mpr
    intro e he
    obtain ⟨b, hb, hmem⟩ := List.mem_flatMap.mp he
    obtain ⟨x, _, rfl⟩ := List.mem_map.mp hmem
    simp [hne b hb]
  have hsplit : l = l.take g ++ a :: l.drop (g + 1) := by
    rw [← ha, ← List.drop_eq_getElem_cons hg, List.take_append_drop]
  have hbefore : (l.take g).length = g := List.length_take_of_le hg.le
  rw [labelled, hsplit, List.zipIdx_append, List.zipIdx_cons, List.flatMap_append,
    List.flatMap_cons, List.countP_append, List.countP_append, hother, hother, List.countP_map]
  · rw [Nat.zero_add, Nat.add_zero]
    apply List.countP_congr
    intro x _
    simp [hbefore]
  · intro b hb
    have := List.le_snd_of_mem_zipIdx hb
    omega
  · intro b hb
    have := List.snd_lt_of_mem_zipIdx hb
    omega

end

end Spread
