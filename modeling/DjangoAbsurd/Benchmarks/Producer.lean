import DjangoAbsurd.Backends
import DjangoAbsurd.Library.Fallible
import DjangoAbsurd.Library.Spread
import Mathlib.Algebra.BigOperators.Field
import Mathlib.Tactic.Positivity

/-!
# Offering the tasks

`interleave_by_share` makes one sequence of several groups of tasks. The task `index` of a group
is placed at `(index + 1) * total / count`, and the places are sorted. The places of a group are
then at its pace: up to a place `x` the group has had its share of `x`, to within one task.
-/

namespace DjangoAbsurd.Benchmarks

universe u

/-- A group of tasks: the path of the task, the arguments, and how many. -/
structure Group where
  taskPath : String
  kwargs : Kwargs
  count : ℤ

/-- Where the task `index` of a group is placed. -/
def position (total count : ℤ) (index : ℕ) : ℚ := (index + 1) * total / count

/-- The tasks of the groups, each by its group and its `index` there. -/
def places (groups : List Group) : List (Group × ℕ) :=
  groups.flatMap (fun group => (List.range group.count.toNat).map (fun index => (group, index)))

section

variable {τ : Type u} (importString : String → Option τ)

/-- An entry of `placed`; `importString` is Django's `import_string`, and it may raise. -/
def placedTask (total : ℤ) (place : Group × ℕ) : Option (ℚ × τ × Kwargs) :=
  (importString place.1.taskPath).map
    (fun taskObject => (position total place.1.count place.2, taskObject, place.1.kwargs))

/-- `interleave_by_share`. -/
def interleaveByShare (groups : List Group) : Option (List (τ × Kwargs)) :=
  let total := (groups.map Group.count).sum
  let placed := (places groups).mapM (placedTask importString total)
  placed.map (fun placed => (placed.mergeSort (fun a b => a.1 ≤ b.1)).map Prod.snd)

/-! ### The order of the groups -/

/-- The places of a group. -/
def positions (total count : ℤ) : List ℚ := (List.range count.toNat).map (position total count)

/-- The places of the groups, each with the number of its group. -/
def numberedPositions (counts : List ℤ) : List (ℚ × ℕ) :=
  Spread.labelled (positions counts.sum) counts

/-- The number of the group that each task of the sequence is of. -/
def groupOrder (counts : List ℤ) : List ℕ :=
  ((numberedPositions counts).mergeSort (fun a b => a.1 ≤ b.1)).map Prod.snd

/-- A task of a group, by the number of the group. -/
def entryOf (groups : List Group) (g : ℕ) : Option (τ × Kwargs) :=
  groups[g]?.bind (fun group => (importString group.taskPath).map (·, group.kwargs))

/-- A task of a group with its place. -/
def placedEntry (groups : List Group) (e : ℚ × ℕ) : Option (ℚ × τ × Kwargs) :=
  (entryOf importString groups e.2).map (e.1, ·)

/-- The entries of `placed` by the numbers of their groups. -/
theorem map_placedTask (groups : List Group) :
  (places groups).map (placedTask importString (groups.map Group.count).sum)
    = (numberedPositions (groups.map Group.count)).map (placedEntry importString groups)
  := by
  let total := (groups.map Group.count).sum
  calc (places groups).map (placedTask importString total)
      = groups.zipIdx.flatMap (fun e => (List.range e.1.count.toNat).map
          (fun index => placedTask importString total (e.1, index))) := by
        rw [places, List.map_flatMap]
        nth_rewrite 1 [← List.zipIdx_map_fst 0 groups]
        rw [List.flatMap_map]
        simp only [List.map_map, Function.comp_def]
    _ = groups.zipIdx.flatMap (fun e => (positions total e.1.count).map
          (fun x => placedEntry importString groups (x, e.2))) := by
        apply List.flatMap_congr
        intro e he
        have hgroup : groups[e.2]? = some e.1 := List.mem_zipIdx_iff_getElem?.mp he
        simp only [positions, List.map_map, Function.comp_def, placedEntry, entryOf, hgroup,
          Option.bind_some, Option.map_map, placedTask]
    _ = (numberedPositions (groups.map Group.count)).map (placedEntry importString groups) := by
        rw [numberedPositions, Spread.labelled, List.zipIdx_map, List.flatMap_map,
          List.map_flatMap]
        simp only [List.map_map, Function.comp_def, Prod.map, id_eq, total]

/-- The tasks of the sequence are those of their groups, in the order of the groups. -/
theorem interleaveByShare_eq_mapM (groups : List Group) :
  interleaveByShare importString groups
    = (groupOrder (groups.map Group.count)).mapM (entryOf importString groups)
  := by
  let counts := groups.map Group.count
  have hplaced : (places groups).mapM (placedTask importString counts.sum)
      = (numberedPositions counts).mapM (placedEntry importString groups) := by
    apply Option.mapM_congr
    apply map_placedTask
  have hrank : ∀ e e' a a', placedEntry importString groups e = some a →
      placedEntry importString groups e' = some a' →
        decide (e.1 ≤ e'.1) = decide (a.1 ≤ a'.1) := by
    intro e e' a a' ha ha'
    obtain ⟨_, _, rfl⟩ := Option.map_eq_some_iff.mp ha
    obtain ⟨_, _, rfl⟩ := Option.map_eq_some_iff.mp ha'
    rfl
  have hsnd : ∀ e, (placedEntry importString groups e).map Prod.snd
      = entryOf importString groups e.2 := by
    intro e
    rw [placedEntry, Option.map_map]
    apply Option.map_id'
  calc interleaveByShare importString groups
      = (((numberedPositions counts).mapM (placedEntry importString groups)).map
          (·.mergeSort (fun a b => a.1 ≤ b.1))).map (List.map Prod.snd) := by
        rw [← hplaced, Option.map_map]
        rfl
    _ = ((numberedPositions counts).mergeSort (fun a b => a.1 ≤ b.1)).mapM
          (fun e => entryOf importString groups e.2) := by
        rw [Option.map_mergeSort_mapM _ _ hrank, Option.map_map_mapM]
        simp only [hsnd]
    _ = (groupOrder counts).mapM (entryOf importString groups) := by
        rw [groupOrder, List.mapM_map]
        rfl

end

/-! ### The pace of a group -/

section

variable {total count : ℤ}

theorem mem_positions {x : ℚ} :
  x ∈ positions total count ↔ ∃ index < count.toNat, position total count index = x
  := by
  simp [positions]

/-- Up to a number there are at most that many of the first numbers. -/
theorem countP_range_le {y : ℚ} (hy : 0 ≤ y) (n : ℕ) :
  ((List.range n).countP (fun i : ℕ => (i : ℚ) + 1 ≤ y) : ℚ) ≤ y
  := by
  induction n with
  | zero => simpa using hy
  | succ n ih =>
      by_cases hn : (n : ℚ) + 1 ≤ y
      · have hlength := List.countP_le_length (p := fun i => decide (((i : ℕ) : ℚ) + 1 ≤ y))
          (l := List.range (n + 1))
        rw [List.length_range] at hlength
        calc _ ≤ ((n + 1 : ℕ) : ℚ) := Nat.cast_le.mpr hlength
          _ = (n : ℚ) + 1 := Nat.cast_succ n
          _ ≤ y := hn
      · simpa [List.range_succ, hn] using ih

/-- Below a number there are at least one less than that many of the first numbers. -/
theorem sub_one_le_countP_range {y : ℚ} (n : ℕ) (hy : y ≤ n) :
  y - 1 ≤ ((List.range n).countP (fun i : ℕ => (i : ℚ) + 1 < y) : ℚ)
  := by
  induction n with
  | zero =>
      rw [Nat.cast_zero] at hy
      rw [List.range_zero, List.countP_nil, Nat.cast_zero]
      linarith
  | succ n ih =>
      rw [Nat.cast_succ] at hy
      by_cases hn : y ≤ n
      · simpa [List.range_succ, hy.not_gt] using ih hn
      · have hall : (List.range n).countP (fun i => decide (((i : ℕ) : ℚ) + 1 < y)) = n := by
          apply Eq.trans (List.countP_eq_length.mpr _) List.length_range
          intro i hi
          have hle : ((i + 1 : ℕ) : ℚ) ≤ n := Nat.cast_le.mpr (List.mem_range.mp hi)
          rw [Nat.cast_succ] at hle
          rw [decide_eq_true_eq]
          linarith
        rw [List.range_succ, List.countP_append, hall, Nat.cast_add]
        have hrest : (0 : ℚ) ≤ (([n].countP (fun i => decide (((i : ℕ) : ℚ) + 1 < y)) : ℕ) : ℚ) :=
          Nat.cast_nonneg _
        linarith

/-- A task comes by a place when its number comes by the share of the place. -/
theorem position_le_iff (htotal : 0 < total) (hcount : 0 < count) {index : ℕ} {x : ℚ} :
  position total count index ≤ x ↔ (index : ℚ) + 1 ≤ count / total * x
  := by
  have htotal' : (0 : ℚ) < total := Int.cast_pos.mpr htotal
  have hcount' : (0 : ℚ) < count := Int.cast_pos.mpr hcount
  rw [position, div_le_iff₀ hcount', div_mul_eq_mul_div, le_div_iff₀ htotal', mul_comm x]

theorem position_lt_iff (htotal : 0 < total) (hcount : 0 < count) {index : ℕ} {x : ℚ} :
  position total count index < x ↔ (index : ℚ) + 1 < count / total * x
  := by
  have htotal' : (0 : ℚ) < total := Int.cast_pos.mpr htotal
  have hcount' : (0 : ℚ) < count := Int.cast_pos.mpr hcount
  rw [position, div_lt_iff₀ hcount', div_mul_eq_mul_div, lt_div_iff₀ htotal', mul_comm x]

end

/-! ### The spread of the groups -/

section

variable {counts : List ℤ} {count : ℤ} {g : ℕ}

/-- The share of a group in the total. -/
def share (counts : List ℤ) (g : ℕ) : ℚ := (counts[g]?.getD 0 : ℤ) / (counts.sum : ℤ)

theorem share_eq (h : counts[g]? = some count) :
  share counts g = (count : ℚ) / (counts.sum : ℤ)
  := by
  rw [share, h, Option.getD_some]

theorem sum_range_getD (l : List ℤ) :
  ∑ g ∈ Finset.range l.length, (l[g]?.getD 0) = l.sum
  := by
  induction l with
  | nil => rfl
  | cons a l ih =>
      rw [List.length_cons, Finset.sum_range_succ', List.sum_cons, ← ih, add_comm]
      simp

/-- A task has its place within the total. -/
theorem position_bounds {total : ℤ} {index : ℕ} (htotal : 0 < total) (h : index < count.toNat) :
  0 ≤ position total count index ∧ position total count index ≤ total
  := by
  have hcount : 0 < count := by omega
  have htotal' : (0 : ℚ) < total := Int.cast_pos.mpr htotal
  have hcount' : (0 : ℚ) < count := Int.cast_pos.mpr hcount
  constructor
  · rw [position]
    positivity
  · rw [position_le_iff htotal hcount, div_mul_cancel₀ _ htotal'.ne']
    have hle : ((index : ℤ) + 1) ≤ count := by omega
    exact_mod_cast hle

/-- The tasks of a group that come up to a place, by their numbers in the group. -/
theorem upTo_numberedPositions (htotal : 0 < counts.sum) (h : counts[g]? = some count) (x : ℚ) :
  Spread.upTo (numberedPositions counts) g x
    = (List.range count.toNat).countP (fun i : ℕ => (i : ℚ) + 1 ≤ share counts g * x)
  := by
  calc Spread.upTo (numberedPositions counts) g x
      = (positions counts.sum count).countP (· ≤ x) := by
        rw [← Spread.countP_labelled h]
        simp only [Spread.upTo, numberedPositions, decide_eq_true_eq]
    _ = _ := by
        rw [positions, List.countP_map]
        apply List.countP_congr
        intro index hindex
        have hcount : 0 < count := by
          have := List.mem_range.mp hindex
          omega
        simp only [Function.comp_apply, position_le_iff htotal hcount, share_eq h]

theorem below_numberedPositions (htotal : 0 < counts.sum) (h : counts[g]? = some count) (x : ℚ) :
  Spread.below (numberedPositions counts) g x
    = (List.range count.toNat).countP (fun i : ℕ => (i : ℚ) + 1 < share counts g * x)
  := by
  calc Spread.below (numberedPositions counts) g x
      = (positions counts.sum count).countP (· < x) := by
        rw [← Spread.countP_labelled h]
        simp only [Spread.below, numberedPositions, decide_eq_true_eq]
    _ = _ := by
        rw [positions, List.countP_map]
        apply List.countP_congr
        intro index hindex
        have hcount : 0 < count := by
          have := List.mem_range.mp hindex
          omega
        simp only [Function.comp_apply, position_lt_iff htotal hcount, share_eq h]

/-- Each group is placed at the pace of its share. -/
theorem paced_numberedPositions (hcounts : ∀ count ∈ counts, 0 ≤ count)
    (htotal : 0 < counts.sum) :
  Spread.Paced (Finset.range counts.length) (share counts) (numberedPositions counts)
  := by
  have htotal' : (0 : ℚ) < counts.sum := Int.cast_pos.mpr htotal
  have hgroup : ∀ g ∈ Finset.range counts.length, ∃ count, counts[g]? = some count ∧ 0 ≤ count := by
    intro g hg
    have hlt : g < counts.length := Finset.mem_range.mp hg
    use counts[g], List.getElem?_eq_getElem hlt
    apply hcounts _ (List.getElem_mem hlt)
  have hbounds : ∀ e ∈ numberedPositions counts, 0 ≤ e.1 ∧ e.1 ≤ counts.sum := by
    intro e he
    obtain ⟨count, _, hmem⟩ := Spread.mem_labelled.mp he
    obtain ⟨index, hindex, heq⟩ := mem_positions.mp hmem
    rw [← heq]
    apply position_bounds htotal hindex
  have hnonneg : ∀ g ∈ Finset.range counts.length, 0 ≤ share counts g := by
    intro g hg
    obtain ⟨count, hcount, hle⟩ := hgroup g hg
    rw [share_eq hcount]
    apply div_nonneg (Int.cast_nonneg hle) htotal'.le
  constructor
  · intro e he
    obtain ⟨count, hcount, _⟩ := Spread.mem_labelled.mp he
    apply Finset.mem_range.mpr (List.getElem?_eq_some_iff.mp hcount).1
  · apply hnonneg
  · simp only [share]
    rw [← Finset.sum_div, ← Int.cast_sum, sum_range_getD, div_self htotal'.ne']
  · intro e he g hg
    obtain ⟨count, hcount, hle⟩ := hgroup g hg
    rw [upTo_numberedPositions htotal hcount]
    apply countP_range_le
    apply mul_nonneg (hnonneg g hg) (hbounds e he).1
  · intro e he g hg
    obtain ⟨count, hcount, hle⟩ := hgroup g hg
    rw [below_numberedPositions htotal hcount]
    apply sub_one_le_countP_range
    -- a place within the total is within the share of the group
    calc share counts g * e.1
        ≤ share counts g * counts.sum :=
          mul_le_mul_of_nonneg_left (hbounds e he).2 (hnonneg g hg)
      _ = (count : ℚ) := by
          rw [share_eq hcount, div_mul_cancel₀ _ htotal'.ne']
      _ = ((count.toNat : ℤ) : ℚ) := by
          rw [Int.toNat_of_nonneg hle]
      _ = (count.toNat : ℚ) := Int.cast_natCast _

/-- The sequence has each group as often as its count says. -/
theorem count_groupOrder (h : counts[g]? = some count) :
  (groupOrder counts).count g = count.toNat
  := by
  calc (groupOrder counts).count g
      = (numberedPositions counts).countP (fun e => e.2 = g ∧ true) := by
        rw [groupOrder, List.count, List.countP_map]
        apply Eq.trans ((List.mergeSort_perm _ _).countP_eq _)
        apply List.countP_congr
        intro e _
        simp
    _ = (positions counts.sum count).countP (fun _ => true) := by
        apply Spread.countP_labelled h (fun _ => true)
    _ = count.toNat := by
        rw [List.countP_true, positions, List.length_map, List.length_range]

end

/-- When the tasks are there to import, the sequence is there. -/
theorem isSome_interleaveByShare {τ : Type u} {importString : String → Option τ}
    {groups : List Group} :
  (interleaveByShare importString groups).isSome
    ↔ ∀ group ∈ groups, 0 < group.count → (importString group.taskPath).isSome
  := by
  simp only [interleaveByShare, Option.isSome_map, Option.isSome_mapM, placedTask, places,
    List.mem_flatMap, List.mem_map, List.mem_range]
  constructor
  · intro h group hgroup hcount
    apply h (group, 0)
    use group, hgroup, 0, by omega
  · rintro h _ ⟨group, hgroup, index, hindex, rfl⟩
    apply h group hgroup
    omega

/-- The sequence has each group as often as its count says, and every prefix of it has each
group by its share: at most one task less, and at most one more for each other group, to the
measure of the share. -/
theorem interleaveByShare_spread {τ : Type u} (importString : String → Option τ)
    (groups : List Group) (hcounts : ∀ group ∈ groups, 0 ≤ group.count)
    (htotal : 0 < (groups.map Group.count).sum) :
  interleaveByShare importString groups
      = (groupOrder (groups.map Group.count)).mapM (entryOf importString groups)
    ∧ ((interleaveByShare importString groups).isSome
      ↔ ∀ group ∈ groups, 0 < group.count → (importString group.taskPath).isSome)
    ∧ ∀ g group, groups[g]? = some group →
      ((groupOrder (groups.map Group.count)).count g : ℤ) = group.count
        ∧ ∀ pre, pre <+: groupOrder (groups.map Group.count) →
          -1 ≤ (pre.count g : ℚ) - pre.length * group.count / (groups.map Group.count).sum
            ∧ (pre.count g : ℚ) - pre.length * group.count / (groups.map Group.count).sum
              ≤ (groups.length - 1) * group.count / (groups.map Group.count).sum
  := by
  let counts := groups.map Group.count
  have hnonneg : ∀ count ∈ counts, 0 ≤ count := by
    intro count hcount
    obtain ⟨group, hgroup, rfl⟩ := List.mem_map.mp hcount
    apply hcounts group hgroup
  have hpaced := paced_numberedPositions hnonneg htotal
  use interleaveByShare_eq_mapM importString groups, isSome_interleaveByShare
  intro g group hgroup
  have hcount : counts[g]? = some group.count := by
    rw [List.getElem?_map, hgroup, Option.map_some]
  have hg : g < groups.length := (List.getElem?_eq_some_iff.mp hgroup).1
  constructor
  · rw [count_groupOrder hcount, Int.toNat_of_nonneg]
    apply hcounts group (List.mem_of_getElem? hgroup)
  · intro pre hpre
    have hspread := (hpaced.perm (List.mergeSort_perm _ _).symm).spread
      (Spread.pairwise_mergeSort _) (Finset.mem_range.mpr (by simpa [counts] using hg)) hpre
    rw [share_eq hcount, Finset.card_range, List.length_map] at hspread
    simpa only [mul_div_assoc] using hspread

/-- A rare group among many others. -/
def rareAmongMany : List Group :=
  [⟨"tasks.noop_sync", [], 4⟩, ⟨"tasks.sleep_sync", [], 2⟩]

theorem interleaveByShare_spread_rareAmongMany :
  (interleaveByShare some rareAmongMany).isSome
    ∧ (groupOrder [4, 2]).count 1 = 2
    ∧ ∀ pre, pre <+: groupOrder [4, 2] →
      -1 ≤ (pre.count 1 : ℚ) - pre.length * 2 / 6
        ∧ (pre.count 1 : ℚ) - pre.length * 2 / 6 ≤ (2 - 1) * 2 / 6
  := by
  have hspread := interleaveByShare_spread some rareAmongMany
    (by simp [rareAmongMany]) (by simp [rareAmongMany])
  obtain ⟨_, hsome, hgroups⟩ := hspread
  obtain ⟨hcount, hpre⟩ := hgroups 1 _ rfl
  constructor
  · apply hsome.mpr
    simp
  · constructor
    · apply Int.ofNat.inj hcount
    · intro pre h
      simpa [rareAmongMany] using hpre pre h

end DjangoAbsurd.Benchmarks
