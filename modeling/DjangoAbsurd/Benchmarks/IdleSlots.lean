import DjangoAbsurd.Library.Steps
import Mathlib.Data.List.Sort
import Mathlib.Algebra.BigOperators.Group.List.Basic

/-!
# Idle slot-seconds

`build_idle_slot_seconds` folds the intervals of the runs of a drain into the slot-seconds that
were idle while work was waiting. It is a sweep over the moments at which a run started or
completed. Between two consecutive moments nothing starts or completes, so that what it adds up
is an integral over time.
-/

namespace DjangoAbsurd.Benchmarks

open MeasureTheory

/-- When a run started and when it completed. -/
abbrev Interval := ℚ × ℚ

/-- `starts`. -/
def starts (rows : List Interval) : List ℚ := (rows.map Prod.fst).mergeSort (· ≤ ·)

/-- `moments`: the starts and the completions, each once. -/
def moments (rows : List Interval) : List ℚ :=
  (rows.flatMap (fun row => [row.1, row.2])).dedup.mergeSort (· ≤ ·)

/-- `busy` from the moment `opened` on. -/
def busyFrom (rows : List Interval) (opened : ℚ) : ℕ :=
  rows.countP (fun row => row.1 ≤ opened ∧ opened < row.2)

/-- `waiting` from the moment `opened` on. -/
def waitingFrom (rows : List Interval) (opened : ℚ) : ℕ :=
  (starts rows).countP (fun started => opened < started)

/-- One step of the sweep. -/
def addPiece (rows : List Interval) (slots : ℤ) (idleSeconds : ℚ) (piece : ℚ × ℚ) : ℚ :=
  let busy : ℤ := busyFrom rows piece.1
  let waiting : ℤ := waitingFrom rows piece.1
  if waiting ≠ 0 ∧ busy < slots then
    idleSeconds + (min (slots - busy) waiting : ℤ) * (piece.2 - piece.1)
  else idleSeconds

/-- `build_idle_slot_seconds`. -/
def buildIdleSlotSeconds (rows : List Interval) (slots : ℤ) : ℚ :=
  if rows = [] then 0
  else (Steps.pairs (moments rows)).foldl (addPiece rows slots) 0

/-! ### Idle slots over time -/

open Classical in
/-- How many runs are executing at a time. -/
noncomputable def busy (rows : List Interval) (t : ℝ) : ℕ :=
  rows.countP (fun row => (row.1 : ℝ) ≤ t ∧ t < row.2)

open Classical in
/-- How many runs start later. -/
noncomputable def waiting (rows : List Interval) (t : ℝ) : ℕ :=
  rows.countP (fun row => t < (row.1 : ℝ))

/-- The idle slots there is work for. -/
noncomputable def idleSlots (rows : List Interval) (slots : ℤ) (t : ℝ) : ℝ :=
  (min (max (slots - busy rows t) 0) (waiting rows t) : ℤ)

/-- The time of the earliest start, where there is one. -/
def Earliest (rows : List Interval) (t₀ : ℚ) : Prop :=
  rows = [] ∨ IsLeast {t | ∃ row ∈ rows, row.1 = t} t₀

section

variable {rows rows' : List Interval} {slots : ℤ} {t₀ m : ℚ} {piece : ℚ × ℚ} {t : ℝ}

theorem mem_moments :
  m ∈ moments rows ↔ ∃ row ∈ rows, m = row.1 ∨ m = row.2
  := by
  simp only [moments, List.mem_mergeSort, List.mem_dedup, List.mem_flatMap, List.mem_cons,
    List.not_mem_nil, or_false]

theorem sorted_moments (rows : List Interval) :
  (moments rows).Pairwise (· < ·)
  := by
  have hsorted : (moments rows).Pairwise (· ≤ ·) := List.pairwise_mergeSort' (· ≤ ·) _
  have hnodup : (moments rows).Nodup := by
    rw [moments, (List.mergeSort_perm _ _).nodup_iff]
    exact List.nodup_dedup _
  exact (hsorted.and hnodup).imp (fun h => lt_of_le_of_ne h.1 h.2)

/-- From one moment to the next one nothing starts. -/
theorem le_iff_of_piece (hpiece : piece ∈ Steps.pairs (moments rows)) (hopened : piece.1 ≤ t)
    (hclosed : t < piece.2) (hm : m ∈ moments rows) :
  (m : ℝ) ≤ t ↔ m ≤ piece.1
  := by
  constructor
  · intro hle
    rcases Steps.le_or_le_of_mem_pairs (sorted_moments rows) hpiece hm with hbefore | hafter
    · exact hbefore
    · have hlate : (piece.2 : ℝ) ≤ t := (Rat.cast_le.mpr hafter).trans hle
      exact absurd hlate (not_le.mpr hclosed)
  · exact fun hle => (Rat.cast_le.mpr hle).trans hopened

/-- From one moment to the next one the same runs are executing. -/
theorem busy_eq (hpiece : piece ∈ Steps.pairs (moments rows)) (hopened : piece.1 ≤ t)
    (hclosed : t < piece.2) :
  busy rows t = busyFrom rows piece.1
  := by
  apply List.countP_congr
  intro row hrow
  have hstarted := le_iff_of_piece hpiece hopened hclosed (mem_moments.mpr ⟨row, hrow, .inl rfl⟩)
  have hcompleted := le_iff_of_piece hpiece hopened hclosed (mem_moments.mpr ⟨row, hrow, .inr rfl⟩)
  rw [decide_eq_true_iff, decide_eq_true_iff, hstarted, ← not_le, hcompleted, not_le]

/-- From one moment to the next one the same runs are waiting. -/
theorem waiting_eq (hpiece : piece ∈ Steps.pairs (moments rows)) (hopened : piece.1 ≤ t)
    (hclosed : t < piece.2) :
  waiting rows t = waitingFrom rows piece.1
  := by
  rw [waitingFrom, starts, (List.mergeSort_perm _ _).countP_eq, List.countP_map]
  apply List.countP_congr
  intro row hrow
  have hstarted := le_iff_of_piece hpiece hopened hclosed (mem_moments.mpr ⟨row, hrow, .inl rfl⟩)
  rw [decide_eq_true_iff, ← not_le, hstarted, not_le]
  exact (decide_eq_true_iff ..).symm

/-- From one moment to the next one the idle slots are the same. -/
theorem idleSlots_eq (slots : ℤ) (hpiece : piece ∈ Steps.pairs (moments rows))
    (hopened : piece.1 ≤ t) (hclosed : t < piece.2) :
  idleSlots rows slots t = idleSlots rows slots piece.1
  := by
  have hlt : (piece.1 : ℝ) < piece.2 := hopened.trans_lt hclosed
  rw [idleSlots, idleSlots, busy_eq hpiece hopened hclosed, waiting_eq hpiece hopened hclosed,
    busy_eq hpiece le_rfl hlt, waiting_eq hpiece le_rfl hlt]

/-- What a step adds is the idle slots from its moment on, times the time to the next one. -/
theorem addPiece_eq (hpiece : piece ∈ Steps.pairs (moments rows)) (idleSeconds : ℚ) :
  ((addPiece rows slots idleSeconds piece : ℚ) : ℝ)
    = idleSeconds + idleSlots rows slots piece.1 * ((piece.2 : ℝ) - piece.1)
  := by
  have hclosed : (piece.1 : ℝ) < piece.2 :=
    Rat.cast_lt.mpr (Steps.lt_of_mem_pairs (sorted_moments rows) hpiece)
  rw [idleSlots, busy_eq hpiece le_rfl hclosed, waiting_eq hpiece le_rfl hclosed, addPiece]
  generalize busyFrom rows piece.1 = busy
  generalize waitingFrom rows piece.1 = waiting
  split
  · have hwanted : min (max (slots - busy) 0) (waiting : ℤ) = min (slots - busy) waiting := by omega
    rw [hwanted]
    push_cast
    rfl
  · have hnone : min (max (slots - busy) 0) (waiting : ℤ) = 0 := by omega
    rw [hnone, Int.cast_zero, zero_mul, add_zero]

/-- What the sweep adds up. -/
theorem foldl_addPiece {pieces : List (ℚ × ℚ)}
    (h : ∀ piece ∈ pieces, piece ∈ Steps.pairs (moments rows)) (idleSeconds : ℚ) :
  ((pieces.foldl (addPiece rows slots) idleSeconds : ℚ) : ℝ)
    = idleSeconds + (pieces.map (fun piece =>
      idleSlots rows slots piece.1 * ((piece.2 : ℝ) - piece.1))).sum
  := by
  induction pieces generalizing idleSeconds with
  | nil => exact (add_zero _).symm
  | cons piece pieces ih =>
      rw [List.forall_mem_cons] at h
      rw [List.foldl_cons, ih h.2, addPiece_eq h.1, List.map_cons, List.sum_cons, add_assoc]

/-- The first moment is the earliest start. -/
theorem moments_of_isLeast (hrows : ∀ row ∈ rows, row.1 ≤ row.2)
    (h : IsLeast {t | ∃ row ∈ rows, row.1 = t} t₀) :
  ∃ ms, moments rows = t₀ :: ms
  := by
  obtain ⟨⟨row₀, hrow₀, hstart⟩, hleast⟩ := h
  have hmem : t₀ ∈ moments rows := mem_moments.mpr ⟨row₀, hrow₀, .inl hstart.symm⟩
  have hle : ∀ m ∈ moments rows, t₀ ≤ m := by
    intro m hm
    obtain ⟨row, hrow, rfl | rfl⟩ := mem_moments.mp hm
    · exact hleast ⟨row, hrow, rfl⟩
    · exact (hleast ⟨row, hrow, rfl⟩).trans (hrows row hrow)
  have hsorted := sorted_moments rows
  cases hmoments : moments rows with
  | nil =>
      rw [hmoments] at hmem
      cases hmem
  | cons m ms =>
      use ms
      rw [hmoments] at hmem hle hsorted
      rcases List.mem_cons.mp hmem with rfl | hmem
      · rfl
      · have hlt := (List.pairwise_cons.mp hsorted).1 t₀ hmem
        exact absurd (hle m List.mem_cons_self) (not_le.mpr hlt)

/-- Nothing waits from the last moment on. -/
theorem idleSlots_of_last (slots : ℤ) (hlast : ∀ m ∈ moments rows, (m : ℝ) ≤ t) :
  idleSlots rows slots t = 0
  := by
  have hnone : waiting rows t = 0 := by
    apply List.countP_eq_zero.mpr
    intro row hrow
    rw [decide_eq_true_iff, not_lt]
    exact hlast row.1 (mem_moments.mpr ⟨row, hrow, .inl rfl⟩)
  have hzero : min (max (slots - busy rows t) 0) ((0 : ℕ) : ℤ) = 0 := by omega
  rw [idleSlots, hnone, hzero, Int.cast_zero]

/-- The sweep computes the integral. -/
theorem integral_idleSlots (slots : ℤ) (hrows : ∀ row ∈ rows, row.1 ≤ row.2)
    (h : Earliest rows t₀) :
  IntegrableOn (idleSlots rows slots) (Set.Ici (t₀ : ℝ))
    ∧ ∫ t in Set.Ici (t₀ : ℝ), idleSlots rows slots t = buildIdleSlotSeconds rows slots
  := by
  rcases h with rfl | hleast
  · have hzero : idleSlots [] slots = fun _ => 0 := by
      funext t
      apply idleSlots_of_last
      intro m hm
      obtain ⟨row, hrow, -⟩ := mem_moments.mp hm
      cases hrow
    rw [hzero, buildIdleSlotSeconds, if_pos rfl, integral_zero, Rat.cast_zero]
    exact ⟨integrableOn_zero, rfl⟩
  · have hne : rows ≠ [] := by
      rintro rfl
      obtain ⟨⟨row, hrow, -⟩, -⟩ := hleast
      cases hrow
    obtain ⟨ms, hms⟩ := moments_of_isLeast hrows hleast
    have hsorted : ((t₀ : ℝ) :: ms.map Rat.cast).Pairwise (· < ·) := by
      have hcast := (sorted_moments rows).map Rat.cast
        (fun _ _ hlt => (Rat.cast_lt (K := ℝ)).mpr hlt)
      rwa [hms] at hcast
    have hpairs : Steps.pairs ((t₀ : ℝ) :: ms.map Rat.cast)
        = (Steps.pairs (moments rows)).map (Prod.map Rat.cast Rat.cast) := by
      rw [hms, ← Steps.pairs_map]
      rfl
    have hconst : ∀ p ∈ Steps.pairs ((t₀ : ℝ) :: ms.map Rat.cast), ∀ t, p.1 ≤ t → t < p.2 →
        idleSlots rows slots t = idleSlots rows slots p.1 := by
      intro p hp t hopened hclosed
      rw [hpairs] at hp
      obtain ⟨piece, hpiece, rfl⟩ := List.mem_map.mp hp
      exact idleSlots_eq slots hpiece hopened hclosed
    have hlast : ∀ t, ((t₀ : ℝ) :: ms.map Rat.cast).getLast (List.cons_ne_nil _ _) ≤ t →
        idleSlots rows slots t = 0 := by
      intro t ht
      apply idleSlots_of_last
      intro m hm
      rw [hms] at hm
      have hcast : (m : ℝ) ∈ (t₀ :: ms).map Rat.cast := List.mem_map_of_mem hm
      exact (Steps.le_getLast hsorted hcast).trans ht
    obtain ⟨hpieces, hsum⟩ := Steps.integral_steps (ms.map Rat.cast) hsorted hconst
    obtain ⟨hintegrable, hintegral⟩ :=
      Steps.integral_Ici (Steps.le_getLast hsorted List.mem_cons_self) hlast hpieces
    use hintegrable
    rw [hintegral, hsum, hpairs, buildIdleSlotSeconds, if_neg hne,
      foldl_addPiece (fun _ hpiece => hpiece), Rat.cast_zero, zero_add, List.map_map]
    rfl

/-- The idle slots do not depend on the order of the runs. -/
theorem idleSlots_perm (slots : ℤ) (h : rows'.Perm rows) :
  idleSlots rows' slots = idleSlots rows slots
  := by
  funext t
  rw [idleSlots, idleSlots, busy, busy, waiting, waiting, h.countP_eq, h.countP_eq]

/-- There is an earliest start. -/
theorem exists_earliest (rows : List Interval) :
  ∃ t₀, Earliest rows t₀
  := by
  by_cases hrows : rows = []
  · exact ⟨0, .inl hrows⟩
  · have hne : rows.map Prod.fst ≠ [] := fun h => hrows (List.map_eq_nil_iff.mp h)
    refine ⟨(rows.map Prod.fst).min hne, .inr ⟨?_, ?_⟩⟩
    · exact List.mem_map.mp (List.min_mem hne)
    · rintro t ⟨row, hrow, rfl⟩
      exact List.min_le_of_mem (List.mem_map_of_mem hrow)

/-- The idle slot-seconds of any runs are the integral of the idle slots there is work for, from
the earliest start on, in whatever order the runs are given. -/
theorem idleSlotSeconds_eq_integral (slots : ℤ) (hrows : ∀ row ∈ rows, row.1 ≤ row.2) :
  (∀ t₀, Earliest rows t₀ → IntegrableOn (idleSlots rows slots) (Set.Ici (t₀ : ℝ))
      ∧ (buildIdleSlotSeconds rows slots : ℝ)
        = ∫ t in Set.Ici (t₀ : ℝ), idleSlots rows slots t)
    ∧ ∀ rows', rows'.Perm rows → buildIdleSlotSeconds rows' slots = buildIdleSlotSeconds rows slots
  := by
  constructor
  · intro t₀ h
    obtain ⟨hintegrable, hintegral⟩ := integral_idleSlots slots hrows h
    exact ⟨hintegrable, hintegral.symm⟩
  · intro rows' hperm
    obtain ⟨t₀, h⟩ := exists_earliest rows
    have h' : Earliest rows' t₀ := by
      rcases h with rfl | h
      · exact .inl hperm.eq_nil
      · right
        simpa only [hperm.mem_iff] using h
    have hrows' : ∀ row ∈ rows', row.1 ≤ row.2 := fun row hrow => hrows row (hperm.mem_iff.mp hrow)
    apply Rat.cast_injective (α := ℝ)
    rw [← (integral_idleSlots slots hrows h).2, ← (integral_idleSlots slots hrows' h').2,
      idleSlots_perm slots hperm]

end

/-- Two runs of two seconds, the second one claimed a second late. -/
def lateClaim : List Interval := [(0, 2), (1, 3)]

theorem idleSlotSeconds_eq_integral_lateClaim :
  (buildIdleSlotSeconds lateClaim 2 : ℝ) = ∫ t in Set.Ici ((0 : ℚ) : ℝ), idleSlots lateClaim 2 t
  := by
  have hrows : ∀ row ∈ lateClaim, row.1 ≤ row.2 := by decide
  have hleast : IsLeast {t | ∃ row ∈ lateClaim, row.1 = t} 0 := by
    constructor
    · exact ⟨(0, 2), List.mem_cons_self, rfl⟩
    · rintro t ⟨row, hrow, rfl⟩
      have hstarts : ∀ row ∈ lateClaim, 0 ≤ row.1 := by decide
      exact hstarts row hrow
  exact ((idleSlotSeconds_eq_integral 2 hrows).1 0 (.inr hleast)).2

end DjangoAbsurd.Benchmarks
