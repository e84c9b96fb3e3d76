import Mathlib.Data.List.Nodup
import Mathlib.Data.List.Lemmas

/-!
# Keyed tables

A table is a list of rows no two of which have the same key. `Table.get?` looks a row up
by its key, `Table.put` replaces the row of that key or appends a new one, `Table.delete`
drops the rows satisfying a predicate, and `Table.update` applies an `Edit`, which leaves
the keys as they are, to the rows satisfying a predicate.
-/

universe u v

namespace Keyed

/-- A list of rows no two of which have the same key. -/
structure Table {α : Type u} {κ : Type v} (key : α → κ) where
  rows : List α
  nodup : (rows.map key).Nodup

/-- A change of a row that leaves its key as it is. -/
structure Edit {α : Type u} {κ : Type v} (key : α → κ) where
  apply : α → α
  key_apply : ∀ r, key (apply r) = key r

namespace Table

variable {α : Type u} {κ : Type v} {key : α → κ}

@[ext]
theorem ext {t t' : Table key} (h : t.rows = t'.rows) :
  t = t'
  := by
  cases t
  cases t'
  cases h
  rfl

/-- The table with no rows. -/
def empty (key : α → κ) : Table key := ⟨[], List.nodup_nil⟩

@[simp]
theorem rows_empty : (empty key).rows = [] := rfl

/-- A row is determined by its key. -/
theorem eq_of_key_eq {t : Table key} {r r' : α} (h : r ∈ t.rows) (h' : r' ∈ t.rows)
    (hk : key r = key r') :
  r = r'
  := List.inj_on_of_nodup_map t.nodup h h' hk

/-! ### Deleting rows -/

/-- The rows that do not satisfy `p`. -/
def delete (t : Table key) (p : α → Bool) : Table key where
  rows := t.rows.filter (fun r => !p r)
  nodup := t.nodup.sublist (List.Sublist.map key List.filter_sublist)

@[simp]
theorem mem_delete {t : Table key} {p : α → Bool} {r : α} :
  r ∈ (t.delete p).rows ↔ r ∈ t.rows ∧ p r = false
  := by
  simp [delete]

theorem delete_eq_self {t : Table key} {p : α → Bool} (h : ∀ r ∈ t.rows, p r = false) :
  t.delete p = t
  := by
  apply Table.ext
  apply List.filter_eq_self.mpr
  intro r hr
  simp [h r hr]

/-! ### Rewriting rows -/

/-- The rows satisfying `p` are edited. -/
def update (t : Table key) (p : α → Bool) (e : Edit key) : Table key where
  rows := t.rows.map (fun r => if p r then e.apply r else r)
  nodup := by
    rw [List.map_map]
    convert t.nodup using 2
    funext r
    by_cases hp : p r <;> simp [hp, e.key_apply]

@[simp]
theorem mem_update {t : Table key} {p : α → Bool} {e : Edit key} {r : α} :
  r ∈ (t.update p e).rows ↔ ∃ r₀ ∈ t.rows, (if p r₀ then e.apply r₀ else r₀) = r
  := by
  simp [update]

/-- Editing no row changes nothing. -/
theorem update_false (t : Table key) (e : Edit key) :
  t.update (fun _ => false) e = t
  := by
  apply Table.ext
  simp [update]

/-- An edit that changes no row changes nothing. -/
theorem update_id (t : Table key) (p : α → Bool) {e : Edit key} (h : ∀ r, e.apply r = r) :
  t.update p e = t
  := by
  apply Table.ext
  simp [update, h]

variable [DecidableEq κ]

/-! ### Looking a row up -/

/-- The row with key `k`, if there is one. -/
def get? (t : Table key) (k : κ) : Option α :=
  t.rows.find? (fun r => key r = k)

theorem get?_eq_some {t : Table key} {k : κ} {r : α} :
  t.get? k = some r ↔ r ∈ t.rows ∧ key r = k
  := by
  constructor
  · intro h
    exact ⟨List.mem_of_find?_eq_some h, by simpa using List.find?_some h⟩
  · rintro ⟨hr, rfl⟩
    cases h : t.get? (key r) with
    | none =>
        have := List.find?_eq_none.mp h r hr
        simp at this
    | some r' =>
        have hk : key r' = key r := by simpa using List.find?_some h
        rw [eq_of_key_eq (List.mem_of_find?_eq_some h) hr hk]

theorem get?_eq_none {t : Table key} {k : κ} :
  t.get? k = none ↔ ∀ r ∈ t.rows, key r ≠ k
  := by
  simp [get?]

theorem get?_of_mem {t : Table key} {r : α} (h : r ∈ t.rows) :
  t.get? (key r) = some r
  := get?_eq_some.mpr ⟨h, rfl⟩

theorem mem_of_get? {t : Table key} {k : κ} {r : α} (h : t.get? k = some r) :
  r ∈ t.rows
  := (get?_eq_some.mp h).1

theorem key_of_get? {t : Table key} {k : κ} {r : α} (h : t.get? k = some r) :
  key r = k
  := (get?_eq_some.mp h).2

/-- Looking a key up in a table with rows deleted. -/
theorem get?_delete (t : Table key) (p : α → Bool) (k : κ) :
  (t.delete p).get? k = (t.get? k).filter (fun r => !p r)
  := by
  cases h : t.get? k with
  | none =>
      apply get?_eq_none.mpr
      intro r hr
      exact get?_eq_none.mp h r (mem_delete.mp hr).1
  | some r =>
      obtain ⟨hr, hk⟩ := get?_eq_some.mp h
      cases hp : p r with
      | false =>
          rw [Option.filter_some, hp]
          exact get?_eq_some.mpr ⟨mem_delete.mpr ⟨hr, hp⟩, hk⟩
      | true =>
          rw [Option.filter_some, hp]
          apply get?_eq_none.mpr
          rintro r' hr' rfl
          obtain ⟨hm, hp'⟩ := mem_delete.mp hr'
          rw [eq_of_key_eq hr hm hk, hp'] at hp
          cases hp

/-- Looking a key up in a table with rows rewritten. -/
theorem get?_update (t : Table key) (p : α → Bool) (e : Edit key) (k : κ) :
  (t.update p e).get? k = (t.get? k).map (fun r => if p r then e.apply r else r)
  := by
  have hkey : ∀ r, key (if p r then e.apply r else r) = key r := by
    intro r
    by_cases hp : p r <;> simp [hp, e.key_apply]
  cases h : t.get? k with
  | none =>
      apply get?_eq_none.mpr
      intro r hr
      obtain ⟨r₀, hr₀, rfl⟩ := mem_update.mp hr
      rw [hkey]
      exact get?_eq_none.mp h r₀ hr₀
  | some r =>
      obtain ⟨hr, hk⟩ := get?_eq_some.mp h
      rw [Option.map_some]
      exact get?_eq_some.mpr ⟨mem_update.mpr ⟨r, hr, rfl⟩, by rw [hkey, hk]⟩

/-! ### Putting a row in -/

/-- The table in which `r` is the row of its key. -/
def put (t : Table key) (r : α) : Table key where
  rows :=
    if key r ∈ t.rows.map key then t.rows.map (fun x => if key x = key r then r else x)
    else t.rows ++ [r]
  nodup := by
    split
    · rw [List.map_map]
      convert t.nodup using 2
      funext x
      by_cases hx : key x = key r <;> simp [hx]
    · rename_i h
      rw [List.map_append, List.nodup_append]
      refine ⟨t.nodup, List.nodup_singleton _, ?_⟩
      rintro _ ha _ hb rfl
      rw [List.map_singleton, List.mem_singleton] at hb
      exact h (hb ▸ ha)

theorem mem_put {t : Table key} {r x : α} :
  x ∈ (t.put r).rows ↔ x = r ∨ (x ∈ t.rows ∧ key x ≠ key r)
  := by
  unfold put
  dsimp only
  split
  · rename_i h
    obtain ⟨y, hy, hk⟩ := List.mem_map.mp h
    simp only [List.mem_map]
    constructor
    · rintro ⟨z, hz, rfl⟩
      by_cases hzr : key z = key r
      · simp [hzr]
      · simp [hzr, hz]
    · rintro (rfl | ⟨hx, hne⟩)
      · exact ⟨y, hy, by simp [hk]⟩
      · exact ⟨x, hx, by simp [hne]⟩
  · rename_i h
    simp only [List.mem_append, List.mem_singleton]
    constructor
    · rintro (hx | rfl)
      · right
        exact ⟨hx, fun hk => h (hk ▸ List.mem_map_of_mem hx)⟩
      · left
        rfl
    · rintro (rfl | ⟨hx, -⟩)
      · right
        rfl
      · left
        exact hx

/-- Putting in a row the table already has changes nothing. -/
theorem put_eq_self {t : Table key} {r : α} (h : r ∈ t.rows) :
  t.put r = t
  := by
  apply Table.ext
  have hk : key r ∈ t.rows.map key := List.mem_map_of_mem h
  simp only [put, if_pos hk]
  conv_rhs => rw [← List.map_id t.rows]
  apply List.map_congr_left
  intro x hx
  by_cases hxr : key x = key r
  · simp [eq_of_key_eq hx h hxr]
  · simp [hxr]

@[simp]
theorem get?_put_self (t : Table key) (r : α) :
  (t.put r).get? (key r) = some r
  := get?_of_mem (mem_put.mpr (.inl rfl))

theorem get?_put_of_ne (t : Table key) {r : α} {k : κ} (h : k ≠ key r) :
  (t.put r).get? k = t.get? k
  := by
  cases hg : t.get? k with
  | none =>
      apply get?_eq_none.mpr
      intro x hx
      rcases mem_put.mp hx with rfl | ⟨hx, -⟩
      · exact h.symm
      · exact get?_eq_none.mp hg x hx
  | some x =>
      obtain ⟨hx, rfl⟩ := get?_eq_some.mp hg
      exact get?_eq_some.mpr ⟨mem_put.mpr (.inr ⟨hx, h⟩), rfl⟩

/-! ### Putting rows in -/

/-- Rows with distinct keys are put in one after another. -/
theorem mem_foldl_put {x : α} :
  ∀ {rs : List α} {t : Table key}, (rs.map key).Nodup →
    (x ∈ (rs.foldl put t).rows ↔ x ∈ rs ∨ (x ∈ t.rows ∧ key x ∉ rs.map key))
  | [], t, _ => by simp
  | r :: rs, t, h => by
      rw [List.map_cons, List.nodup_cons] at h
      rw [List.foldl_cons, mem_foldl_put h.2, mem_put]
      constructor
      · rintro (hx | ⟨rfl | ⟨hx, hne⟩, hrest⟩)
        · left
          exact List.mem_cons_of_mem _ hx
        · left
          exact List.mem_cons_self
        · right
          simp only [List.map_cons, List.mem_cons, not_or]
          exact ⟨hx, hne, hrest⟩
      · rintro (hx | ⟨hx, hrest⟩)
        · rcases List.mem_cons.mp hx with rfl | hx
          · right
            exact ⟨.inl rfl, h.1⟩
          · left
            exact hx
        · simp only [List.map_cons, List.mem_cons, not_or] at hrest
          right
          exact ⟨.inr ⟨hx, hrest.1⟩, hrest.2⟩

/-- Putting in rows the table already has changes nothing. -/
theorem foldl_put_eq_self :
  ∀ {rs : List α} {t : Table key}, (∀ r ∈ rs, r ∈ t.rows) → rs.foldl put t = t
  | [], _, _ => rfl
  | r :: rs, t, h => by
      rw [List.foldl_cons, put_eq_self (h r List.mem_cons_self)]
      apply foldl_put_eq_self
      intro r' hr'
      exact h r' (List.mem_cons_of_mem _ hr')

end Table

end Keyed
