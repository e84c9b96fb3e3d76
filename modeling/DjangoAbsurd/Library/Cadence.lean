import Mathlib.Order.Bounds.Basic
import Mathlib.Order.Interval.Set.Basic
import Mathlib.Data.List.Chain
import Mathlib.Tactic.Common

/-!
# Following a set of slots

A follower of a set of slots holds the slot it is due at. At a reading of its clock that is
not before that slot it fires the slot and is due at the first slot after the reading.

Whatever the readings are, the slots fired are slots, strictly increase and are not fired
early. When the readings do not go backwards and no two slots lie between two of them, no
slot is left out.
-/

universe u

namespace Cadence

variable {α : Type u} [LinearOrder α]

/-- The first slot strictly after `t`. -/
def FirstAfter (slots : Set α) (t s : α) : Prop := IsLeast {x | x ∈ slots ∧ t < x} s

/-- A slot with the reading it is fired at. -/
structure Fired (α : Type u) where
  slot : α
  reading : α

/-- The slots fired at a list of readings by a follower due at `due`. -/
def follow (next : α → α) : α → List α → List (Fired α)
  | _, [] => []
  | due, t :: ts =>
      if due ≤ t then ⟨due, t⟩ :: follow next (next t) ts else follow next due ts

/-- No reading is before the one it follows, and at most one slot lies between them. -/
def Dense (slots : Set α) (a b : α) : Prop := a ≤ b ∧ (slots ∩ Set.Ioc a b).Subsingleton

variable {slots : Set α} {next : α → α}

theorem FirstAfter.mem {t s : α} (h : FirstAfter slots t s) : s ∈ slots := h.1.1

theorem FirstAfter.lt {t s : α} (h : FirstAfter slots t s) : t < s := h.1.2

theorem FirstAfter.le {t s x : α} (h : FirstAfter slots t s) (hx : x ∈ slots) (htx : t < x) :
  s ≤ x
  := h.2 ⟨hx, htx⟩

/-- The first slot after a reading is the first one after every reading before the slot. -/
theorem FirstAfter.later {t t' s : α} (h : FirstAfter slots t s) (hle : t ≤ t') (hlt : t' < s) :
  FirstAfter slots t' s
  := by
  constructor
  · exact ⟨h.mem, hlt⟩
  · intro x hx
    apply h.le hx.1 (hle.trans_lt hx.2)

section Follow

variable (hnext : ∀ t, FirstAfter slots t (next t))
include hnext

/-- What is fired is a slot. -/
theorem follow_mem {due : α} (hdue : due ∈ slots) (readings : List α) :
  ∀ f ∈ follow next due readings, f.slot ∈ slots
  := by
  induction readings generalizing due with
  | nil => exact fun f hf => absurd hf List.not_mem_nil
  | cons t ts ih =>
      rw [follow]
      split
      · rw [List.forall_mem_cons]
        exact ⟨hdue, ih (hnext t).mem⟩
      · apply ih hdue

/-- Nothing is fired before the slot a follower is due at. -/
theorem le_of_mem_follow {due : α} (readings : List α) :
  ∀ f ∈ follow next due readings, due ≤ f.slot
  := by
  induction readings generalizing due with
  | nil => exact fun f hf => absurd hf List.not_mem_nil
  | cons t ts ih =>
      rw [follow]
      split
      · rename_i hle
        rw [List.forall_mem_cons]
        use le_refl due
        intro f hf
        apply hle.trans ((hnext t).lt.le.trans (ih f hf))
      · apply ih

/-- The slots fired strictly increase. -/
theorem follow_pairwise (due : α) (readings : List α) :
  ((follow next due readings).map Fired.slot).Pairwise (· < ·)
  := by
  induction readings generalizing due with
  | nil => exact List.Pairwise.nil
  | cons t ts ih =>
      rw [follow]
      split
      · rename_i hle
        rw [List.map_cons, List.pairwise_cons]
        constructor
        · intro slot hslot
          obtain ⟨f, hf, rfl⟩ := List.mem_map.mp hslot
          apply (hle.trans_lt (hnext t).lt).trans_le
          apply le_of_mem_follow hnext ts f hf
        · apply ih
      · apply ih

/-- Every slot after the start that the readings reach is fired. -/
theorem mem_follow {start due : α} {readings : List α} (hdue : FirstAfter slots start due)
    (hdense : (start :: readings).IsChain (Dense slots)) {slot : α} (hslot : slot ∈ slots)
    (hstart : start < slot) (hlast : slot ≤ (start :: readings).getLast (List.cons_ne_nil _ _)) :
  slot ∈ (follow next due readings).map Fired.slot
  := by
  induction readings generalizing start due with
  | nil => exact absurd hstart (not_lt.mpr hlast)
  | cons t ts ih =>
      obtain ⟨⟨hle, hone⟩, hdense⟩ := List.isChain_cons_cons.mp hdense
      rw [List.getLast_cons (List.cons_ne_nil _ _)] at hlast
      rw [follow]
      split
      · rename_i hreached
        rw [List.map_cons, List.mem_cons]
        rcases le_or_gt slot t with hslott | hslott
        · left
          apply hone ⟨hslot, hstart, hslott⟩ ⟨hdue.mem, hdue.lt, hreached⟩
        · right
          apply ih (hnext t) hdense hslott hlast
      · rename_i hearly
        have hfirst : FirstAfter slots t due := hdue.later hle (not_le.mp hearly)
        apply ih hfirst hdense _ hlast
        apply (not_le.mp hearly).trans_le (hdue.le hslot hstart)

end Follow

/-- Nothing is fired early. -/
theorem slot_le_reading (due : α) (readings : List α) :
  ∀ f ∈ follow next due readings, f.slot ≤ f.reading
  := by
  induction readings generalizing due with
  | nil => exact fun f hf => absurd hf List.not_mem_nil
  | cons t ts ih =>
      rw [follow]
      split
      · rename_i hle
        rw [List.forall_mem_cons]
        exact ⟨hle, ih (next t)⟩
      · apply ih

end Cadence
