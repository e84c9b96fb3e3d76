import Mathlib.Data.List.Sort
import Mathlib.Order.Defs.LinearOrder
import Mathlib.Tactic.Common

/-!
# Loops that stop at the first failure

A loop takes a step for each element of a list until one fails; what the steps before it did
stays. Where no step changes which later ones fail, the loop makes the steps of the elements
before the first failing one. Over a sorted list those are the elements with no failing one
at or below them.
-/

universe u v w

section

variable {α : Type u} {σ : Type v} {ε : Type w}

/-- The steps of a list up to the first that fails: the state it is left in, and the
failure. -/
def runUntilError (step : α → σ → Except ε σ) : List α → σ → σ × Except ε Unit
  | [], s => (s, .ok ())
  | a :: as, s =>
      match step a s with
      | .ok s' => runUntilError step as s'
      | .error e => (s, .error e)

/-- A loop whose steps do not change which of them fail. -/
theorem runUntilError_eq (step : α → σ → Except ε σ) (next : σ → α → σ)
    (failure : α → Option ε) (Inv : σ → Prop)
    (hok : ∀ s a, Inv s → failure a = none → step a s = .ok (next s a))
    (herror : ∀ s a e, Inv s → failure a = some e → step a s = .error e)
    (hinv : ∀ s a, Inv s → failure a = none → Inv (next s a)) (as : List α) {s : σ}
    (hs : Inv s) :
  runUntilError step as s
    = ((as.takeWhile (fun a => (failure a).isNone)).foldl next s,
      (as.findSome? failure).elim (.ok ()) .error)
  := by
  induction as generalizing s with
  | nil => rfl
  | cons a as ih =>
      cases hfailure : failure a with
      | none =>
          rw [runUntilError, hok s a hs hfailure]
          simp only [List.findSome?_cons, hfailure, List.takeWhile_cons, Option.isNone_none, if_true]
          exact ih (hinv s a hs hfailure)
      | some e =>
          rw [runUntilError, herror s a e hs hfailure]
          simp [hfailure]

end

namespace List

variable {α : Type u} [LinearOrder α] {as : List α}

/-- In a sorted list the elements before the first not satisfying `p` are those with no such
element at or below them. -/
theorem mem_takeWhile_of_sorted {p : α → Bool} {a : α} (has : as.Pairwise (· ≤ ·)) :
  a ∈ as.takeWhile p ↔ a ∈ as ∧ ∀ b ∈ as, b ≤ a → p b = true
  := by
  induction as with
  | nil => simp
  | cons c cs ih =>
      obtain ⟨hc, hcs⟩ := List.pairwise_cons.mp has
      rw [takeWhile_cons]
      by_cases hp : p c = true
      · rw [if_pos hp, mem_cons, ih hcs, mem_cons]
        constructor
        · rintro (rfl | ⟨ha, hall⟩)
          · refine ⟨.inl rfl, ?_⟩
            intro b hb hle
            rcases mem_cons.mp hb with rfl | hb
            · exact hp
            · rw [le_antisymm hle (hc b hb)]
              exact hp
          · refine ⟨.inr ha, ?_⟩
            intro b hb hle
            rcases mem_cons.mp hb with rfl | hb
            · exact hp
            · exact hall b hb hle
        · rintro ⟨rfl | ha, hall⟩
          · exact .inl rfl
          · exact .inr ⟨ha, fun b hb => hall b (mem_cons_of_mem c hb)⟩
      · rw [if_neg hp]
        constructor
        · intro h
          cases h
        · rintro ⟨ha, hall⟩
          have hle : c ≤ a := by
            rcases mem_cons.mp ha with rfl | ha
            · exact le_rfl
            · exact hc a ha
          exact absurd (hall c mem_cons_self hle) hp

/-- In a sorted list the first value found is that of an element with none below it. -/
theorem findSome?_of_sorted {β : Type v} {f : α → Option β} {b : β}
    (has : as.Pairwise (· ≤ ·)) :
  as.findSome? f = some b ↔ ∃ a ∈ as, f a = some b ∧ ∀ a' ∈ as, a' < a → f a' = none
  := by
  induction as with
  | nil => simp
  | cons c cs ih =>
      obtain ⟨hc, hcs⟩ := List.pairwise_cons.mp has
      rw [findSome?_cons]
      cases hf : f c with
      | some b' =>
          constructor
          · rintro ⟨rfl⟩
            refine ⟨c, mem_cons_self, hf, ?_⟩
            intro a' ha' hlt
            rcases mem_cons.mp ha' with rfl | ha'
            · exact absurd hlt (lt_irrefl _)
            · exact absurd (hc a' ha') (not_le.mpr hlt)
          · rintro ⟨a, ha, hfa, hbelow⟩
            rcases mem_cons.mp ha with rfl | ha
            · rw [← hf, hfa]
            · rcases (hc a ha).lt_or_eq with hlt | rfl
              · rw [hbelow c mem_cons_self hlt] at hf
                cases hf
              · rw [← hf, hfa]
      | none =>
          rw [ih hcs]
          constructor
          · rintro ⟨a, ha, hfa, hbelow⟩
            refine ⟨a, mem_cons_of_mem c ha, hfa, ?_⟩
            intro a' ha' hlt
            rcases mem_cons.mp ha' with rfl | ha'
            · exact hf
            · exact hbelow a' ha' hlt
          · rintro ⟨a, ha, hfa, hbelow⟩
            rcases mem_cons.mp ha with rfl | ha
            · rw [hf] at hfa
              cases hfa
            · exact ⟨a, ha, hfa, fun a' ha' => hbelow a' (mem_cons_of_mem c ha')⟩

end List
