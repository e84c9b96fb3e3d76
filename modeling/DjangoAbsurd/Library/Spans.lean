import Mathlib.Data.List.DropRight
import Mathlib.Tactic.Common

/-!
# Spans of a list

A list begins with a span of elements satisfying `p` and goes on with one that does not. The
span and the rest are determined by that, from the left and from the right; trimming drops
both spans.
-/

universe u

namespace List

variable {α : Type u} {p : α → Bool}

/-- A list that is empty or begins with an element not satisfying `p`. -/
def StartsOutside (p : α → Bool) (as : List α) : Prop := ∀ a ∈ as.head?, p a = false

/-- A list that is empty or ends with an element not satisfying `p`. -/
def EndsOutside (p : α → Bool) (as : List α) : Prop := ∀ a ∈ as.getLast?, p a = false

theorem startsOutside_cons {a : α} {as : List α} (h : p a = false) :
  StartsOutside p (a :: as)
  := by
  intro b hb
  rw [← Option.mem_some.mp hb]
  exact h

theorem startsOutside_append {as bs : List α} (hne : as ≠ []) (h : StartsOutside p as) :
  StartsOutside p (as ++ bs)
  := by
  obtain ⟨a, as, rfl⟩ := exists_cons_of_ne_nil hne
  exact startsOutside_cons (h a rfl)

theorem endsOutside_append {as bs : List α} (hne : bs ≠ []) (h : EndsOutside p bs) :
  EndsOutside p (as ++ bs)
  := by
  intro b hb
  rw [getLast?_append_of_ne_nil as hne] at hb
  exact h b hb

/-- The span in front of a list that begins with the elements of `as`, all satisfying `p`,
and goes on outside `p`. -/
theorem takeWhile_append_outside {as bs : List α} (has : ∀ a ∈ as, p a = true)
    (hbs : StartsOutside p bs) :
  (as ++ bs).takeWhile p = as
  := by
  rw [takeWhile_append_of_pos has]
  cases bs with
  | nil => simp
  | cons b bs => simp [hbs b rfl]

theorem dropWhile_append_outside {as bs : List α} (has : ∀ a ∈ as, p a = true)
    (hbs : StartsOutside p bs) :
  (as ++ bs).dropWhile p = bs
  := by
  rw [dropWhile_append_of_pos has]
  cases bs with
  | nil => rfl
  | cons b bs => simp [hbs b rfl]

theorem rdropWhile_append_outside {as bs : List α} (has : EndsOutside p as)
    (hbs : ∀ b ∈ bs, p b = true) :
  (as ++ bs).rdropWhile p = as
  := by
  rw [rdropWhile, reverse_append, dropWhile_append_outside, reverse_reverse]
  · intro b hb
    exact hbs b (mem_reverse.mp hb)
  · intro a ha
    rw [head?_reverse] at ha
    exact has a ha

theorem rtakeWhile_append_outside {as bs : List α} (has : EndsOutside p as)
    (hbs : ∀ b ∈ bs, p b = true) :
  (as ++ bs).rtakeWhile p = bs
  := by
  rw [rtakeWhile, reverse_append, takeWhile_append_outside, reverse_reverse]
  · intro b hb
    exact hbs b (mem_reverse.mp hb)
  · intro a ha
    rw [head?_reverse] at ha
    exact has a ha

/-- Where a list is split at the first `m` is determined. -/
theorem append_cons_inj_of_first {as bs cs ds : List α} {m : α} (has : m ∉ as) (hcs : m ∉ cs)
    (h : as ++ m :: bs = cs ++ m :: ds) :
  as = cs ∧ bs = ds
  := by
  induction as generalizing cs with
  | nil =>
      cases cs with
      | nil => exact ⟨rfl, (List.cons.inj h).2⟩
      | cons c cs => exact absurd (List.mem_cons.mpr (.inl (List.cons.inj h).1)) hcs
  | cons a as ih =>
      rw [List.mem_cons, not_or] at has
      cases cs with
      | nil => exact absurd (List.cons.inj h).1.symm has.1
      | cons c cs =>
          rw [List.mem_cons, not_or] at hcs
          obtain ⟨rfl, htail⟩ := List.cons.inj h
          obtain ⟨rfl, rfl⟩ := ih has.2 hcs.2 htail
          exact ⟨rfl, rfl⟩

/-- Where a list is split at the last `m` is determined. -/
theorem append_cons_inj_of_last {as bs cs ds : List α} {m : α} (hbs : m ∉ bs) (hds : m ∉ ds)
    (h : as ++ m :: bs = cs ++ m :: ds) :
  as = cs ∧ bs = ds
  := by
  have hreverse := congrArg reverse h
  simp only [reverse_append, reverse_cons, append_assoc, singleton_append] at hreverse
  obtain ⟨hright, hleft⟩ := append_cons_inj_of_first (by rwa [mem_reverse])
    (by rwa [mem_reverse]) hreverse
  exact ⟨reverse_injective hleft, reverse_injective hright⟩

/-! ### Trimming -/

/-- The list without the spans at its two ends. -/
def trim (p : α → Bool) (as : List α) : List α := (as.dropWhile p).rdropWhile p

/-- The span trimmed from the front. -/
def frontMargin (p : α → Bool) (as : List α) : List α := as.takeWhile p

/-- The span trimmed from the back. -/
def backMargin (p : α → Bool) (as : List α) : List α := (as.dropWhile p).rtakeWhile p

theorem frontMargin_append_trim_append_backMargin (as : List α) :
  as.frontMargin p ++ as.trim p ++ as.backMargin p = as
  := by
  rw [frontMargin, trim, backMargin, append_assoc, rdropWhile_append_rtakeWhile,
    takeWhile_append_dropWhile]

section

variable {front core back : List α} (hfront : ∀ a ∈ front, p a = true) (hcore : core ≠ [])
  (hstart : StartsOutside p core) (hend : EndsOutside p core)
  (hback : ∀ a ∈ back, p a = true)

include hfront hcore hstart

theorem dropWhile_margins :
  (front ++ core ++ back).dropWhile p = core ++ back
  := by
  rw [append_assoc]
  exact dropWhile_append_outside hfront (startsOutside_append hcore hstart)

theorem frontMargin_margins :
  (front ++ core ++ back).frontMargin p = front
  := by
  rw [append_assoc]
  exact takeWhile_append_outside hfront (startsOutside_append hcore hstart)

include hend hback

theorem trim_margins :
  (front ++ core ++ back).trim p = core
  := by
  rw [trim, dropWhile_margins hfront hcore hstart]
  exact rdropWhile_append_outside hend hback

theorem backMargin_margins :
  (front ++ core ++ back).backMargin p = back
  := by
  rw [backMargin, dropWhile_margins hfront hcore hstart]
  exact rtakeWhile_append_outside hend hback

end

end List
