import DjangoAbsurd.Library.Spans

/-!
# Searching a text for a whole word

Some elements of an alphabet make words. A boundary is a place with such an element on one
side only; a word stands in a text where the text splits around it with a boundary at either
end. `searchWord` looks for it from left to right, as the pattern `\bword\b` does.
-/

universe u

namespace WordSearch

variable {α : Type u} (isWord : α → Bool)

/-- The place between two elements, if there are any, is a boundary. -/
def boundary (before after : Option α) : Bool := before.any isWord != after.any isWord

/-- The word stands in the text between boundaries. -/
def StandsIn (word text : List α) : Prop :=
  ∃ front back, text = front ++ word ++ back
    ∧ boundary isWord front.getLast? word.head? = true
    ∧ boundary isWord word.getLast? back.head? = true

variable [DecidableEq α]

/-- The word begins the text that follows `previous`, between boundaries. -/
def matchesAt (word : List α) (previous : Option α) (text : List α) : Bool :=
  boundary isWord previous text.head? && word.isPrefixOf text
    && boundary isWord (word.getLast?.or previous) (text.drop word.length).head?

/-- The word stands somewhere in the text that follows `previous`. -/
def searchWord (word : List α) : Option α → List α → Bool
  | previous, [] => matchesAt isWord word previous []
  | previous, c :: cs => matchesAt isWord word previous (c :: cs) || searchWord word (some c) cs

variable {isWord}

theorem matchesAt_iff {word : List α} (hword : word ≠ []) {previous : Option α}
    {text : List α} :
  matchesAt isWord word previous text = true
    ↔ ∃ back, text = word ++ back ∧ boundary isWord previous word.head? = true
      ∧ boundary isWord word.getLast? back.head? = true
  := by
  have hlast : word.getLast?.or previous = word.getLast? := by
    rw [List.getLast?_eq_some_getLast hword, Option.some_or]
  rw [matchesAt, hlast, Bool.and_eq_true, Bool.and_eq_true, List.isPrefixOf_iff_prefix]
  constructor
  · rintro ⟨⟨hstart, back, rfl⟩, hend⟩
    rw [List.head?_append_of_ne_nil _ hword] at hstart
    rw [List.drop_left] at hend
    exact ⟨back, rfl, hstart, hend⟩
  · rintro ⟨back, rfl, hstart, hend⟩
    rw [List.head?_append_of_ne_nil _ hword, List.drop_left]
    exact ⟨⟨hstart, List.prefix_append _ _⟩, hend⟩

theorem searchWord_after_iff {word : List α} (hword : word ≠ []) {previous : Option α}
    {text : List α} :
  searchWord isWord word previous text = true
    ↔ ∃ front back, text = front ++ word ++ back
      ∧ boundary isWord (front.getLast?.or previous) word.head? = true
      ∧ boundary isWord word.getLast? back.head? = true
  := by
  induction text generalizing previous with
  | nil =>
      rw [searchWord, matchesAt_iff hword]
      constructor
      · rintro ⟨back, htext, -⟩
        exact absurd (List.append_eq_nil_iff.mp htext.symm).1 hword
      · rintro ⟨front, back, htext, -⟩
        rw [eq_comm, List.append_eq_nil_iff, List.append_eq_nil_iff] at htext
        exact absurd htext.1.2 hword
  | cons c cs ih =>
      rw [searchWord, Bool.or_eq_true, matchesAt_iff hword, ih]
      constructor
      · rintro (⟨back, htext, hstart, hend⟩ | ⟨front, back, htext, hstart, hend⟩)
        · exact ⟨[], back, htext, by simpa using hstart, hend⟩
        · refine ⟨c :: front, back, by rw [htext]; rfl, ?_, hend⟩
          rwa [List.getLast?_cons, Option.some_or, ← Option.or_some]
      · rintro ⟨front, back, htext, hstart, hend⟩
        cases front with
        | nil => exact .inl ⟨back, htext, by simpa using hstart, hend⟩
        | cons c' front =>
            obtain ⟨rfl, htail⟩ := List.cons.inj htext
            refine .inr ⟨front, back, htail, ?_, hend⟩
            rwa [List.getLast?_cons, Option.some_or, ← Option.or_some] at hstart

/-- The search finds the word where it stands in the text. -/
theorem searchWord_iff {word : List α} (hword : word ≠ []) {text : List α} :
  searchWord isWord word none text = true ↔ StandsIn isWord word text
  := by
  rw [searchWord_after_iff hword, StandsIn]
  simp only [Option.or_none]

omit [DecidableEq α]

/-- Before an element that makes words a boundary is the absence of another. -/
theorem boundary_some_right {before : Option α} {a : α} (h : isWord a = true) :
  boundary isWord before (some a) = true ↔ before.any isWord = false
  := by
  simp [boundary, h]

/-! ### A word inside a longer text -/

/-- Around a mark that makes no words a boundary is what it is at an end of the text. -/
theorem boundary_append_mark {before : Option α} {text after : List α} {mark : α}
    (h : isWord mark = false) :
  boundary isWord before (text ++ mark :: after).head? = boundary isWord before text.head?
  := by
  cases text <;> simp [boundary, h]

theorem any_getLast?_mark_append {before text : List α} {mark : α} (h : isWord mark = false) :
  (before ++ mark :: text).getLast?.any isWord = text.getLast?.any isWord
  := by
  rw [List.getLast?_append, List.getLast?_cons]
  cases text.getLast? <;> simp [h]

/-- A block `x :: m` after a mark and text without `m` begins after the mark. -/
theorem exists_front_after_mark {before after front tail : List α} {mark x m : α}
    (hbefore : m ∉ before) (hmark : mark ≠ m) (hx : mark ≠ x)
    (h : before ++ mark :: after = front ++ x :: m :: tail) :
  ∃ front', front = before ++ mark :: front' ∧ after = front' ++ x :: m :: tail
  := by
  induction before generalizing front with
  | nil =>
      cases front with
      | nil => exact absurd (List.cons.inj h).1 hx
      | cons c front =>
          obtain ⟨rfl, rfl⟩ := List.cons.inj h
          exact ⟨front, rfl, rfl⟩
  | cons b before ih =>
      rw [List.mem_cons, not_or] at hbefore
      cases front with
      | nil =>
          obtain ⟨-, htail⟩ := List.cons.inj h
          cases before with
          | nil => exact absurd (List.cons.inj htail).1 hmark
          | cons b' before =>
              exact absurd (List.mem_cons.mpr (.inl (List.cons.inj htail).1.symm)) hbefore.2
      | cons c front =>
          obtain ⟨rfl, htail⟩ := List.cons.inj h
          obtain ⟨front', rfl, hafter⟩ := ih hbefore.2 htail
          exact ⟨front', rfl, hafter⟩

/-- A block `x :: m` with the same tail `tail` at two places of a text, the first before any
other `m` and followed by none but those of `tail`: the places are the same. -/
theorem block_unique [BEq α] [LawfulBEq α] {as front tail after back : List α} {m x x' : α}
    (has : m ∉ as) (hx : x ≠ m) (hx' : x' ≠ m) (hafter : m ∉ after)
    (h : as ++ x :: m :: (tail ++ after) = front ++ x' :: m :: (tail ++ back)) :
  after = back
  := by
  have hcount := congrArg (List.count m) h
  simp only [List.count_append, List.count_cons, List.count_eq_zero.mpr has,
    List.count_eq_zero.mpr hafter, beq_iff_eq, hx, hx', if_false, BEq.rfl, if_true] at hcount
  have hfront : m ∉ front := List.count_eq_zero.mp (by omega)
  have hleft : m ∉ as ++ [x] := by
    simp [has, hx.symm]
  have hright : m ∉ front ++ [x'] := by
    simp [hfront, hx'.symm]
  have hsplit : (as ++ [x]) ++ m :: (tail ++ after) = (front ++ [x']) ++ m :: (tail ++ back) := by
    simpa using h
  exact List.append_cancel_left (List.append_cons_inj_of_first hleft hright hsplit).2

end WordSearch
