import DjangoAbsurd.Queues.Plan
import DjangoAbsurd.Library.WordSearch

/-!
# Whose table is missing

`names_a_queue_table` decides from the message of a missing relation whether it is one of the
tables of a queue: it searches the message for the name of a table as a whole word. The message
of every language has the name of the relation between its quotation marks, and no underscore
of its own.

Names of word characters are attributed to the right queue (`namesAQueueTable_of_words`).
Others need not be, and `namesAQueueTable_right_iff` says which are.
-/

namespace DjangoAbsurd

open WordSearch

/-! ### The message and the search -/

/-- The characters `\w` matches. Outside ASCII they are those of the Unicode database. -/
structure WordChars where
  isWord : Char → Bool
  ascii : ∀ c : Char, c.toNat < 128 → isWord c = (c.isAlphanum || c = '_')

/-- `names_a_queue_table`, of `exc.diag.message_primary`. -/
def namesAQueueTable (chars : WordChars) (messagePrimary : Option String) (queue : String) :
    Bool :=
  let message := (messagePrimary.getD "").toList
  queueTablePrefixes.any (fun p =>
    searchWord chars.isWord (queueTable p queue).toList none message)

/-- The message of a missing relation, in some language: what stands before the name, the
characters around it, and what stands after. -/
structure RelationMessage (chars : WordChars) where
  before : List Char
  opening : Char
  closing : Char
  after : List Char
  opening_isWord : chars.isWord opening = false
  closing_isWord : chars.isWord closing = false
  before_underscore : '_' ∉ before
  after_underscore : '_' ∉ after

/-- The message for a relation. -/
def RelationMessage.text {chars : WordChars} (message : RelationMessage chars)
    (relation : String) : String :=
  String.ofList (message.before ++ message.opening :: (relation.toList
    ++ message.closing :: message.after))

/-- The relation is one of the tables of the queue. -/
def IsQueueTable (relation queue : String) : Prop :=
  ∃ p ∈ queueTablePrefixes, relation = "absurd." ++ queueTable p queue

/-! ### The name of a table -/

section

variable {chars : WordChars}

theorem isWord_underscore :
  chars.isWord '_' = true
  := chars.ascii '_' (by decide)

theorem isWord_dot :
  chars.isWord '.' = false
  := chars.ascii '.' (by decide)

/-- A table's name: a letter, an underscore and the queue. -/
theorem toList_queueTable (chars : WordChars) {p : String} (hp : p ∈ queueTablePrefixes) (queue : String) :
  ∃ x, (queueTable p queue).toList = x :: '_' :: queue.toList ∧ chars.isWord x = true ∧ x ≠ '_'
  := by
  have hletters : ['t', 'r', 'c', 'e', 'w'].all
      (fun x => x.toNat < 128 && x.isAlphanum && x != '_') = true := rfl
  have hletter : ∀ x ∈ ['t', 'r', 'c', 'e', 'w'], chars.isWord x = true ∧ x ≠ '_' := by
    intro x hx
    have hascii := List.all_eq_true.mp hletters x hx
    simp only [Bool.and_eq_true, decide_eq_true_eq, bne_iff_ne] at hascii
    obtain ⟨⟨hlt, halnum⟩, hne⟩ := hascii
    rw [chars.ascii x hlt, halnum]
    exact ⟨rfl, hne⟩
  simp only [queueTablePrefixes, List.mem_cons, List.not_mem_nil, or_false] at hp
  have htable : ∀ x : Char, (queueTable (String.singleton x) queue).toList = x :: '_' :: queue.toList := by
    intro x
    simp [queueTable, String.toList_append]
  rcases hp with rfl | rfl | rfl | rfl | rfl
  · exact ⟨'t', htable 't', hletter 't' (by simp)⟩
  · exact ⟨'r', htable 'r', hletter 'r' (by simp)⟩
  · exact ⟨'c', htable 'c', hletter 'c' (by simp)⟩
  · exact ⟨'e', htable 'e', hletter 'e' (by simp)⟩
  · exact ⟨'w', htable 'w', hletter 'w' (by simp)⟩

theorem queueTable_ne_nil (p queue : String) :
  (queueTable p queue).toList ≠ []
  := by
  simp [queueTable, String.toList_append]

/-- The last character of a table's name makes words when that of the queue does. -/
def EndsInWord (chars : WordChars) (queue : String) : Prop :=
  ∀ c ∈ queue.toList.getLast?, chars.isWord c = true

theorem any_getLast?_queueTable {p : String} (queue : String) :
  (queueTable p queue).toList.getLast?.any chars.isWord = true ↔ EndsInWord chars queue
  := by
  rw [queueTable, String.toList_append, EndsInWord, List.getLast?_append]
  cases hlast : queue.toList.getLast? with
  | none => simp [String.toList_append, isWord_underscore]
  | some c => simp

end

/-! ### Where a table's name may stand -/

/-- The name of a table stands as a word in the name of the relation. -/
def StandsInRelation (chars : WordChars) (relation queue : String) : Prop :=
  ∃ p ∈ queueTablePrefixes, StandsIn chars.isWord (queueTable p queue).toList relation.toList

/-- The name of a table begins in the name of the relation, as a word, and runs over the
closing mark into the text after it. -/
def RunsOver {chars : WordChars} (message : RelationMessage chars) (relation queue : String) :
    Prop :=
  ∃ p ∈ queueTablePrefixes, ∃ front overrun back,
    front ++ (queueTable p queue).toList = relation.toList ++ message.closing :: overrun
      ∧ message.after = overrun ++ back
      ∧ front.getLast?.any chars.isWord = false
      ∧ boundary chars.isWord (queueTable p queue).toList.getLast? back.head? = true

section

variable {chars : WordChars} (message : RelationMessage chars)

theorem toList_text (relation : String) :
  (message.text relation).toList
    = message.before ++ message.opening :: (relation.toList ++ message.closing :: message.after)
  := String.toList_ofList

/-- A word that begins with a letter and an underscore stands in the message where it stands in
the name of the relation, or where it begins there and runs over the closing mark. -/
theorem standsIn_text_iff {relation : String} {word rest : List Char} {x : Char}
    (hword : word = x :: '_' :: rest) (hx : chars.isWord x = true) :
  StandsIn chars.isWord word (message.text relation).toList
    ↔ StandsIn chars.isWord word relation.toList
      ∨ ∃ front overrun back, front ++ word = relation.toList ++ message.closing :: overrun
        ∧ message.after = overrun ++ back ∧ front.getLast?.any chars.isWord = false
        ∧ boundary chars.isWord word.getLast? back.head? = true
  := by
  have hhead : word.head? = some x := by
    rw [hword]
    rfl
  have hmark : ∀ c, chars.isWord c = false → c ≠ '_' ∧ c ≠ x := by
    intro c hc
    constructor
    · rintro rfl
      rw [isWord_underscore] at hc
      cases hc
    · rintro rfl
      rw [hx] at hc
      cases hc
  obtain ⟨hopening, hopening'⟩ := hmark _ message.opening_isWord
  simp only [StandsIn, hhead, boundary_some_right hx, toList_text]
  constructor
  · rintro ⟨front, back, htext, hstart, hend⟩
    have hblock : message.before ++ message.opening :: (relation.toList
        ++ message.closing :: message.after) = front ++ x :: '_' :: (rest ++ back) := by
      rw [htext, hword]
      simp
    obtain ⟨front', rfl, hrelation⟩ := exists_front_after_mark message.before_underscore
      hopening hopening' hblock
    rw [any_getLast?_mark_append message.opening_isWord] at hstart
    have hsplit : relation.toList ++ message.closing :: message.after
        = (front' ++ word) ++ back := by
      rw [hrelation, hword]
      simp
    rcases List.append_eq_append_iff.mp hsplit with ⟨overrun, hover, hback⟩ | ⟨left, hleft, rfl⟩
    · cases overrun with
      | nil =>
          rw [List.append_nil] at hover
          rw [List.nil_append] at hback
          left
          refine ⟨front', [], by rw [List.append_nil, hover], hstart, ?_⟩
          rw [← hback] at hend
          simpa [boundary, message.closing_isWord] using hend
      | cons c overrun =>
          obtain ⟨rfl, hafter⟩ := List.cons.inj hback
          exact .inr ⟨front', overrun, back, hover, hafter, hstart, hend⟩
    · left
      rw [boundary_append_mark message.closing_isWord] at hend
      exact ⟨front', left, hleft, hstart, hend⟩
  · rintro (⟨front, back, hrelation, hstart, hend⟩ | ⟨front, overrun, back, hover, hafter, hstart, hend⟩)
    · refine ⟨message.before ++ message.opening :: front, back ++ message.closing :: message.after,
        ?_, ?_, ?_⟩
      · rw [hrelation]
        simp
      · rw [any_getLast?_mark_append message.opening_isWord]
        exact hstart
      · rw [boundary_append_mark message.closing_isWord]
        exact hend
    · refine ⟨message.before ++ message.opening :: front, back, ?_, ?_, hend⟩
      · have htail : relation.toList ++ message.closing :: (overrun ++ back)
            = front ++ (word ++ back) := by
          rw [← List.append_assoc, hover]
          simp
        rw [hafter, htail]
        simp
      · rw [any_getLast?_mark_append message.opening_isWord]
        exact hstart

/-- The message names a table of the queue when one stands in the name of the relation or runs
over its end. -/
theorem namesAQueueTable_iff (relation queue : String) :
  namesAQueueTable chars (some (message.text relation)) queue = true
    ↔ StandsInRelation chars relation queue ∨ RunsOver message relation queue
  := by
  simp only [namesAQueueTable, Option.getD_some, List.any_eq_true, StandsInRelation, RunsOver,
    ← exists_or, ← and_or_left]
  apply exists_congr
  intro p
  apply and_congr_right
  intro hp
  obtain ⟨x, htable, hx, -⟩ := toList_queueTable chars hp queue
  rw [searchWord_iff (queueTable_ne_nil p queue)]
  exact standsIn_text_iff message htable hx

/-! ### The tables of the queue itself -/

theorem toList_relation {p : String} {queue : String} {x : Char}
    (h : (queueTable p queue).toList = x :: '_' :: queue.toList) :
  ("absurd." ++ queueTable p queue).toList = "absurd.".toList ++ x :: '_' :: queue.toList
  := by
  rw [String.toList_append, h]

/-- A table of the queue stands in its own name when the queue ends in a word character. -/
theorem standsInRelation_own {p : String} (hp : p ∈ queueTablePrefixes) (queue : String) :
  StandsInRelation chars ("absurd." ++ queueTable p queue) queue ↔ EndsInWord chars queue
  := by
  obtain ⟨x, htable, hx, hne⟩ := toList_queueTable chars hp queue
  constructor
  · rintro ⟨p', hp', front, back, hrelation, -, hend⟩
    obtain ⟨x', htable', hx', hne'⟩ := toList_queueTable chars hp' queue
    rw [toList_relation htable, htable'] at hrelation
    have hblock : "absurd.".toList ++ x :: '_' :: (queue.toList ++ [])
        = front ++ x' :: '_' :: (queue.toList ++ back) := by
      rw [List.append_nil, hrelation]
      simp
    have hback : [] = back := block_unique (by decide) hne hne' (by simp) hblock
    rw [← hback] at hend
    rw [← any_getLast?_queueTable (p := p')]
    simpa [boundary] using hend
  · intro hend
    refine ⟨p, hp, "absurd.".toList, [], ?_, ?_, ?_⟩
    · rw [toList_relation htable, htable, List.append_nil]
    · rw [htable, List.head?_cons, boundary_some_right hx]
      exact isWord_dot
    · rw [← any_getLast?_queueTable (p := p)] at hend
      simpa [boundary] using hend

theorem not_runsOver_own {p : String} (hp : p ∈ queueTablePrefixes) (queue : String) :
  ¬ RunsOver message ("absurd." ++ queueTable p queue) queue
  := by
  obtain ⟨x, htable, hx, hne⟩ := toList_queueTable chars hp queue
  rintro ⟨p', hp', front, overrun, back, hover, hafter, -⟩
  obtain ⟨x', htable', hx', hne'⟩ := toList_queueTable chars hp' queue
  have hmark : '_' ∉ message.closing :: overrun := by
    rw [List.mem_cons, not_or]
    constructor
    · intro heq
      have hword := message.closing_isWord
      rw [← heq, isWord_underscore] at hword
      cases hword
    · intro hmem
      exact message.after_underscore (hafter ▸ List.mem_append_left _ hmem)
  rw [toList_relation htable, htable'] at hover
  have hblock : "absurd.".toList ++ x :: '_' :: (queue.toList ++ message.closing :: overrun)
      = front ++ x' :: '_' :: (queue.toList ++ []) := by
    rw [List.append_nil, hover]
    simp
  cases block_unique (by decide) hne hne' hmark hblock

/-! ### When the attribution is right -/

theorem isQueueTable_iff {p : String} (hp : p ∈ queueTablePrefixes) (queue queue' : String) :
  IsQueueTable ("absurd." ++ queueTable p queue') queue ↔ queue' = queue
  := by
  constructor
  · rintro ⟨p', hp', heq⟩
    have hlists := congrArg String.toList heq
    rw [String.toList_append, String.toList_append] at hlists
    have htable := String.toList_injective (List.append_cancel_left hlists)
    exact (queueTable_inj (List.mem_append_left _ hp) (List.mem_append_left _ hp') htable).2
  · rintro rfl
    exact ⟨p, hp, rfl⟩

/-- The name of the queue ends in a word character when the relation is one of its tables, and
otherwise no table of the queue stands in the name of the relation or runs over its end. -/
def Distinguished (relation queue : String) : Prop :=
  (IsQueueTable relation queue → EndsInWord chars queue)
    ∧ (¬ IsQueueTable relation queue →
      ¬ StandsInRelation chars relation queue ∧ ¬ RunsOver message relation queue)

theorem namesAQueueTable_own {relation queue : String} (h : IsQueueTable relation queue) :
  namesAQueueTable chars (some (message.text relation)) queue = true ↔ EndsInWord chars queue
  := by
  obtain ⟨p, hp, rfl⟩ := h
  rw [namesAQueueTable_iff, standsInRelation_own hp]
  exact or_iff_left (not_runsOver_own message hp queue)

theorem namesAQueueTable_right (relation queue : String) :
  (namesAQueueTable chars (some (message.text relation)) queue = true
      ↔ IsQueueTable relation queue)
    ↔ Distinguished message relation queue
  := by
  by_cases hown : IsQueueTable relation queue
  · simp only [Distinguished, hown, iff_true, forall_true_left, not_true_eq_false, false_implies,
      and_true]
    exact namesAQueueTable_own message hown
  · simp only [Distinguished, hown, iff_false, false_implies, true_and, not_false_eq_true,
      forall_true_left]
    rw [namesAQueueTable_iff, not_or]

/-- A message is attributed to the queue of its relation, and to no other, exactly when the
relation and the queue are told apart. -/
theorem namesAQueueTable_right_iff (queue : String) :
  (∀ p ∈ queueTablePrefixes, ∀ queue',
      ((namesAQueueTable chars (some (message.text ("absurd." ++ queueTable p queue'))) queue = true
          ↔ queue' = queue)
        ↔ Distinguished message ("absurd." ++ queueTable p queue') queue))
    ∧ ∀ relation, ¬ IsQueueTable relation queue →
      (namesAQueueTable chars (some (message.text relation)) queue = false
        ↔ Distinguished message relation queue)
  := by
  constructor
  · intro p hp queue'
    rw [← isQueueTable_iff hp]
    exact namesAQueueTable_right message _ queue
  · intro relation hother
    rw [← namesAQueueTable_right, iff_false_right hother, Bool.not_eq_true]

/-! ### Names of word characters -/

/-- Every character of the name makes words. -/
def WordName (chars : WordChars) (queue : String) : Prop :=
  ∀ c ∈ queue.toList, chars.isWord c = true

theorem isWord_of_mem_queueTable {p queue : String} (hp : p ∈ queueTablePrefixes)
    (hqueue : WordName chars queue) {c : Char} (hc : c ∈ (queueTable p queue).toList) :
  chars.isWord c = true
  := by
  obtain ⟨x, htable, hx, -⟩ := toList_queueTable chars hp queue
  rw [htable, List.mem_cons, List.mem_cons] at hc
  rcases hc with rfl | rfl | hc
  · exact hx
  · exact isWord_underscore
  · exact hqueue c hc

/-- A table of a queue of word characters stands in the name of another such table as a whole
or not at all. -/
theorem eq_of_standsIn {p p' queue queue' : String} (hp : p ∈ queueTablePrefixes)
    (hp' : p' ∈ queueTablePrefixes) (hqueue : WordName chars queue)
    (hqueue' : WordName chars queue')
    (h : StandsIn chars.isWord (queueTable p queue).toList
      ("absurd." ++ queueTable p' queue').toList) :
  queue' = queue
  := by
  obtain ⟨front, back, hrelation, hstart, hend⟩ := h
  obtain ⟨x, htable, hx, hne⟩ := toList_queueTable chars hp queue
  rw [htable, List.head?_cons, boundary_some_right hx] at hstart
  rw [String.toList_append, List.append_assoc] at hrelation
  have hsame : (queueTable p' queue').toList = (queueTable p queue).toList ++ back := by
    rcases List.append_eq_append_iff.mp hrelation with ⟨overrun, rfl, hover⟩ | ⟨left, hleft, hover⟩
    · -- What precedes the word in the table would be a word character before it.
      rcases List.eq_nil_or_concat overrun with rfl | ⟨overrun', c, rfl⟩
      · exact hover
      · have hword := isWord_of_mem_queueTable hp' hqueue' (c := c) (by rw [hover]; simp)
        rw [List.concat_eq_append, ← List.append_assoc, List.getLast?_concat, Option.any_some,
          hword] at hstart
        cases hstart
    · -- The word would begin in the name of the schema.
      cases left with
      | nil => exact hover.symm
      | cons c left =>
          exfalso
          rw [htable] at hover
          obtain ⟨rfl, htail⟩ := List.cons.inj hover
          cases left with
          | nil =>
              have hdot : x = '.' := by
                have hlast := congrArg List.getLast? hleft
                simpa [eq_comm] using hlast
              rw [hdot, isWord_dot] at hx
              cases hx
          | cons c' left =>
              obtain ⟨rfl, -⟩ := List.cons.inj htail
              have hmem : '_' ∈ "absurd.".toList := by
                rw [hleft]
                simp
              exact absurd hmem (by decide)
  have hback : back = [] := by
    cases back with
    | nil => rfl
    | cons c back =>
        exfalso
        have hword := isWord_of_mem_queueTable hp' hqueue' (c := c) (by rw [hsame]; simp)
        have hlast : (queueTable p queue).toList.getLast?.any chars.isWord = true :=
          (any_getLast?_queueTable queue).mpr (fun c hc => hqueue c (List.mem_of_getLast? hc))
        simp [boundary, hword, hlast] at hend
  rw [hback, List.append_nil] at hsame
  exact (queueTable_inj (List.mem_append_left _ hp') (List.mem_append_left _ hp)
    (String.toList_injective hsame)).2

/-- A table of a queue of word characters runs over no closing mark. -/
theorem not_runsOver_of_wordName {queue : String} (hqueue : WordName chars queue)
    (relation : String) :
  ¬ RunsOver message relation queue
  := by
  rintro ⟨p, hp, front, overrun, back, hover, hafter, -⟩
  have hclosing : message.closing ∉ (queueTable p queue).toList := by
    intro hmem
    have hword := isWord_of_mem_queueTable hp hqueue hmem
    rw [message.closing_isWord] at hword
    cases hword
  obtain ⟨x, htable, -⟩ := toList_queueTable chars hp queue
  rcases List.append_eq_append_iff.mp hover with ⟨left, -, hleft⟩ | ⟨left, -, hleft⟩
  · exact hclosing (by rw [hleft]; simp)
  · cases left with
    | nil => exact hclosing (by rw [← List.nil_append (queueTable p queue).toList, ← hleft]; simp)
    | cons c left =>
        obtain ⟨-, hrest⟩ := List.cons.inj hleft
        apply message.after_underscore
        rw [hafter, hrest, htable]
        simp

/-- Between queues whose names are word characters every message is attributed right. -/
theorem namesAQueueTable_of_words {p queue queue' : String} (hp : p ∈ queueTablePrefixes)
    (hqueue : WordName chars queue) (hqueue' : WordName chars queue') :
  namesAQueueTable chars (some (message.text ("absurd." ++ queueTable p queue'))) queue = true
    ↔ queue' = queue
  := by
  rw [← isQueueTable_iff hp, namesAQueueTable_right]
  constructor
  · intro _ c hc
    exact hqueue c (List.mem_of_getLast? hc)
  · intro hother
    refine ⟨?_, not_runsOver_of_wordName message hqueue _⟩
    rintro ⟨p', hp', hstands⟩
    exact hother ((isQueueTable_iff hp queue queue').mpr
      (eq_of_standsIn hp' hp hqueue hqueue' hstands))

end

/-- `\w` on ASCII. -/
def asciiWords : WordChars := ⟨fun c => c.isAlphanum || c = '_', fun _ _ => rfl⟩

/-- The message in English. -/
def englishMessage : RelationMessage asciiWords where
  before := "relation ".toList
  opening := '"'
  closing := '"'
  after := " does not exist".toList
  opening_isWord := rfl
  closing_isWord := rfl
  before_underscore := by decide
  after_underscore := by decide

/-- A missing table of the queue `default-x` is read as one of `default`. -/
theorem hyphenated_misattributed :
  ¬ (namesAQueueTable asciiWords
      (some (englishMessage.text ("absurd." ++ queueTable "t" "default-x"))) "default" = true
    ↔ "default-x" = "default")
  := by
  intro h
  exact absurd (h.mp rfl) (by decide)

end DjangoAbsurd
