import DjangoAbsurd.PgCron.Schedule
import DjangoAbsurd.Library.Spans

/-!
# The schedule grammar of `pg_cron`

`validatePgCronSchedule` decides in Python what `pg_cron` is asked to run: an alias of a
recurring schedule, an interval of 1 to 59 seconds, or five fields croniter reads. The
interval is `sscanf(" %u secon%c%c %c")` ported to a regular expression; `IntervalText` is
what the port is to match.

Whitespace means three things on the way: what `str.strip` strips and what `\s` matches in a
pattern of ASCII, which is what C's `isspace` takes.
-/

namespace DjangoAbsurd

/-! ### The characters -/

/-- C's `isspace`, and `\s` under `re.ASCII`. -/
def isCSpace (c : Char) : Bool := c.toNat = 32 || (9 ≤ c.toNat && c.toNat ≤ 13)

theorem isSpace_of_isCSpace {c : Char} (h : isCSpace c = true) :
  isSpace c = true
  := by
  simp only [isCSpace, Bool.or_eq_true, decide_eq_true_eq, Bool.and_eq_true] at h
  simp only [isSpace, Bool.or_eq_true, decide_eq_true_eq, Bool.and_eq_true]
  omega

theorem isSpace_visible (c : Char) (hlow : 33 ≤ c.toNat) (hhigh : c.toNat < 128) :
  isSpace c = false
  := by
  rw [Bool.eq_false_iff]
  intro h
  simp only [isSpace, Bool.or_eq_true, decide_eq_true_eq, Bool.and_eq_true] at h
  omega

/-- `str.strip`. -/
def strip (cs : List Char) : List Char := cs.trim isSpace

/-- The number a text of decimal digits writes. -/
def digitsValue (ds : List Char) : ℕ := ds.foldl (fun n c => 10 * n + (c.toNat - 48)) 0

/-! ### The interval -/

/-- Why an expression is refused: a `ValidationError` with its message, or the `ValueError`
of `int`. -/
inductive ScheduleError where
  | validationError (message : String)
  | valueError
  deriving DecidableEq, Repr

/-- The group of a match of `INTERVAL`: `[+-]?[0-9]+`. -/
structure IntervalGroup where
  sign : Option Char
  digits : List Char
  deriving DecidableEq, Repr

/-- The number the group writes. -/
def IntervalGroup.seconds (group : IntervalGroup) : ℤ :=
  if group.sign = some '-' then -(digitsValue group.digits : ℤ) else digitsValue group.digits

/-- The sign a text begins with and what follows it. -/
def splitSign : List Char → Option Char × List Char
  | '+' :: cs => (some '+', cs)
  | '-' :: cs => (some '-', cs)
  | cs => (none, cs)

/-- What is left of a text after `s?`. -/
def dropPlural : List Char → List Char
  | c :: cs => if c.toLower = 's' then cs else c :: cs
  | [] => []

/-- The letters of `second`. -/
def second : List Char := ['s', 'e', 'c', 'o', 'n', 'd']

/-- `INTERVAL.fullmatch`. -/
def fullmatchInterval (cs : List Char) : Option IntervalGroup :=
  let (sign, unsigned) := splitSign (cs.dropWhile isCSpace)
  let digits := unsigned.takeWhile Char.isDigit
  let word := (unsigned.dropWhile Char.isDigit).dropWhile isCSpace
  if digits ≠ [] ∧ (word.take 6).map Char.toLower = second
      ∧ (dropPlural (word.drop 6)).all isCSpace = true then
    some { sign, digits }
  else none

/-- `MIN_INTERVAL_SECONDS` and `MAX_INTERVAL_SECONDS`. -/
def minIntervalSeconds : ℤ := 1

def maxIntervalSeconds : ℤ := 59

/-- `INTERVAL_RANGE_MESSAGE`. -/
def intervalRangeMessage : String := "An interval schedule must be between 1 and 59 seconds."

/-- The digits `int` converts at most. -/
def maxStrDigits : ℕ := 4300

/-- `int(interval.group(1))`. -/
def IntervalGroup.int (group : IntervalGroup) : Except ScheduleError ℤ :=
  if maxStrDigits < group.digits.length then .error .valueError else .ok group.seconds

/-- `validate_interval_seconds`. -/
def validateIntervalSeconds (seconds : ℤ) : Except ScheduleError Unit :=
  if minIntervalSeconds ≤ seconds ∧ seconds ≤ maxIntervalSeconds then .ok ()
  else .error (.validationError intervalRangeMessage)

/-! ### The other forms -/

/-- `RECURRING_ALIASES`. -/
def recurringAliases : List String :=
  ["@yearly", "@annually", "@monthly", "@weekly", "@daily", "@midnight", "@hourly"]

/-- `NON_RECURRING_ALIASES`. -/
def nonRecurringAliases : List String := ["@reboot", "@restart"]

/-- `NON_RECURRING_ALIAS_MESSAGE`. -/
def nonRecurringAliasMessage : String :=
  "@reboot and @restart do not describe a recurring schedule."

/-- `INVALID_CRON_MESSAGE`. -/
def invalidCronMessage : String := "Not a valid cron expression."

/-- `validate_alias`. -/
def validateAlias (expression : String) : Except ScheduleError Unit :=
  if expression ∈ nonRecurringAliases then .error (.validationError nonRecurringAliasMessage)
  else if expression ∉ recurringAliases then .error (.validationError invalidCronMessage)
  else .ok ()

/-- Whether `UNSUPPORTED_SYNTAX` is found in a text that follows `previous`: a `#`, a `?`, or
a modifier letter between characters that are no letters. -/
def searchUnsupportedSyntax (previous : Option Char) : List Char → Bool
  | [] => false
  | c :: cs =>
      c = '#' || c = '?'
        || (c ∈ ['L', 'W', 'R', 'H', 'l', 'w', 'r', 'h'] && !previous.any Char.isAlpha
          && !cs.head?.any Char.isAlpha)
        || searchUnsupportedSyntax (some c) cs

/-- `UNSUPPORTED_SYNTAX_MESSAGE`. -/
def unsupportedSyntaxMessage : String :=
  "pg_cron cannot parse '#', 'L', 'W', '?', 'R' or 'H'."

/-- `reject_unsupported_syntax`. -/
def rejectUnsupportedSyntax (expression : List Char) : Except ScheduleError Unit :=
  if searchUnsupportedSyntax none expression = true then
    .error (.validationError unsupportedSyntaxMessage)
  else .ok ()

/-- `CRON_FIELD_COUNT`. -/
def cronFieldCount : ℕ := 5

/-- `str.split()`. -/
def splitFields (expression : List Char) : List (List Char) :=
  (expression.splitOnP isSpace).filter (· ≠ [])

/-- `reject_wrong_field_count`. -/
def rejectWrongFieldCount (expression : List Char) : Except ScheduleError Unit :=
  let fields := splitFields expression
  if fields.length ≠ cronFieldCount then
    let counted :=
      if fields.length = 1 then s!"{fields.length} field" else s!"{fields.length} fields"
    .error (.validationError s!"Expected a {cronFieldCount}-field cron expression; got {counted}.")
  else .ok ()

/-- `validate_pg_cron_schedule`; `isValid` is `croniter.is_valid`. -/
def validatePgCronSchedule (isValid : String → Bool) (cron : String) :
    Except ScheduleError Unit :=
  let expression := strip cron.toList
  if expression.head? = some '@' then validateAlias (String.ofList expression)
  else
    match fullmatchInterval expression with
    | some interval => do validateIntervalSeconds (← interval.int)
    | none => do
        rejectUnsupportedSyntax expression
        rejectWrongFieldCount expression
        if isValid (String.ofList expression) then .ok ()
        else .error (.validationError invalidCronMessage)

example : validatePgCronSchedule (fun _ => true) " +30  SeConds\t" = .ok () := by rfl

example : validatePgCronSchedule (fun _ => true) "0 2 * *"
    = .error (.validationError "Expected a 5-field cron expression; got 4 fields.") := by rfl

example : validatePgCronSchedule (fun _ => true) "0 2 15W * *"
    = .error (.validationError unsupportedSyntaxMessage) := by rfl

/-! ### The grammar the interval is ported from -/

/-- The text between the margins of an interval. -/
def intervalCore (group : IntervalGroup) (gap word : List Char) : List Char :=
  group.sign.toList ++ (group.digits ++ (gap ++ word))

/-- An optional sign, decimal digits, whitespace and `second` or `seconds` in any case. -/
structure IntervalShape (group : IntervalGroup) (gap word : List Char) : Prop where
  sign : group.sign = none ∨ group.sign = some '+' ∨ group.sign = some '-'
  digits_ne : group.digits ≠ []
  digits : ∀ c ∈ group.digits, c.isDigit = true
  gap : ∀ c ∈ gap, isCSpace c = true
  word : word.map Char.toLower = second ∨ word.map Char.toLower = second ++ ['s']

/-- A whole text that is an interval, between margins of whitespace. -/
def IntervalText (cs : List Char) (group : IntervalGroup) : Prop :=
  ∃ front gap word back, cs = front ++ intervalCore group gap word ++ back
    ∧ IntervalShape group gap word ∧ (∀ c ∈ front, isCSpace c = true)
    ∧ ∀ c ∈ back, isCSpace c = true

/-- A number of seconds an interval may have. -/
def InRange (seconds : ℤ) : Prop := 1 ≤ seconds ∧ seconds ≤ 59

/-- The texts `pg_cron` reads as an interval and schedules. -/
def IntervalGrammar (cs : List Char) : Prop :=
  ∃ group, IntervalText cs group ∧ InRange group.seconds

/-! ### The match and the grammar -/

theorem toNat_of_isDigit {c : Char} (h : c.isDigit = true) :
  48 ≤ c.toNat ∧ c.toNat ≤ 57
  := by
  simp only [Char.isDigit, Bool.and_eq_true, decide_eq_true_eq] at h
  exact ⟨UInt32.le_iff_toNat_le.mp h.1, UInt32.le_iff_toNat_le.mp h.2⟩

theorem isCSpace_eq_false_of_le {c : Char} (h : 33 ≤ c.toNat) :
  isCSpace c = false
  := by
  rw [Bool.eq_false_iff]
  intro hc
  simp only [isCSpace, Bool.or_eq_true, decide_eq_true_eq, Bool.and_eq_true] at hc
  omega

theorem isDigit_eq_false {c : Char} (h : c.toNat < 48 ∨ 57 < c.toNat) :
  c.isDigit = false
  := by
  rw [Bool.eq_false_iff]
  intro hc
  have hrange := toNat_of_isDigit hc
  omega

theorem toNat_of_isCSpace {c : Char} (h : isCSpace c = true) :
  c.toNat ≤ 32
  := by
  simp only [isCSpace, Bool.or_eq_true, decide_eq_true_eq, Bool.and_eq_true] at h
  omega

/-- A character whose lower case is an ASCII letter is an ASCII letter. -/
theorem toNat_of_toLower {c : Char} (h : 97 ≤ c.toLower.toNat ∧ c.toLower.toNat ≤ 122) :
  65 ≤ c.toNat ∧ c.toNat ≤ 122
  := by
  delta Char.toLower at h
  split at h
  · rename_i hupper
    have hlow : 65 ≤ c.toNat := UInt32.le_iff_toNat_le.mp hupper.1
    have hhigh : c.toNat ≤ 90 := UInt32.le_iff_toNat_le.mp hupper.2
    omega
  · omega

namespace IntervalShape

variable {group : IntervalGroup} {gap word : List Char} (h : IntervalShape group gap word)

include h

theorem toNat_word {c : Char} (hc : c ∈ word) :
  65 ≤ c.toNat ∧ c.toNat ≤ 122
  := by
  have hmem : c.toLower ∈ second ++ ['s'] := by
    have hc' : c.toLower ∈ word.map Char.toLower := List.mem_map_of_mem hc
    rcases h.word with hword | hword
    · rw [hword] at hc'
      exact List.mem_append_left _ hc'
    · rw [hword] at hc'
      exact hc'
  apply toNat_of_toLower
  have hletters : (second ++ ['s']).all (fun l => 97 ≤ l.toNat && l.toNat ≤ 122) = true := rfl
  simpa using List.all_eq_true.mp hletters _ hmem

theorem word_ne_nil :
  word ≠ []
  := by
  rintro rfl
  rcases h.word with hword | hword <;> cases hword

/-- The word begins outside any class of characters that has no ASCII letter. -/
theorem word_startsOutside {p : Char → Bool} (back : List Char)
    (hp : ∀ c : Char, 65 ≤ c.toNat → c.toNat ≤ 122 → p c = false) :
  List.StartsOutside p (word ++ back)
  := by
  apply List.startsOutside_append h.word_ne_nil
  intro c hc
  have hrange := h.toNat_word (List.mem_of_mem_head? hc)
  exact hp c hrange.1 hrange.2

theorem gap_startsOutside (back : List Char) :
  List.StartsOutside Char.isDigit (gap ++ (word ++ back))
  := by
  cases hgap : gap with
  | nil => exact h.word_startsOutside back (fun c hc _ => isDigit_eq_false (.inr (by omega)))
  | cons c gap' =>
      have hspace := toNat_of_isCSpace (h.gap c (by simp [hgap]))
      exact List.startsOutside_cons (isDigit_eq_false (.inl (by omega)))

theorem core_ne_nil :
  intervalCore group gap word ≠ []
  := by
  intro hnil
  rw [intervalCore, List.append_eq_nil_iff, List.append_eq_nil_iff] at hnil
  exact h.digits_ne hnil.2.1

theorem toNat_sign {c : Char} (hc : c ∈ group.sign.toList) :
  43 ≤ c.toNat ∧ c.toNat ≤ 45
  := by
  rcases h.sign with hsign | hsign | hsign <;> rw [hsign] at hc
  · cases hc
  · rw [List.mem_singleton.mp hc]
    decide
  · rw [List.mem_singleton.mp hc]
    decide

theorem toNat_of_mem_digits {c : Char} (hc : c ∈ group.digits) :
  48 ≤ c.toNat ∧ c.toNat ≤ 57
  := toNat_of_isDigit (h.digits c hc)

theorem digits_startsOutside (rest : List Char) :
  List.StartsOutside (fun c => c = '+' || c = '-') (group.digits ++ rest)
  := by
  apply List.startsOutside_append h.digits_ne
  intro c hc
  have hrange := h.toNat_of_mem_digits (List.mem_of_mem_head? hc)
  rw [Bool.or_eq_false_iff, decide_eq_false_iff_not, decide_eq_false_iff_not]
  constructor
  · rintro rfl
    exact absurd hrange.1 (by decide)
  · rintro rfl
    exact absurd hrange.1 (by decide)

/-- The core begins outside any class of characters that has no visible ASCII one. -/
theorem core_startsOutside {p : Char → Bool}
    (hp : ∀ c : Char, 33 ≤ c.toNat → c.toNat < 128 → p c = false) :
  List.StartsOutside p (intervalCore group gap word)
  := by
  have hdigits : List.StartsOutside p (group.digits ++ (gap ++ word)) := by
    apply List.startsOutside_append h.digits_ne
    intro c hc
    have hrange := h.toNat_of_mem_digits (List.mem_of_mem_head? hc)
    exact hp c (by omega) (by omega)
  rw [intervalCore]
  cases hsign : group.sign with
  | none => exact hdigits
  | some c =>
      have hrange := h.toNat_sign (c := c) (by simp [hsign])
      exact List.startsOutside_cons (hp c (by omega) (by omega))

theorem core_endsOutside {p : Char → Bool}
    (hp : ∀ c : Char, 33 ≤ c.toNat → c.toNat < 128 → p c = false) :
  List.EndsOutside p (intervalCore group gap word)
  := by
  rw [intervalCore, ← List.append_assoc, ← List.append_assoc]
  apply List.endsOutside_append h.word_ne_nil
  intro c hc
  have hrange := h.toNat_word (List.mem_of_getLast? hc)
  exact hp c (by omega) (by omega)

end IntervalShape

theorem splitSign_eq (cs : List Char) :
  cs = (splitSign cs).1.toList ++ (splitSign cs).2
    ∧ ((splitSign cs).1 = none ∨ (splitSign cs).1 = some '+' ∨ (splitSign cs).1 = some '-')
  := by
  fun_cases splitSign cs <;> simp

theorem splitSign_of_startsOutside {cs : List Char}
    (h : List.StartsOutside (fun c => c = '+' || c = '-') cs) :
  splitSign cs = (none, cs)
  := by
  fun_cases splitSign cs with
  | case1 cs => simpa using h '+' rfl
  | case2 cs => simpa using h '-' rfl
  | case3 => rfl

theorem splitSign_append {sign : Option Char} {cs : List Char}
    (hsign : sign = none ∨ sign = some '+' ∨ sign = some '-')
    (hcs : List.StartsOutside (fun c => c = '+' || c = '-') cs) :
  splitSign (sign.toList ++ cs) = (sign, cs)
  := by
  rcases hsign with rfl | rfl | rfl
  · exact splitSign_of_startsOutside hcs
  · rfl
  · rfl

theorem dropPlural_eq (cs : List Char) :
  ∃ plural, cs = plural ++ dropPlural cs
    ∧ (plural.map Char.toLower = [] ∨ plural.map Char.toLower = ['s'])
  := by
  fun_cases dropPlural cs with
  | case1 c cs hs =>
      use [c]
      simp [hs]
  | case2 c cs hs =>
      use []
      simp
  | case3 =>
      use []
      simp

theorem dropPlural_append {plural back : List Char}
    (hplural : plural.map Char.toLower = [] ∨ plural.map Char.toLower = ['s'])
    (hback : ∀ c ∈ back, isCSpace c = true) :
  dropPlural (plural ++ back) = back
  := by
  rcases hplural with hnil | hs
  · rw [List.map_eq_nil_iff.mp hnil, List.nil_append]
    cases back with
    | nil => rfl
    | cons c back =>
        have hne : c.toLower ≠ 's' := by
          intro hlower
          have hrange := toNat_of_toLower (c := c) (by rw [hlower]; decide)
          have hspace := hback c List.mem_cons_self
          rw [isCSpace_eq_false_of_le (by omega)] at hspace
          cases hspace
        rw [dropPlural, if_neg hne]
  · obtain ⟨c, rfl, hc⟩ := List.map_eq_singleton_iff.mp hs
    rw [List.singleton_append, dropPlural, if_pos hc]

/-- `second` or `seconds` is the six letters of `second` and what the plural adds. -/
theorem exists_plural {word : List Char}
    (h : word.map Char.toLower = second ∨ word.map Char.toLower = second ++ ['s']) :
  ∃ stem plural, word = stem ++ plural ∧ stem.map Char.toLower = second
    ∧ (plural.map Char.toLower = [] ∨ plural.map Char.toLower = ['s'])
  := by
  rcases h with h | h
  · exact ⟨word, [], (List.append_nil word).symm, h, .inl rfl⟩
  · obtain ⟨stem, plural, hword, hstem, hplural⟩ := List.map_eq_append_iff.mp h
    exact ⟨stem, plural, hword, hstem, .inr hplural⟩

/-- A text of the grammar is matched, with the group it was made of. -/
theorem fullmatchInterval_complete {cs : List Char} {group : IntervalGroup}
    (h : IntervalText cs group) :
  fullmatchInterval cs = some group
  := by
  obtain ⟨front, gap, word, back, rfl, hshape, hfront, hback⟩ := h
  obtain ⟨stem, plural, rfl, hstem, hplural⟩ := exists_plural hshape.word
  have hlength : stem.length = 6 := by
    rw [← List.length_map Char.toLower, hstem]
    rfl
  have hstart : List.StartsOutside isCSpace (intervalCore group gap (stem ++ plural)) :=
    hshape.core_startsOutside (fun c hc _ => isCSpace_eq_false_of_le hc)
  have hskip : (front ++ intervalCore group gap (stem ++ plural) ++ back).dropWhile isCSpace
      = group.sign.toList ++ (group.digits ++ (gap ++ (stem ++ plural ++ back))) := by
    rw [List.dropWhile_margins hfront hshape.core_ne_nil hstart]
    simp [intervalCore]
  have hword : List.StartsOutside isCSpace (stem ++ plural ++ back) :=
    hshape.word_startsOutside back (fun c hc _ => isCSpace_eq_false_of_le (by omega))
  rw [fullmatchInterval, hskip, splitSign_append hshape.sign (hshape.digits_startsOutside _)]
  simp only
  rw [List.takeWhile_append_outside hshape.digits (hshape.gap_startsOutside back),
    List.dropWhile_append_outside hshape.digits (hshape.gap_startsOutside back),
    List.dropWhile_append_outside hshape.gap hword, List.append_assoc, ← hlength,
    List.take_left, List.drop_left, dropPlural_append hplural hback]
  exact if_pos ⟨hshape.digits_ne, hstem, List.all_eq_true.mpr hback⟩

/-- What is matched is a text of the grammar. -/
theorem fullmatchInterval_sound {cs : List Char} {group : IntervalGroup}
    (h : fullmatchInterval cs = some group) :
  IntervalText cs group
  := by
  obtain ⟨hsigned, hsign⟩ := splitSign_eq (cs.dropWhile isCSpace)
  rw [fullmatchInterval] at h
  generalize hpair : splitSign (cs.dropWhile isCSpace) = pair at h hsigned hsign
  obtain ⟨sign, unsigned⟩ := pair
  simp only at hsigned hsign
  simp only [Option.ite_none_right_eq_some, Option.some.injEq] at h
  obtain ⟨⟨hne, hstem, hback⟩, rfl⟩ := h
  obtain ⟨plural, hplural, hlower⟩ := dropPlural_eq
    (((unsigned.dropWhile Char.isDigit).dropWhile isCSpace).drop 6)
  refine ⟨cs.takeWhile isCSpace, (unsigned.dropWhile Char.isDigit).takeWhile isCSpace,
    ((unsigned.dropWhile Char.isDigit).dropWhile isCSpace).take 6 ++ plural, _, ?_,
    ⟨hsign, hne, fun c => List.mem_takeWhile_imp, fun c => List.mem_takeWhile_imp, ?_⟩,
    fun c => List.mem_takeWhile_imp, List.all_eq_true.mp hback⟩
  · calc cs = cs.takeWhile isCSpace ++ cs.dropWhile isCSpace :=
          (List.takeWhile_append_dropWhile).symm
      _ = cs.takeWhile isCSpace ++ (sign.toList ++ (unsigned.takeWhile Char.isDigit
            ++ ((unsigned.dropWhile Char.isDigit).takeWhile isCSpace
            ++ (((unsigned.dropWhile Char.isDigit).dropWhile isCSpace).take 6
            ++ (plural ++ dropPlural
              (((unsigned.dropWhile Char.isDigit).dropWhile isCSpace).drop 6)))))) := by
          rw [← hplural, List.take_append_drop, hsigned]
          simp only [List.takeWhile_append_dropWhile]
      _ = _ := by simp [intervalCore]
  · rw [List.map_append, hstem]
    rcases hlower with hlower | hlower
    · left
      rw [hlower, List.append_nil]
    · right
      rw [hlower]

theorem fullmatchInterval_eq_some_iff {cs : List Char} {group : IntervalGroup} :
  fullmatchInterval cs = some group ↔ IntervalText cs group
  := ⟨fullmatchInterval_sound, fullmatchInterval_complete⟩

/-! ### Stripping the text first -/

/-- What `str.strip` takes off the front, and off the back. -/
def frontMargin (cron : String) : List Char := cron.toList.frontMargin isSpace

def backMargin (cron : String) : List Char := cron.toList.backMargin isSpace

/-- Both margins are whitespace for C as well. -/
def CMargins (cron : String) : Prop :=
  (∀ c ∈ frontMargin cron, isCSpace c = true) ∧ ∀ c ∈ backMargin cron, isCSpace c = true

/-- The whole text is an interval when the stripped one is and what was stripped off is
whitespace for C. -/
theorem intervalText_iff_strip {cron : String} {group : IntervalGroup} :
  IntervalText cron.toList group ↔ IntervalText (strip cron.toList) group ∧ CMargins cron
  := by
  constructor
  · rintro ⟨front, gap, word, back, htext, hshape, hfront, hback⟩
    have hfront' : ∀ c ∈ front, isSpace c = true :=
      fun c hc => isSpace_of_isCSpace (hfront c hc)
    have hback' : ∀ c ∈ back, isSpace c = true := fun c hc => isSpace_of_isCSpace (hback c hc)
    have hstart := hshape.core_startsOutside isSpace_visible
    have hend := hshape.core_endsOutside isSpace_visible
    refine ⟨⟨[], gap, word, [], ?_, hshape, by simp, by simp⟩, ?_, ?_⟩
    · rw [strip, htext, List.trim_margins hfront' hshape.core_ne_nil hstart hend hback']
      simp
    · rw [frontMargin, htext, List.frontMargin_margins hfront' hshape.core_ne_nil hstart]
      exact hfront
    · rw [backMargin, htext, List.backMargin_margins hfront' hshape.core_ne_nil hstart hend hback']
      exact hback
  · rintro ⟨⟨front, gap, word, back, htext, hshape, hfront, hback⟩, hleft, hright⟩
    refine ⟨frontMargin cron ++ front, gap, word, back ++ backMargin cron, ?_, hshape,
      List.forall_mem_append.mpr ⟨hleft, hfront⟩, List.forall_mem_append.mpr ⟨hback, hright⟩⟩
    calc cron.toList = frontMargin cron ++ strip cron.toList ++ backMargin cron :=
          (List.frontMargin_append_trim_append_backMargin _).symm
      _ = _ := by
          rw [htext]
          simp only [List.append_assoc]

/-- Every text of the grammar is ASCII. -/
theorem IntervalText.ascii {cs : List Char} {group : IntervalGroup}
    (h : IntervalText cs group) :
  ∀ c ∈ cs, c.toNat < 128
  := by
  obtain ⟨front, gap, word, back, rfl, hshape, hfront, hback⟩ := h
  intro c hc
  simp only [intervalCore, List.mem_append] at hc
  rcases hc with (hc | hc | hc | hc | hc) | hc
  · have hspace := toNat_of_isCSpace (hfront c hc)
    omega
  · have hrange := hshape.toNat_sign hc
    omega
  · have hrange := hshape.toNat_of_mem_digits hc
    omega
  · have hspace := toNat_of_isCSpace (hshape.gap c hc)
    omega
  · have hrange := hshape.toNat_word hc
    omega
  · have hspace := toNat_of_isCSpace (hback c hc)
    omega

/-! ### What is accepted -/

theorem validateIntervalSeconds_isOk_iff (seconds : ℤ) :
  validateIntervalSeconds seconds = .ok () ↔ InRange seconds
  := by
  rw [validateIntervalSeconds, InRange, minIntervalSeconds, maxIntervalSeconds]
  split <;> simp_all

/-- The checks of an expression that is an interval. -/
theorem validatePgCronSchedule_interval {isValid : String → Bool} {cron : String}
    {group : IntervalGroup} (h : fullmatchInterval (strip cron.toList) = some group) :
  validatePgCronSchedule isValid cron
    = if maxStrDigits < group.digits.length then .error .valueError
      else validateIntervalSeconds group.seconds
  := by
  have hat : (strip cron.toList).head? ≠ some '@' := by
    intro hhead
    obtain ⟨cs, hcs⟩ := List.head?_eq_some_iff.mp hhead
    rw [hcs, fullmatchInterval] at h
    simp [isCSpace, splitSign] at h
  rw [validatePgCronSchedule]
  simp only [hat, if_false, h, IntervalGroup.int]
  split <;> rfl

/-- The validator takes the expression for an interval, and accepts it. -/
def AcceptedAsInterval (isValid : String → Bool) (cron : String) : Prop :=
  (fullmatchInterval (strip cron.toList)).isSome = true
    ∧ validatePgCronSchedule isValid cron = .ok ()

theorem acceptedAsInterval_iff {isValid : String → Bool} {cron : String} :
  AcceptedAsInterval isValid cron
    ↔ ∃ group, fullmatchInterval (strip cron.toList) = some group
      ∧ group.digits.length ≤ maxStrDigits ∧ InRange group.seconds
  := by
  rw [AcceptedAsInterval, Option.isSome_iff_exists]
  constructor
  · rintro ⟨⟨group, hgroup⟩, haccepted⟩
    rw [validatePgCronSchedule_interval hgroup] at haccepted
    split at haccepted
    · cases haccepted
    · rename_i hdigits
      exact ⟨group, hgroup, not_lt.mp hdigits, (validateIntervalSeconds_isOk_iff _).mp haccepted⟩
  · rintro ⟨group, hgroup, hdigits, hrange⟩
    refine ⟨⟨group, hgroup⟩, ?_⟩
    rw [validatePgCronSchedule_interval hgroup, if_neg (not_lt.mpr hdigits)]
    exact (validateIntervalSeconds_isOk_iff _).mpr hrange

/-- A text of the grammar is one whose stripped text is matched, in range, between margins
of C whitespace. -/
theorem intervalGrammar_iff {cron : String} :
  IntervalGrammar cron.toList
    ↔ ∃ group, fullmatchInterval (strip cron.toList) = some group ∧ CMargins cron
      ∧ InRange group.seconds
  := by
  constructor
  · rintro ⟨group, htext, hrange⟩
    obtain ⟨hstrip, hmargins⟩ := intervalText_iff_strip.mp htext
    exact ⟨group, fullmatchInterval_eq_some_iff.mpr hstrip, hmargins, hrange⟩
  · rintro ⟨group, hmatch, hmargins, hrange⟩
    have hstrip := fullmatchInterval_eq_some_iff.mp hmatch
    exact ⟨group, intervalText_iff_strip.mpr ⟨hstrip, hmargins⟩, hrange⟩

/-- On one expression the interval form is that of `pg_cron`. -/
structure IntervalExact (isValid : String → Bool) (cron : String) : Prop where
  accepted_iff : AcceptedAsInterval isValid cron ↔ IntervalGrammar cron.toList
  ascii : AcceptedAsInterval isValid cron → ∀ c ∈ cron.toList, c.toNat < 128

/-- An expression is accepted as an interval exactly when `pg_cron` schedules it as one,
unless its stripped text is an interval in range and the two bounds of the port differ on it:
the margins are not all C whitespace though `int` takes the digits, or they are though `int`
does not. -/
theorem intervalExact_iff (isValid : String → Bool) (cron : String) :
  IntervalExact isValid cron
    ↔ ∀ group, fullmatchInterval (strip cron.toList) = some group → InRange group.seconds →
      (group.digits.length ≤ maxStrDigits ↔ CMargins cron)
  := by
  constructor
  · intro h group hgroup hrange
    have hiff := h.accepted_iff
    rw [acceptedAsInterval_iff, intervalGrammar_iff] at hiff
    constructor
    · intro hdigits
      obtain ⟨-, -, hmargins, -⟩ := hiff.mp ⟨group, hgroup, hdigits, hrange⟩
      exact hmargins
    · intro hmargins
      obtain ⟨group', hgroup', hdigits, -⟩ := hiff.mpr ⟨group, hgroup, hmargins, hrange⟩
      rw [Option.some.inj (hgroup.symm.trans hgroup')]
      exact hdigits
  · intro h
    have hiff : AcceptedAsInterval isValid cron ↔ IntervalGrammar cron.toList := by
      rw [acceptedAsInterval_iff, intervalGrammar_iff]
      constructor
      · rintro ⟨group, hgroup, hdigits, hrange⟩
        exact ⟨group, hgroup, (h group hgroup hrange).mp hdigits, hrange⟩
      · rintro ⟨group, hgroup, hmargins, hrange⟩
        exact ⟨group, hgroup, (h group hgroup hrange).mpr hmargins, hrange⟩
    refine ⟨hiff, ?_⟩
    intro haccepted
    obtain ⟨group, htext, -⟩ := hiff.mp haccepted
    exact htext.ascii

/-- A non-breaking space in front is stripped before the pattern could refuse it. -/
theorem nonBreakingSpace_accepted :
  ¬ IntervalExact (fun _ => false) "\u00a030 seconds"
  := by
  intro h
  have haccepted : AcceptedAsInterval (fun _ => false) "\u00a030 seconds" := ⟨rfl, rfl⟩
  have hascii := h.ascii haccepted (Char.ofNat 160) (by decide)
  exact absurd hascii (by decide)

/-! ### Which exceptions escape -/

theorem ne_valueError_iff {x : Except ScheduleError Unit} :
  x ≠ .error .valueError ↔ x = .ok () ∨ ∃ message, x = .error (.validationError message)
  := by
  rcases x with (message | _) | ⟨⟩ <;> simp

theorem ne_valueError_seq {x : Except ScheduleError Unit} {f : Unit → Except ScheduleError Unit}
    (hx : x ≠ .error .valueError) (hf : f () ≠ .error .valueError) :
  x >>= f ≠ .error .valueError
  := by
  rcases x with e | ⟨⟩
  · exact hx
  · exact hf

theorem validateAlias_ne_valueError (expression : String) :
  validateAlias expression ≠ .error .valueError
  := by
  rw [validateAlias]
  split_ifs <;> simp

theorem rejectUnsupportedSyntax_ne_valueError (expression : List Char) :
  rejectUnsupportedSyntax expression ≠ .error .valueError
  := by
  rw [rejectUnsupportedSyntax]
  split <;> simp

theorem rejectWrongFieldCount_ne_valueError (expression : List Char) :
  rejectWrongFieldCount expression ≠ .error .valueError
  := by
  rw [rejectWrongFieldCount]
  simp only
  split <;> simp

theorem validateIntervalSeconds_ne_valueError (seconds : ℤ) :
  validateIntervalSeconds seconds ≠ .error .valueError
  := by
  rw [validateIntervalSeconds]
  split <;> simp

/-- The one `ValueError` is that of `int`, on an interval of too many digits. -/
theorem validatePgCronSchedule_ne_valueError_iff (isValid : String → Bool) (cron : String) :
  validatePgCronSchedule isValid cron ≠ .error .valueError
    ↔ ∀ group, fullmatchInterval (strip cron.toList) = some group →
      group.digits.length ≤ maxStrDigits
  := by
  cases hmatch : fullmatchInterval (strip cron.toList) with
  | some group =>
      rw [validatePgCronSchedule_interval hmatch]
      simp only [Option.some.injEq, forall_eq']
      split
      · simpa using ‹maxStrDigits < group.digits.length›
      · exact iff_of_true (validateIntervalSeconds_ne_valueError _) (not_lt.mp ‹_›)
  | none =>
      simp only [reduceCtorEq, false_implies, implies_true, iff_true]
      rw [validatePgCronSchedule]
      simp only [hmatch]
      split
      · exact validateAlias_ne_valueError _
      · apply ne_valueError_seq (rejectUnsupportedSyntax_ne_valueError _)
        apply ne_valueError_seq (rejectWrongFieldCount_ne_valueError _)
        split <;> simp

/-! ### Cleaning a row -/

/-- What `ScheduledTask.clean` fails with: a `ValidationError` of messages by field, or the
`ValueError` it does not catch. -/
inductive CleanError where
  | validationError (errors : List (String × List String))
  | valueError
  deriving DecidableEq, Repr

/-- The error of the cron field, when the grammar refuses it with one. -/
def rowCronErrors (isValid : String → Bool) (cron : String) :
    Except CleanError (List (String × List String)) :=
  match validatePgCronSchedule isValid cron with
  | .ok () => .ok []
  | .error (.validationError message) => .ok [("cron", [message])]
  | .error .valueError => .error .valueError

/-- The errors of the queue: those of the configured backend, or that it is blank. -/
def rowQueueErrors (backendErrors : ScheduledTask → Option (List String)) (v : ScheduledTask) :
    List (String × List String) :=
  let blank := if v.queue = "" then some ["This field cannot be blank."] else none
  ((backendErrors v).or blank).toList.map (fun messages => ("queue", messages))

/-- The error of retry timing without a kind. -/
def rowRetryErrors (v : OptionColumns) : List (String × List String) :=
  if v.retryKind = ""
      ∧ (v.retryBaseSeconds.isSome ∨ v.retryFactor.isSome ∨ v.retryMaxSeconds.isSome) then
    [("retry_kind", ["Set a retry kind to configure retry timing."])]
  else []

/-- `ScheduledTask.clean`; `backendErrors` are the messages of
`validate_queue_against_backend`. -/
def ScheduledTask.clean (isValid : String → Bool)
    (backendErrors : ScheduledTask → Option (List String)) (v : ScheduledTask) :
    Except CleanError Unit := do
  let cron ← rowCronErrors isValid v.cron
  let errors := cron ++ rowQueueErrors backendErrors v ++ rowRetryErrors v.options
  if errors = [] then .ok () else .error (.validationError errors)

theorem clean_ne_valueError_iff (isValid : String → Bool)
    (backendErrors : ScheduledTask → Option (List String)) (v : ScheduledTask) :
  v.clean isValid backendErrors ≠ .error .valueError
    ↔ validatePgCronSchedule isValid v.cron ≠ .error .valueError
  := by
  rw [ScheduledTask.clean, rowCronErrors]
  rcases validatePgCronSchedule isValid v.cron with (message | _) | ⟨⟩
  · simp [Bind.bind, Except.bind]
  · simp [Bind.bind, Except.bind]
  · simp only [Bind.bind, Except.bind]
    split <;> simp

/-- The validator returns or raises a `ValidationError` on an expression, and cleaning a row
of that expression does, whatever the rest of the row and the backend say. -/
structure TotalOn (isValid : String → Bool) (cron : String) : Prop where
  validate : validatePgCronSchedule isValid cron = .ok ()
    ∨ ∃ message, validatePgCronSchedule isValid cron = .error (.validationError message)
  clean : ∀ (backendErrors : ScheduledTask → Option (List String)) (v : ScheduledTask),
    v.cron = cron → v.clean isValid backendErrors = .ok ()
      ∨ ∃ errors, v.clean isValid backendErrors = .error (.validationError errors)

/-- The validator is total on an expression unless that is an interval with more digits than
`int` converts. -/
theorem totalOn_iff (isValid : String → Bool) (cron : String) :
  TotalOn isValid cron
    ↔ ∀ group, fullmatchInterval (strip cron.toList) = some group →
      group.digits.length ≤ maxStrDigits
  := by
  rw [← validatePgCronSchedule_ne_valueError_iff isValid]
  constructor
  · intro h
    exact ne_valueError_iff.mpr h.validate
  · intro h
    refine ⟨ne_valueError_iff.mp h, ?_⟩
    intro backendErrors v hcron
    have hclean := (clean_ne_valueError_iff isValid backendErrors v).mpr (hcron ▸ h)
    rcases hresult : v.clean isValid backendErrors with (errors | _) | ⟨⟩
    · exact .inr ⟨errors, rfl⟩
    · exact absurd hresult hclean
    · exact .inl rfl

/-- An interval written with `n` ones. -/
def onesInterval (n : ℕ) : String := String.ofList (List.replicate n '1' ++ ' ' :: second)

/-- With more ones than `int` converts, the `ValueError` escapes. -/
theorem validatePgCronSchedule_onesInterval (isValid : String → Bool) {n : ℕ}
    (h : maxStrDigits < n) :
  validatePgCronSchedule isValid (onesInterval n) = .error .valueError
  := by
  have hshape : IntervalShape ⟨none, List.replicate n '1'⟩ [' '] second := by
    refine ⟨.inl rfl, ?_, ?_, List.forall_mem_singleton.mpr rfl, .inl rfl⟩
    · apply List.ne_nil_of_length_pos
      rw [List.length_replicate]
      exact Nat.zero_lt_of_lt h
    · intro c hc
      rw [List.eq_of_mem_replicate hc]
      rfl
  have htext : IntervalText (onesInterval n).toList ⟨none, List.replicate n '1'⟩ :=
    ⟨[], [' '], second, [], by simp [onesInterval, intervalCore], hshape, by simp, by simp⟩
  have hmatch := fullmatchInterval_complete (intervalText_iff_strip.mp htext).1
  rw [validatePgCronSchedule_interval hmatch, List.length_replicate, if_pos h]

/-- At 4301 digits the validator raises what `ScheduledTask.clean` does not catch. -/
theorem onesInterval_escapes :
  ¬ TotalOn (fun _ => false) (onesInterval 4301)
  := by
  intro h
  have hraises := validatePgCronSchedule_onesInterval (fun _ => false) (n := 4301) (by decide)
  exact ne_valueError_iff.mpr h.validate hraises

end DjangoAbsurd
