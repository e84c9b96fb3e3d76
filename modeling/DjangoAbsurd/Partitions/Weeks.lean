import Mathlib.Tactic.Linarith

/-!
# Weeks and their tags

A partition holds a week, from Monday to Monday in UTC, and is named by the last digit of the ISO
year and the ISO week. Two weeks share a tag only when they are ten years apart
(`partitionWeekTag_inj`).
-/

namespace DjangoAbsurd.Partitions

/-- A day, in microseconds. -/
def day : ℤ := 86400000000

/-- `interval '7 days'`. -/
def week : ℤ := 7 * day

/-! ### The calendar -/

/-- The Monday of the week of a day, counted from 1 January 1970, a Thursday. -/
def monday (d : ℤ) : ℤ := d - (d + 3) % 7

/-- The leap years up to a year. -/
def leapYears (y : ℤ) : ℤ := y / 4 - y / 100 + y / 400

/-- The days from 1 January 1970 to 1 January of a year. -/
def yearStart (y : ℤ) : ℤ := 365 * (y - 1970) + leapYears (y - 1) - leapYears 1969

/-- The year of a day, when a year has 365.2425 days, give or take one. -/
def roughYear (d : ℤ) : ℤ := 1970 + 400 * d / 146097

/-- The year of a day. -/
def yearOf (d : ℤ) : ℤ :=
  if d < yearStart (roughYear d) then roughYear d - 1
  else if yearStart (roughYear d + 1) ≤ d then roughYear d + 1
  else roughYear d

theorem roughYear_spec (d : ℤ) :
  yearStart (roughYear d - 1) ≤ d ∧ d < yearStart (roughYear d + 2)
  := by
  simp only [roughYear, yearStart, leapYears]
  constructor <;> omega

/-- A day is in its year. -/
theorem yearOf_spec (d : ℤ) :
  yearStart (yearOf d) ≤ d ∧ d < yearStart (yearOf d + 1)
  := by
  obtain ⟨hlower, hupper⟩ := roughYear_spec d
  rw [yearOf]
  split
  · rename_i hbefore
    rw [sub_add_cancel]
    exact ⟨hlower, hbefore⟩
  · rename_i hbefore
    split
    · rename_i hafter
      rw [add_assoc]
      exact ⟨hafter, hupper⟩
    · rename_i hafter
      exact ⟨not_lt.mp hbefore, not_le.mp hafter⟩

/-- `extract(isoyear from ts)`: the year of the Thursday of the week. -/
def isoYear (d : ℤ) : ℤ := yearOf (monday d + 3)

/-- `extract(week from ts)`: the place of the Thursday among those of its year. -/
def isoWeek (d : ℤ) : ℤ := (monday d + 3 - yearStart (isoYear d)) / 7 + 1

/-- `absurd.week_bucket_utc`. -/
def weekBucketUtc (ts : ℤ) : ℤ := monday (ts / day) * day

/-- `lpad(s, n, c)` for a text that is not longer. -/
def lpad (s : String) (n : ℕ) (c : Char) : String :=
  String.ofList (List.replicate (n - s.length) c) ++ s

/-- `absurd.partition_week_tag`. -/
def partitionWeekTag (ts : ℤ) : String :=
  let d := weekBucketUtc ts / day
  toString (isoYear d % 10).toNat ++ lpad (toString (isoWeek d).toNat) 2 '0'

/-! ### Weeks -/

theorem monday_monday (d : ℤ) :
  monday (monday d) = monday d
  := by
  simp only [monday]
  omega

theorem weekBucketUtc_div (ts : ℤ) :
  weekBucketUtc ts / day = monday (ts / day)
  := Int.mul_ediv_cancel _ (by decide)

/-- The bucket of a moment is the start of the week it is in. -/
theorem weekBucketUtc_eq_iff {ts start : ℤ} (hstart : weekBucketUtc start = start) :
  weekBucketUtc ts = start ↔ start ≤ ts ∧ ts < start + week
  := by
  simp only [weekBucketUtc, monday, week, day] at hstart ⊢
  omega

theorem weekBucketUtc_add_week (ts : ℤ) :
  weekBucketUtc (ts + week) = weekBucketUtc ts + week
  := by
  simp only [weekBucketUtc, monday, week, day]
  omega

theorem weekBucketUtc_self (ts : ℤ) :
  weekBucketUtc (weekBucketUtc ts) = weekBucketUtc ts
  := by
  rw [weekBucketUtc, weekBucketUtc_div, monday_monday, weekBucketUtc]

/-- Weeks that overlap are the same. -/
theorem eq_of_near {a b : ℤ} (ha : weekBucketUtc a = a) (hb : weekBucketUtc b = b)
    (hab : a < b + week) (hba : b < a + week) :
  a = b
  := by
  rcases le_total b a with hle | hle
  · rw [← (weekBucketUtc_eq_iff hb).mpr ⟨hle, hab⟩, ha]
  · rw [← (weekBucketUtc_eq_iff ha).mpr ⟨hle, hba⟩, hb]

/-- The weeks from one to another are a whole number. -/
theorem exists_weeks {a b : ℤ} (ha : weekBucketUtc a = a) (hb : weekBucketUtc b = b) (hle : a ≤ b) :
  ∃ n : ℕ, b = a + n * week ∧ (n : ℤ) = (b - a) / week
  := by
  simp only [weekBucketUtc, monday, week, day] at ha hb ⊢
  use ((b - a) / (7 * 86400000000)).toNat
  omega

/-- Weeks begin at a full millisecond. -/
theorem week_ms {a : ℤ} (ha : weekBucketUtc a = a) :
  a = a / 1000 * 1000
  := by
  simp only [weekBucketUtc, monday, day] at ha
  omega

/-- A moment is in the week of its millisecond. -/
theorem weekBucketUtc_ms (ts : ℤ) :
  weekBucketUtc (ts / 1000 * 1000) = weekBucketUtc ts
  := by
  have hday : ts / 1000 * 1000 / day = ts / day := by
    rw [day]
    omega
  rw [weekBucketUtc, hday, weekBucketUtc]

/-! ### Tags -/

theorem isoWeek_range (d : ℤ) :
  1 ≤ isoWeek d ∧ isoWeek d ≤ 53
  := by
  obtain ⟨hlower, hupper⟩ := yearOf_spec (monday d + 3)
  have hlength :
      yearStart (yearOf (monday d + 3) + 1) ≤ yearStart (yearOf (monday d + 3)) + 366 := by
    simp only [yearStart, leapYears]
    omega
  rw [isoWeek, isoYear]
  constructor <;> omega

/-- Ten years have at least 3651 days. -/
theorem yearStart_add_ten {y y' : ℤ} (h : y + 10 ≤ y') :
  yearStart y + 3651 ≤ yearStart y'
  := by
  simp only [yearStart, leapYears]
  omega

/-- Weeks of the same number in years of the same last digit are the same or ten years apart. -/
theorem eq_or_apart {d e : ℤ} (hd : monday d = d) (he : monday e = e)
    (hyear : isoYear d % 10 = isoYear e % 10) (hweek : isoWeek d = isoWeek e) :
  d = e ∨ d + 521 * 7 ≤ e ∨ e + 521 * 7 ≤ d
  := by
  have hyears :
      isoYear d = isoYear e ∨ isoYear d + 10 ≤ isoYear e ∨ isoYear e + 10 ≤ isoYear d := by
    omega
  simp only [isoWeek, hd, he] at hweek
  simp only [monday] at hd he
  rcases hyears with heq | hle | hle
  · rw [heq] at hweek
    left
    omega
  · have hten := yearStart_add_ten hle
    right
    left
    omega
  · have hten := yearStart_add_ten hle
    right
    right
    omega

theorem toList_tag {y w : ℕ} (hy : y < 10) (hw : w < 54) :
  (toString y ++ lpad (toString w) 2 '0').toList
    = [Nat.digitChar y, Nat.digitChar (w / 10), Nat.digitChar (w % 10)]
  := by
  have hyear : ∀ y : Fin 10, (toString y.val).toList = [Nat.digitChar y.val] := by decide
  have hweek : ∀ w : Fin 54, (lpad (toString w.val) 2 '0').toList
      = [Nat.digitChar (w.val / 10), Nat.digitChar (w.val % 10)] := by decide
  rw [String.toList_append, hyear ⟨y, hy⟩, hweek ⟨w, hw⟩]
  rfl

theorem digitChar_inj {m n : ℕ} (hm : m < 10) (hn : n < 10)
    (h : Nat.digitChar m = Nat.digitChar n) :
  m = n
  := by
  have hcode := congrArg Char.toNat h
  rw [Nat.toNat_digitChar_of_lt_ten hm, Nat.toNat_digitChar_of_lt_ten hn] at hcode
  omega

theorem toList_partitionWeekTag (ts : ℤ) :
  ∃ y < 10, ∃ w < 54, (partitionWeekTag ts).toList
    = [Nat.digitChar y, Nat.digitChar (w / 10), Nat.digitChar (w % 10)]
  := by
  obtain ⟨hlower, hupper⟩ := isoWeek_range (weekBucketUtc ts / day)
  have hy : (isoYear (weekBucketUtc ts / day) % 10).toNat < 10 := by omega
  have hw : (isoWeek (weekBucketUtc ts / day)).toNat < 54 := by omega
  exact ⟨_, hy, _, hw, toList_tag hy hw⟩

/-- Two weeks with one tag are the same or ten years apart. -/
theorem partitionWeekTag_inj {a b : ℤ} (h : partitionWeekTag a = partitionWeekTag b) :
  weekBucketUtc a = weekBucketUtc b ∨ weekBucketUtc a + 521 * week ≤ weekBucketUtc b
    ∨ weekBucketUtc b + 521 * week ≤ weekBucketUtc a
  := by
  simp only [partitionWeekTag, weekBucketUtc_div] at h
  have hlist := congrArg String.toList h
  obtain ⟨ha, ha'⟩ := isoWeek_range (monday (a / day))
  obtain ⟨hb, hb'⟩ := isoWeek_range (monday (b / day))
  rw [toList_tag (by omega) (by omega), toList_tag (by omega) (by omega)] at hlist
  simp only [List.cons.injEq, and_true] at hlist
  obtain ⟨hyear, htens, hones⟩ := hlist
  have hyear := digitChar_inj (by omega) (by omega) hyear
  have htens := digitChar_inj (by omega) (by omega) htens
  have hones := digitChar_inj (by omega) (by omega) hones
  have hyear : isoYear (monday (a / day)) % 10 = isoYear (monday (b / day)) % 10 := by omega
  have hweek : isoWeek (monday (a / day)) = isoWeek (monday (b / day)) := by omega
  have hcases := eq_or_apart (monday_monday (a / day)) (monday_monday (b / day)) hyear hweek
  simp only [weekBucketUtc, week, day] at hcases ⊢
  omega

end DjangoAbsurd.Partitions
