import DjangoAbsurd.Library.Table
import Mathlib.Algebra.BigOperators.Group.List.Basic
import Mathlib.Algebra.Order.Field.Rat
import Mathlib.Tactic.Linarith

/-!
# What a phase cost, statement by statement

`build_statement_stats` takes the difference of two snapshots of `pg_stat_statements`. A row of
the view is a statement and a level: the server counts a statement that a function runs inside
itself apart from the same statement sent by a client. The baseline is looked up by the statement
alone.
-/

namespace DjangoAbsurd.Benchmarks

/-- The counters of a row. -/
structure Counters where
  calls : ℤ
  totalExecMs : ℚ
  rows : ℤ
  deriving DecidableEq, Repr

/-- A row of `pg_stat_statements`. -/
structure StatementRow where
  queryid : ℤ
  query : String
  toplevel : Bool
  counters : Counters
  deriving DecidableEq, Repr

/-- What identifies a row. -/
def StatementRow.ident (row : StatementRow) : ℤ × Bool := (row.queryid, row.toplevel)

/-- The rows of one database at a time. -/
abbrev Snapshot := Keyed.Table StatementRow.ident

/-- `STATEMENT_STATS_LIMIT`. -/
def statementStatsLimit : ℕ := 15

/-- `UNSEEN_STATEMENT`. -/
def unseenStatement : Counters := ⟨0, 0, 0⟩

/-- `{row["queryid"]: row for row in before}`: the last row with the id. -/
def baseline (before : Snapshot) (queryid : ℤ) : Option StatementRow :=
  before.rows.reverse.find? (fun row => row.queryid = queryid)

/-- The figures of a statement for one task. -/
structure StatementDelta where
  query : String
  toplevel : Bool
  callsPerTask : ℚ
  totalExecMsPerTask : ℚ
  rowsPerTask : ℚ
  deriving DecidableEq, Repr

/-- The counters of a row since they were `was`, divided by the number of runs. -/
def deltaSince (was : Counters) (nRuns : ℕ) (row : StatementRow) : StatementDelta where
  query := row.query
  toplevel := row.toplevel
  callsPerTask := ((row.counters.calls - was.calls : ℤ) : ℚ) / nRuns
  totalExecMsPerTask := (row.counters.totalExecMs - was.totalExecMs) / nRuns
  rowsPerTask := ((row.counters.rows - was.rows : ℤ) : ℚ) / nRuns

/-- The counters a row is diffed against. -/
def was (before : Snapshot) (row : StatementRow) : Counters :=
  ((baseline before row.queryid).map StatementRow.counters).getD unseenStatement

/-- `describe_statement_delta`. -/
def describeStatementDelta (before : Snapshot) (nRuns : ℕ) (row : StatementRow) :
    StatementDelta :=
  deltaSince (was before row) nRuns row

/-- What a phase cost for one task. -/
structure StatementStats where
  statements : List StatementDelta
  wallMsPerTask : ℚ
  serverExecMsPerTask : ℚ
  clientMsPerTask : ℚ

/-- The deltas of the statements that were called. -/
def issued (before after : Snapshot) (nRuns : ℕ) : List StatementDelta :=
  (after.rows.map (describeStatementDelta before nRuns)).filter
    (fun delta => delta.callsPerTask ≠ 0)

/-- The deltas with the most execution time, the most first. -/
def largest (deltas : List StatementDelta) : List StatementDelta :=
  (deltas.mergeSort (fun a b => b.totalExecMsPerTask ≤ a.totalExecMsPerTask)).take
    statementStatsLimit

/-- `build_statement_stats`. -/
def buildStatementStats (before after : Option Snapshot) (nRuns : ℕ) (phaseS : ℚ) :
    Option StatementStats :=
  match before, after with
  | some before, some after =>
      if nRuns = 0 then none
      else
        let deltas := issued before after nRuns
        let serverMs := ((deltas.filter StatementDelta.toplevel).map
          StatementDelta.totalExecMsPerTask).sum
        let wallMs := 1000 * phaseS / nRuns
        some {
          statements := largest deltas
          wallMsPerTask := wallMs
          serverExecMsPerTask := serverMs
          clientMsPerTask := wallMs - serverMs }
  | _, _ => none

/-! ### Attribution -/

/-- The earlier counters of a row, zero if it is new. -/
def earlier (before : Snapshot) (row : StatementRow) : Counters :=
  ((before.get? row.ident).map StatementRow.counters).getD unseenStatement

/-- Counters that did not decrease. -/
structure Counters.Grows (was now : Counters) : Prop where
  calls : was.calls ≤ now.calls
  totalExecMs : was.totalExecMs ≤ now.totalExecMs
  rows : was.rows ≤ now.rows

/-- Two snapshots of one database, the one after the other: a row stays and its counters never
decrease. -/
structure Follows (before after : Snapshot) : Prop where
  stays : ∀ row ∈ before.rows, ∃ row' ∈ after.rows, row'.ident = row.ident
  grows : ∀ row ∈ after.rows, (earlier before row).Grows row.counters

/-- The row was called in between. -/
def Called (before : Snapshot) (row : StatementRow) : Prop :=
  (earlier before row).calls < row.counters.calls

instance (before : Snapshot) (row : StatementRow) : Decidable (Called before row) :=
  inferInstanceAs (Decidable (_ < _))

/-- The figures of a row: its own counters, less its own earlier ones. -/
def ownDelta (before : Snapshot) (nRuns : ℕ) (row : StatementRow) : StatementDelta :=
  deltaSince (earlier before row) nRuns row

/-- The figures of the rows that were called. -/
def ownDeltas (before after : Snapshot) (nRuns : ℕ) : List StatementDelta :=
  (after.rows.filter (fun row => Called before row)).map (ownDelta before nRuns)

/-- A delta without negative figures. -/
structure StatementDelta.Nonneg (delta : StatementDelta) : Prop where
  calls : 0 ≤ delta.callsPerTask
  totalExecMs : 0 ≤ delta.totalExecMsPerTask
  rows : 0 ≤ delta.rowsPerTask

/-- The deltas are attributed to the right rows: what is reported for a row is its own delta, no
row that was called is left out, the statements are the largest of these deltas, and the server time
is their sum over the top-level rows. -/
structure Attributed (before after : Snapshot) (nRuns : ℕ) (stats : StatementStats) : Prop where
  reported : ∀ row ∈ after.rows,
    describeStatementDelta before nRuns row ∈ issued before after nRuns →
      describeStatementDelta before nRuns row = ownDelta before nRuns row
        ∧ (describeStatementDelta before nRuns row).Nonneg
  complete : ∀ row ∈ after.rows, Called before row →
    describeStatementDelta before nRuns row ∈ issued before after nRuns
  statements : stats.statements = largest (ownDeltas before after nRuns)
  listed : ∀ delta ∈ stats.statements, ∃ row ∈ after.rows,
    Called before row ∧ delta = ownDelta before nRuns row ∧ delta.Nonneg
  server : stats.serverExecMsPerTask = ((after.rows.filter (fun row => row.toplevel
    ∧ (earlier before row).calls < row.counters.calls)).map
      (fun row => (ownDelta before nRuns row).totalExecMsPerTask)).sum

/-- The baseline has the row of the other level for the statement, with other counters than the
row itself had, as far as they matter. -/
def Interferes (before : Snapshot) (row : StatementRow) : Prop :=
  ∃ other, baseline before row.queryid = some other ∧ other.toplevel ≠ row.toplevel
    ∧ (other.counters.calls ≠ (earlier before row).calls
      ∨ Called before row ∧ other.counters ≠ earlier before row)

section

variable {before after : Snapshot} {row other : StatementRow} {nRuns : ℕ} {stats : StatementStats}
  {phaseS : ℚ}

theorem baseline_eq_some (h : baseline before row.queryid = some other) :
  other ∈ before.rows ∧ other.queryid = row.queryid
  := by
  have hfound := List.find?_some h
  exact ⟨List.mem_reverse.mp (List.mem_of_find?_eq_some h), of_decide_eq_true hfound⟩

/-- Where the baseline has no row of the other level, it has the row itself. -/
theorem was_eq_earlier
    (h : ∀ other, baseline before row.queryid = some other → other.toplevel = row.toplevel) :
  was before row = earlier before row
  := by
  rw [was, earlier]
  cases hbaseline : baseline before row.queryid with
  | none =>
      rw [baseline, List.find?_eq_none] at hbaseline
      have hnone : before.get? row.ident = none := by
        rw [Keyed.Table.get?_eq_none]
        intro r hr hident
        apply hbaseline r (List.mem_reverse.mpr hr)
        exact decide_eq_true (congrArg Prod.fst hident)
      rw [hnone]
  | some other =>
      obtain ⟨hmem, hqueryid⟩ := baseline_eq_some hbaseline
      have hident : row.ident = other.ident := Prod.ext hqueryid.symm (h other hbaseline).symm
      rw [hident, Keyed.Table.get?_of_mem hmem]

/-- The counters a row is diffed against are its own, as far as they matter, unless the other
level interferes. -/
theorem not_interferes_iff :
  ¬ Interferes before row ↔ (was before row).calls = (earlier before row).calls
    ∧ (Called before row → was before row = earlier before row)
  := by
  by_cases hlevel : ∀ other, baseline before row.queryid = some other →
      other.toplevel = row.toplevel
  · rw [was_eq_earlier hlevel]
    simp only [implies_true, and_self, iff_true]
    rintro ⟨other, hbaseline, hother, -⟩
    exact hother (hlevel other hbaseline)
  · obtain ⟨other, hlevel⟩ := not_forall.mp hlevel
    obtain ⟨hbaseline, hother⟩ := Classical.not_imp.mp hlevel
    have hwas : was before row = other.counters := by
      rw [was, hbaseline]
      rfl
    rw [hwas]
    constructor
    · intro hnot
      constructor
      · by_contra hcalls
        exact hnot ⟨other, hbaseline, hother, .inl hcalls⟩
      · intro hcalled
        by_contra hcounters
        exact hnot ⟨other, hbaseline, hother, .inr ⟨hcalled, hcounters⟩⟩
    · rintro ⟨hcalls, hcounters⟩ ⟨other', hbaseline', -, hdiffers⟩
      obtain rfl := Option.some.inj (hbaseline.symm.trans hbaseline')
      rcases hdiffers with hdiffers | ⟨hcalled, hdiffers⟩
      · exact hdiffers hcalls
      · exact hdiffers (hcounters hcalled)

theorem callsPerTask_ne_zero_iff (hn : nRuns ≠ 0) :
  (describeStatementDelta before nRuns row).callsPerTask ≠ 0
    ↔ row.counters.calls ≠ (was before row).calls
  := by
  rw [describeStatementDelta, deltaSince, div_ne_zero_iff, Int.cast_ne_zero, sub_ne_zero]
  exact and_iff_left (Nat.cast_ne_zero.mpr hn)

/-- A delta is issued when the calls are not those of the baseline. -/
theorem mem_issued_iff (hn : nRuns ≠ 0) (hrow : row ∈ after.rows) :
  describeStatementDelta before nRuns row ∈ issued before after nRuns
    ↔ row.counters.calls ≠ (was before row).calls
  := by
  rw [← callsPerTask_ne_zero_iff hn, issued, List.mem_filter, decide_eq_true_iff]
  exact and_iff_right (List.mem_map_of_mem hrow)

/-- A delta tells the counters it was taken against. -/
theorem deltaSince_inj {was was' : Counters} (hn : nRuns ≠ 0)
    (h : deltaSince was nRuns row = deltaSince was' nRuns row) :
  was = was'
  := by
  have hne : (nRuns : ℚ) ≠ 0 := Nat.cast_ne_zero.mpr hn
  obtain ⟨calls, totalExecMs, rows⟩ := was
  obtain ⟨calls', totalExecMs', rows'⟩ := was'
  have hcalls := congrArg StatementDelta.callsPerTask h
  have htotal := congrArg StatementDelta.totalExecMsPerTask h
  have hrows := congrArg StatementDelta.rowsPerTask h
  simp only [deltaSince, div_left_inj' hne, Int.cast_inj, sub_right_inj] at hcalls htotal hrows
  rw [hcalls, htotal, hrows]

/-- The delta of counters that grew has no negative figures. -/
theorem nonneg_deltaSince {was : Counters} (h : was.Grows row.counters) :
  (deltaSince was nRuns row).Nonneg
  where
  calls := div_nonneg (Int.cast_nonneg (sub_nonneg.mpr h.calls)) (Nat.cast_nonneg nRuns)
  totalExecMs := div_nonneg (sub_nonneg.mpr h.totalExecMs) (Nat.cast_nonneg nRuns)
  rows := div_nonneg (Int.cast_nonneg (sub_nonneg.mpr h.rows)) (Nat.cast_nonneg nRuns)

theorem stats_eq (hstats : buildStatementStats (some before) (some after) nRuns phaseS
    = some stats) :
  nRuns ≠ 0 ∧ stats.statements = largest (issued before after nRuns)
    ∧ stats.serverExecMsPerTask = (((issued before after nRuns).filter
      StatementDelta.toplevel).map StatementDelta.totalExecMsPerTask).sum
  := by
  rw [buildStatementStats] at hstats
  split at hstats
  · cases hstats
  · rename_i hn
    use hn
    rw [← Option.some.inj hstats]
    exact ⟨rfl, rfl⟩

/-- A row whose level is not interfered with is issued exactly when it was called, and then with
its own figures. -/
theorem issued_own (hn : nRuns ≠ 0) (hgrows : (earlier before row).Grows row.counters)
    (hnot : ¬ Interferes before row) :
  ((describeStatementDelta before nRuns row).callsPerTask ≠ 0 ↔ Called before row)
    ∧ (Called before row → describeStatementDelta before nRuns row = ownDelta before nRuns row)
  := by
  obtain ⟨hcalls, hwas⟩ := not_interferes_iff.mp hnot
  constructor
  · rw [callsPerTask_ne_zero_iff hn, hcalls]
    constructor
    · exact fun hne => lt_of_le_of_ne hgrows.calls hne.symm
    · exact fun hlt => hlt.ne'
  · intro hcalled
    rw [describeStatementDelta, hwas hcalled, ownDelta]

/-- Where no level interferes, the deltas are the rows' own. -/
theorem issued_eq_ownDeltas (hn : nRuns ≠ 0) (hfollows : Follows before after)
    (hnone : ∀ row ∈ after.rows, ¬ Interferes before row) :
  issued before after nRuns = ownDeltas before after nRuns
  := by
  have hfilter : after.rows.filter ((fun delta => decide (delta.callsPerTask ≠ 0))
        ∘ describeStatementDelta before nRuns)
      = after.rows.filter (fun row => Called before row) := by
    apply List.filter_congr
    intro row hrow
    apply decide_eq_decide.mpr
    exact (issued_own hn (hfollows.grows row hrow) (hnone row hrow)).1
  rw [issued, List.filter_map, hfilter, ownDeltas]
  apply List.map_congr_left
  intro row hrow
  obtain ⟨hmem, hcalled⟩ := List.mem_filter.mp hrow
  exact (issued_own hn (hfollows.grows row hmem) (hnone row hmem)).2 (of_decide_eq_true hcalled)

theorem mem_largest {deltas : List StatementDelta} {delta : StatementDelta}
    (h : delta ∈ largest deltas) :
  delta ∈ deltas
  := List.mem_mergeSort.mp (List.mem_of_mem_take h)

/-- The figures of a phase are attributed to the right rows exactly when for no row of the later
snapshot the other level of its statement interferes. -/
theorem attributed_iff (hfollows : Follows before after)
    (hstats : buildStatementStats (some before) (some after) nRuns phaseS = some stats) :
  Attributed before after nRuns stats ↔ ∀ row ∈ after.rows, ¬ Interferes before row
  := by
  obtain ⟨hn, hstatements, hserver⟩ := stats_eq hstats
  constructor
  · intro hattributed row hrow
    have hsame : describeStatementDelta before nRuns row ∈ issued before after nRuns →
        was before row = earlier before row :=
      fun hissued => deltaSince_inj hn (hattributed.reported row hrow hissued).1
    rw [not_interferes_iff]
    refine ⟨?_, fun hcalled => hsame (hattributed.complete row hrow hcalled)⟩
    by_cases hissued : describeStatementDelta before nRuns row ∈ issued before after nRuns
    · rw [hsame hissued]
    · have hnot : ¬ Called before row :=
        fun hcalled => hissued (hattributed.complete row hrow hcalled)
      rw [mem_issued_iff hn hrow, not_not] at hissued
      rw [← hissued]
      exact le_antisymm (not_lt.mp hnot) (hfollows.grows row hrow).calls
  · intro hnone
    have hissued := issued_eq_ownDeltas hn hfollows hnone
    have hown : ∀ {row}, row ∈ after.rows →
        (describeStatementDelta before nRuns row ∈ issued before after nRuns
          ↔ Called before row) := by
      intro row hrow
      rw [mem_issued_iff hn hrow, ← callsPerTask_ne_zero_iff hn]
      exact (issued_own hn (hfollows.grows row hrow) (hnone row hrow)).1
    constructor
    · intro row hrow hmem
      have hdelta := (issued_own hn (hfollows.grows row hrow) (hnone row hrow)).2
        ((hown hrow).mp hmem)
      use hdelta
      rw [hdelta]
      exact nonneg_deltaSince (hfollows.grows row hrow)
    · exact fun row hrow hcalled => (hown hrow).mpr hcalled
    · rw [hstatements, hissued]
    · intro delta hdelta
      rw [hstatements, hissued] at hdelta
      obtain ⟨row, hrow, rfl⟩ := List.mem_map.mp (mem_largest hdelta)
      obtain ⟨hmem, hcalled⟩ := List.mem_filter.mp hrow
      use row, hmem, of_decide_eq_true hcalled, rfl
      exact nonneg_deltaSince (hfollows.grows row hmem)
    · rw [hserver, hissued, ownDeltas, List.filter_map, List.map_map, List.filter_filter]
      have hfilter : after.rows.filter (fun row => (StatementDelta.toplevel
            ∘ ownDelta before nRuns) row && decide (Called before row))
          = after.rows.filter (fun row => row.toplevel
            ∧ (earlier before row).calls < row.counters.calls) := by
        apply List.filter_congr
        intro row _
        rw [Bool.decide_and, Bool.decide_eq_true]
        rfl
      rw [hfilter]
      rfl

end

/-! ### A statement at both levels -/

/-- A statement that clients sent ten times and functions three times. -/
def bothLevels : Snapshot where
  rows := [⟨1, "select 1", true, ⟨10, 100, 10⟩⟩, ⟨1, "select 1", false, ⟨3, 9, 3⟩⟩]
  nodup := by decide

/-- Clients sent it twice more. -/
def twiceMore : Snapshot where
  rows := [⟨1, "select 1", true, ⟨12, 120, 12⟩⟩, ⟨1, "select 1", false, ⟨3, 9, 3⟩⟩]
  nodup := by decide

theorem follows_twiceMore :
  Follows bothLevels twiceMore
  := by
  constructor
  · decide
  · intro row hrow
    rcases List.mem_cons.mp hrow with rfl | hrow
    · constructor <;> decide
    · obtain rfl := List.mem_singleton.mp hrow
      constructor <;> decide

/-- The stats of a run in between. -/
def twiceMoreStats : StatementStats where
  statements := largest (issued bothLevels twiceMore 1)
  wallMsPerTask := 1000 * 1 / (1 : ℕ)
  serverExecMsPerTask := (((issued bothLevels twiceMore 1).filter StatementDelta.toplevel).map
    StatementDelta.totalExecMsPerTask).sum
  clientMsPerTask := 1000 * 1 / (1 : ℕ) - (((issued bothLevels twiceMore 1).filter
    StatementDelta.toplevel).map StatementDelta.totalExecMsPerTask).sum

theorem interferes_bothLevels :
  Interferes bothLevels ⟨1, "select 1", true, ⟨12, 120, 12⟩⟩
  := ⟨⟨1, "select 1", false, ⟨3, 9, 3⟩⟩, rfl, by decide, .inl (by decide)⟩

theorem attributed_iff_twiceMore :
  ¬ Attributed bothLevels twiceMore 1 twiceMoreStats
  := by
  rw [attributed_iff follows_twiceMore (show buildStatementStats (some bothLevels)
    (some twiceMore) 1 1 = some twiceMoreStats from rfl)]
  intro h
  exact h _ List.mem_cons_self interferes_bothLevels

/-- A statement that was called at both levels is not attributed to the right one. -/
theorem statement_misattributed :
  ¬ ∀ (before after : Snapshot) (nRuns : ℕ) (phaseS : ℚ) (stats : StatementStats),
    Follows before after →
      buildStatementStats (some before) (some after) nRuns phaseS = some stats →
        Attributed before after nRuns stats
  := by
  intro h
  have hattributed := h bothLevels twiceMore 1 1 twiceMoreStats follows_twiceMore rfl
  have hissued : describeStatementDelta bothLevels 1 ⟨1, "select 1", true, ⟨12, 120, 12⟩⟩
      ∈ issued bothLevels twiceMore 1 :=
    (mem_issued_iff one_ne_zero List.mem_cons_self).mpr (by decide)
  obtain ⟨hown, -⟩ := hattributed.reported _ List.mem_cons_self hissued
  have hcounters : (⟨3, 9, 3⟩ : Counters) = ⟨10, 100, 10⟩ := deltaSince_inj one_ne_zero hown
  cases hcounters

end DjangoAbsurd.Benchmarks
