import DjangoAbsurd.Partitions.Ending

/-!
# Rows of partitions that are detached

The job that detaches a partition may run long after it was planned, but it is about a week that has
ended (`Jobs.Sound`). So the jobs take no row of tasks or runs away (`rows_kept`). The rows of
checkpoints and waits are inserted under the key of their task or run, which may be of a week that
has ended long ago.
-/

namespace DjangoAbsurd.Partitions

open Keyed (Table)

/-! ### The names of the jobs -/

theorem like_append_self {a pattern text : List Char} (ha : '\\' ∉ a)
    (h : like pattern text = true) :
  like (a ++ pattern) (a ++ text) = true
  := by
  induction a with
  | nil => exact h
  | cons c a ih =>
      obtain ⟨hc, ha⟩ := not_or.mp (fun hmem => ha (List.mem_cons.mpr hmem))
      have hrest := ih ha
      rw [List.cons_append, List.cons_append]
      by_cases hpercent : c = '%'
      · subst hpercent
        rw [like, List.any_eq_true]
        exact ⟨a ++ text, by simp [List.mem_tails], hrest⟩
      · by_cases hunderscore : c = '_'
        · subst hunderscore
          exact hrest
        · rw [like]
          · simp [hrest]
          · exact hpercent
          · exact hunderscore
          · rintro c' rest rfl -
            exact hc rfl

theorem like_percent (skipped : List Char) {pattern text : List Char}
    (h : like pattern text = true) :
  like ('%' :: pattern) (skipped ++ text) = true
  := by
  rw [like, List.any_eq_true]
  exact ⟨text, by simp [List.mem_tails], h⟩

variable {server : Server} {d : Md5}

theorem Md5.backslash_not_mem (d : Md5) (s : String) (n : ℕ) :
  '\\' ∉ (d.front s n).toList
  := by
  intro hmem
  rw [Md5.front, String.toList_ofList] at hmem
  exact absurd (List.all_eq_true.mp (d.hex s) _ (List.mem_of_mem_take hmem)) (by decide)

/-- The jobs of a partition keep its table busy. -/
theorem busy_of_mem {jobs : Jobs} {j : MaintenanceJob} (hj : j ∈ jobs.rows)
    {scope parent partition : String}
    (hname : j.jobname = detachHead ++ jobSuffix d scope parent partition
      ∨ j.jobname = dropHead ++ jobSuffix d scope parent partition) :
  jobs.busy (d.front parent 8) = true
  := by
  have hkey : '\\' ∉ "_".toList ++ (d.front parent 8).toList ++ "_".toList := by
    rw [List.mem_append, List.mem_append, not_or, not_or]
    exact ⟨⟨by decide, d.backslash_not_mem parent 8⟩, by decide⟩
  have hrest : like ['%'] (d.front (parent ++ ":" ++ partition) 12).toList = true := by
    have hnil : like [] [] = true := rfl
    have hall := like_percent (d.front (parent ++ ":" ++ partition) 12).toList hnil
    rwa [List.append_nil] at hall
  have hsuffix := like_percent scope.toList (like_append_self hkey hrest)
  rw [Jobs.busy, Bool.or_eq_true]
  rcases hname with hname | hname
  · left
    rw [Jobs.like, List.any_eq_true]
    use j, hj
    have hlike := like_append_self (a := detachHead.toList) (by decide) hsuffix
    simpa [hname, jobSuffix, String.toList_append] using hlike
  · right
    rw [Jobs.like, List.any_eq_true]
    use j, hj
    have hlike := like_append_self (a := dropHead.toList) (by decide) hsuffix
    simpa [hname, jobSuffix, String.toList_append] using hlike

/-- The detach job is derived from the name of the drop job. -/
theorem detachJobName_dropHead (suffix : String) :
  detachJobName (dropHead ++ suffix) = some (detachHead ++ suffix)
  := by
  have hlike : like (dropHead ++ "%").toList (dropHead ++ suffix).toList = true := by
    have hall := like_percent suffix.toList (rfl : like [] [] = true)
    rw [List.append_nil] at hall
    rw [String.toList_append, String.toList_append]
    exact like_append_self (by decide) hall
  rw [detachJobName, if_pos hlike, String.toList_append, ← String.length_toList, List.drop_left,
    String.ofList_toList]

/-! ### Sound worlds -/

/-- The job is the detach job or the drop job of a partition. -/
def MaintenanceJob.IsOf (j : MaintenanceJob) (d : Md5) (scope : String) (f : Family) (q : String)
    (weekStart : ℤ) : Prop :=
  let suffix := jobSuffix d scope (parentTable f q) (weekTable f q weekStart)
  (∃ concurrently, j = detachJob suffix (parentTable f q) (weekTable f q weekStart) concurrently)
    ∨ j = dropJob suffix (weekTable f q weekStart)

/-- The name of a job without what says whether it detaches or drops. -/
def MaintenanceJob.suffix (j : MaintenanceJob) : List Char :=
  match j.command with
  | .detach _ _ _ => j.jobname.toList.drop detachHead.toList.length
  | .drop _ _ => j.jobname.toList.drop dropHead.toList.length

def Command.partition : Command → String
  | detach _ partition _ => partition
  | drop partition _ => partition

section

variable {j : MaintenanceJob} {scope : String} {f : Family} {q : String} {weekStart : ℤ}

theorem MaintenanceJob.IsOf.jobname (h : j.IsOf d scope f q weekStart) :
  j.jobname = detachHead ++ jobSuffix d scope (parentTable f q) (weekTable f q weekStart)
    ∨ j.jobname = dropHead ++ jobSuffix d scope (parentTable f q) (weekTable f q weekStart)
  := by
  rcases h with ⟨concurrently, rfl⟩ | rfl
  · exact .inl rfl
  · exact .inr rfl

theorem MaintenanceJob.IsOf.partition (h : j.IsOf d scope f q weekStart) :
  j.command.partition = weekTable f q weekStart
  := by
  rcases h with ⟨concurrently, rfl⟩ | rfl <;> rfl

theorem MaintenanceJob.IsOf.suffix (h : j.IsOf d scope f q weekStart) :
  j.suffix = (jobSuffix d scope (parentTable f q) (weekTable f q weekStart)).toList
  := by
  rcases h with ⟨concurrently, rfl⟩ | rfl
  · rw [MaintenanceJob.suffix, detachJob, String.toList_append, List.drop_left]
  · rw [MaintenanceJob.suffix, dropJob, String.toList_append, List.drop_left]

end

/-- The jobs are about weeks that have ended, and those about one partition have one suffix. -/
structure Jobs.Sound (d : Md5) (s : Schema) (now : ℤ) (jobs : Jobs) : Prop where
  ended : ∀ j ∈ jobs.rows, ∃ scope f q weekStart, j.IsOf d scope f q weekStart
    ∧ Ended s now f q weekStart
  paired : ∀ j ∈ jobs.rows, ∀ j' ∈ jobs.rows, j.command.partition = j'.command.partition →
    j.suffix = j'.suffix

/-- The schema and the jobs are sound. -/
structure World.Sound (d : Md5) (w : World) : Prop where
  schema : w.schema.Sound
  jobs : w.jobs.Sound d w.schema w.now.ts

/-- Jobs are still sound when there are fewer of them and their weeks have ended too in another
schema. -/
theorem Jobs.Sound.of_subset {s s' : Schema} {now now' : ℤ} {jobs jobs' : Jobs}
    (h : jobs.Sound d s now) (hjobs : ∀ j ∈ jobs'.rows, j ∈ jobs.rows)
    (hended : ∀ j ∈ jobs'.rows, ∀ scope f q weekStart, j.IsOf d scope f q weekStart →
      Ended s now f q weekStart → Ended s' now' f q weekStart) :
  jobs'.Sound d s' now'
  := by
  constructor
  · intro j hj
    obtain ⟨scope, f, q, weekStart, hof, hweek⟩ := h.ended j (hjobs j hj)
    exact ⟨scope, f, q, weekStart, hof, hended j hj scope f q weekStart hof hweek⟩
  · intro j hj j' hj'
    exact h.paired j (hjobs j hj) j' (hjobs j' hj')

/-! ### Planning jobs -/

theorem oldest_mem {cs : List Candidate} {c : Candidate} (h : oldest cs = some c) :
  c ∈ cs
  := by
  cases cs with
  | nil => cases h
  | cons c₀ cs =>
      obtain rfl := Option.some.inj h
      have hmem : ∀ (cs : List Candidate) (best : Candidate),
          cs.foldl (fun best c => if c.before best then c else best) best ∈ best :: cs := by
        intro cs
        induction cs with
        | nil => exact fun best => List.mem_cons_self
        | cons c cs ih =>
            intro best
            rw [List.foldl_cons]
            have hrest := ih (if c.before best then c else best)
            rcases List.mem_cons.mp hrest with hhead | htail
            · rw [hhead]
              split <;> simp
            · exact List.mem_cons_of_mem _ (List.mem_cons_of_mem _ htail)
      exact hmem cs c₀

theorem ranked_mem {queues : List QueueRow} {cs : List Candidate} {c : Candidate}
    (h : c ∈ ranked queues cs) :
  c ∈ cs
  := by
  obtain ⟨q, -, h⟩ := List.mem_flatMap.mp h
  obtain ⟨f, -, h⟩ := List.mem_filterMap.mp h
  exact (List.mem_filter.mp (oldest_mem h)).1

/-- The candidate is the partition of a week that has ended. -/
def Candidate.Ended (s : Schema) (now : ℤ) (c : Candidate) : Prop :=
  ∃ f q weekStart, c.parent = parentTable f q ∧ c.partition = weekTable f q weekStart
    ∧ Partitions.Ended s now f q weekStart

/-- The end of the partition of a week is read back from its bound. -/
theorem Child.OfWeek.upperTs {c : Child} {f : Family} {q : String} {weekStart : ℤ}
    (h : c.OfWeek f q weekStart) :
  c.bound.upperTs = some (weekStart + week)
  := by
  obtain ⟨lower, upper, -, hupper, hbound⟩ := h.bound
  have hend : weekBucketUtc (weekStart + week) = weekStart + week := by
    rw [weekBucketUtc_add_week, h.monday]
  obtain ⟨-, hpast, -⟩ := floor_bytes hupper
  rw [hbound, Bound.upperTs, uuidv7Timestamp_of_drawnAt (floor_drawnAt hupper),
    Int.toNat_of_nonneg hpast, epochMs, ← week_ms hend]

/-- Candidates are partitions that have ended and are empty. -/
theorem candidate_ended {s : Schema} (hs : s.Sound) {now : ℤ} {q : QueueRow} {f : Family}
    {child : Child} (hchild : child ∈ s.attached.rows)
    (hparent : child.inhparent = parentTable f q.queueName) {c : Candidate}
    (h : candidate? now q (parentTable f q.queueName) child = some c) :
  c.Ended s now
  := by
  rw [candidate?] at h
  split at h
  · cases h
  · rename_i upperTs hupper
    split at h
    · cases h
    · rename_i hage
      split at h
      · cases h
      · rename_i hrows
        obtain rfl := Option.some.inj h
        have hdefault : child.bound.isDefault = false := by
          cases hbound : child.bound with
          | default =>
              rw [hbound] at hupper
              cases hupper
          | range lower upper => rfl
        obtain ⟨weekStart, hweek⟩ := (hs.made child hchild).ofWeek hparent hdefault
        have hend : upperTs = weekStart + week := by
          rw [hweek.upperTs] at hupper
          exact (Option.some.inj hupper).symm
        refine ⟨f, q.queueName, weekStart, rfl, hweek.relname, hweek.monday, ?_, ?_, ?_, ?_⟩
        · have hmin := q.minAge_nonneg
          omega
        · rw [← hweek.relname]
          exact Schema.has_of_mem hchild
        · rw [← hweek.relname]
          exact hs.apart child hchild
        · intro c hc hname
          obtain rfl := Table.eq_of_key_eq hc hchild (hname.trans hweek.relname.symm)
          exact ⟨hweek, fun _ => not_not.mp hrows⟩

theorem listDetachCandidates_ended {s : Schema} (hs : s.Sound) {now : ℤ}
    {queues : List QueueRow} {queueName : Option String} {cs : List Candidate}
    (h : listDetachCandidates now queues queueName s = .ok cs) :
  ∀ c ∈ cs, c.Ended s now
  := by
  intro c hc
  rw [listDetachCandidates] at h
  cases hcheck : checkQueue queues queueName with
  | error e =>
      rw [hcheck] at h
      cases h
  | ok _ =>
      rw [hcheck] at h
      cases h
      obtain ⟨q, -, hc⟩ := List.mem_flatMap.mp hc
      obtain ⟨f, -, hc⟩ := List.mem_flatMap.mp hc
      obtain ⟨child, hchild, hc⟩ := List.mem_filterMap.mp hc
      obtain ⟨hchild, hparent⟩ := List.mem_filter.mp hchild
      exact candidate_ended hs hchild (of_decide_eq_true hparent) hc

/-- A job of a partition no other job is about is put in. -/
theorem Jobs.Sound.put {s : Schema} {now : ℤ} {jobs : Jobs} (h : jobs.Sound d s now)
    {j : MaintenanceJob} {scope : String} {f : Family} {q : String} {weekStart : ℤ}
    (hof : j.IsOf d scope f q weekStart) (hended : Ended s now f q weekStart)
    (hsuffix : ∀ j' ∈ jobs.rows, j'.command.partition = weekTable f q weekStart →
      j'.suffix = j.suffix) :
  Jobs.Sound d s now (jobs.put j)
  := by
  constructor
  · intro j' hj'
    rcases Table.mem_put.mp hj' with rfl | ⟨hj', -⟩
    · exact ⟨scope, f, q, weekStart, hof, hended⟩
    · exact h.ended j' hj'
  · intro j₁ hj₁ j₂ hj₂ hsame
    rcases Table.mem_put.mp hj₁ with rfl | ⟨hold₁, -⟩
    · rcases Table.mem_put.mp hj₂ with rfl | ⟨hold₂, -⟩
      · rfl
      · exact (hsuffix j₂ hold₂ (hsame.symm.trans hof.partition)).symm
    · rcases Table.mem_put.mp hj₂ with rfl | ⟨hold₂, -⟩
      · exact hsuffix j₁ hold₁ (hsame.trans hof.partition)
      · exact h.paired j₁ hold₁ j₂ hold₂ hsame

theorem scheduleCandidate_sound {s : Schema} {now : ℤ} {jobs : Jobs} (h : jobs.Sound d s now)
    (scope : String) {c : Candidate} (hc : c.Ended s now) :
  (scheduleCandidate d scope s jobs c).Sound d s now
  := by
  obtain ⟨f, q, weekStart, hparent, hpartition, hended⟩ := hc
  rw [scheduleCandidate]
  split
  · exact h
  · rename_i hbusy
    have hnone : ∀ j ∈ jobs.rows, j.command.partition ≠ weekTable f q weekStart := by
      intro j hj hsame
      obtain ⟨scope', f', q', weekStart', hof, -⟩ := h.ended j hj
      obtain ⟨rfl, rfl, -⟩ := weekTable_inj (hof.partition.symm.trans hsame)
      rw [hparent] at hbusy
      exact hbusy (busy_of_mem hj hof.jobname)
    rw [hparent, hpartition]
    generalize hsuffix : jobSuffix d scope (parentTable f q) (weekTable f q weekStart) = suffix
    have hdrop : (dropJob suffix (weekTable f q weekStart)).IsOf d scope f q weekStart := by
      right
      rw [hsuffix]
    have hfirst : ∀ concurrently, ∀ j ∈ (jobs.put
        (detachJob suffix (parentTable f q) (weekTable f q weekStart) concurrently)).rows,
        j.command.partition = weekTable f q weekStart →
          j.suffix = (dropJob suffix (weekTable f q weekStart)).suffix := by
      intro concurrently j hj hsame
      rcases Table.mem_put.mp hj with rfl | ⟨hj, -⟩
      · have hof : (detachJob suffix (parentTable f q) (weekTable f q weekStart)
            concurrently).IsOf d scope f q weekStart := .inl ⟨concurrently, by rw [hsuffix]⟩
        rw [hof.suffix, hdrop.suffix]
      · exact absurd hsame (hnone j hj)
    have hnew : ∀ concurrently, Jobs.Sound d s now (jobs.put (detachJob suffix (parentTable f q)
        (weekTable f q weekStart) concurrently)) := by
      intro concurrently
      have hof : (detachJob suffix (parentTable f q) (weekTable f q weekStart) concurrently).IsOf d
          scope f q weekStart := .inl ⟨concurrently, by rw [hsuffix]⟩
      exact h.put hof hended (fun j hj hsame => absurd hsame (hnone j hj))
    dsimp only
    split
    · split
      · exact h
      · exact h.put hdrop hended (fun j hj hsame => absurd hsame (hnone j hj))
    · split
      · exact hnew _
      · exact (hnew _).put hdrop hended (hfirst _)

/-- What holds of the jobs before, and after every candidate it plans jobs for, holds after
`absurd.schedule_detach_jobs`. -/
theorem scheduleDetachJobs_preserves {I : Jobs → Prop} {s : Schema} (hs : s.Sound) {now : ℤ}
    {queues : List QueueRow} {queueName : Option String} {jobs jobs' : Jobs}
    (hcandidate : ∀ scope jobs c, Candidate.Ended s now c → I jobs →
      I (scheduleCandidate d scope s jobs c))
    (hjobs : I jobs) (h : scheduleDetachJobs d now queues queueName s jobs = .ok jobs') :
  I jobs'
  := by
  rw [scheduleDetachJobs] at h
  cases hlist : listDetachCandidates now queues queueName s with
  | error e =>
      rw [hlist] at h
      cases h
  | ok cs =>
      rw [hlist] at h
      cases h
      have hended : ∀ c ∈ ranked queues cs, c.Ended s now :=
        fun c hc => listDetachCandidates_ended hs hlist c (ranked_mem hc)
      revert hended hjobs
      generalize ranked queues cs = cs
      induction cs generalizing jobs with
      | nil => exact fun hjobs _ => hjobs
      | cons c cs ih =>
          intro hjobs hended
          apply ih
          · exact hcandidate _ jobs c (hended c List.mem_cons_self) hjobs
          · exact fun c' hc' => hended c' (List.mem_cons_of_mem c hc')

theorem scheduleDetachJobs_sound {s : Schema} (hs : s.Sound) {now : ℤ} {queues : List QueueRow}
    {queueName : Option String} {jobs jobs' : Jobs} (hjobs : jobs.Sound d s now)
    (h : scheduleDetachJobs d now queues queueName s jobs = .ok jobs') :
  jobs'.Sound d s now
  := by
  apply scheduleDetachJobs_preserves (I := Jobs.Sound d s now) hs _ hjobs h
  exact fun scope jobs c hc hjobs => scheduleCandidate_sound hjobs scope hc

/-! ### Running jobs -/

theorem mem_unschedule {jobs : Jobs} {jobname : String} {j : MaintenanceJob} :
  j ∈ (jobs.unschedule jobname).rows ↔ j ∈ jobs.rows ∧ j.jobname ≠ jobname
  := by
  rw [Jobs.unschedule, Table.mem_delete, decide_eq_false_iff_not]

/-- The jobs that are left when a drop job has unscheduled itself and its detach job. -/
theorem mem_unscheduled {jobs : Jobs} {suffix : String} {j : MaintenanceJob} :
  j ∈ (((detachJobName (dropHead ++ suffix)).elim jobs jobs.unschedule).unschedule
      (dropHead ++ suffix)).rows
    ↔ j ∈ jobs.rows ∧ j.jobname ≠ detachHead ++ suffix ∧ j.jobname ≠ dropHead ++ suffix
  := by
  rw [detachJobName_dropHead, mem_unschedule, Option.elim_some, mem_unschedule, and_assoc]

/-- What a drop job does: the table is gone, attached, or a partition no more, and then it is
dropped and the jobs are unscheduled. -/
theorem dropDetachedPartition_cases {s : Schema} {jobs : Jobs} {partition suffix : String}
    {r : Schema × Jobs} (h : dropDetachedPartition s jobs partition (dropHead ++ suffix) = r) :
  (¬ s.Has partition ∧ r.1 = s ∧ ∀ j ∈ r.2.rows, j ∈ jobs.rows)
    ∨ r = (s, jobs)
    ∨ ((∀ c ∈ s.attached.rows, c.relname ≠ partition) ∧ r.1 = s.dropTable partition
      ∧ ∀ j ∈ r.2.rows,
        j ∈ jobs.rows ∧ j.jobname ≠ detachHead ++ suffix ∧ j.jobname ≠ dropHead ++ suffix)
  := by
  rw [dropDetachedPartition] at h
  split at h
  · rename_i hgone
    obtain rfl := h
    exact .inl ⟨hgone, rfl, fun j hj => (mem_unscheduled.mp hj).1⟩
  · split at h
    · exact .inr (.inl h.symm)
    · rename_i hattached
      obtain rfl := h
      refine .inr (.inr ⟨?_, rfl, fun j hj => mem_unscheduled.mp hj⟩)
      intro c hc hname
      exact hattached (List.any_eq_true.mpr ⟨c, hc, decide_eq_true hname⟩)

/-- What a job that runs does: it detaches its partition, or it drops the table that was its
partition, or it leaves the schema as it is. -/
theorem runCommand_cases {w w' : World} (hw : w.Sound d) {j : MaintenanceJob}
    (hj : j ∈ w.jobs.rows) (h : w.runCommand j.command = some w') :
  w'.now = w.now ∧ ∃ f q weekStart, Ended w.schema w.now.ts f q weekStart
    ∧ ((w.schema.detachPartition (parentTable f q) (weekTable f q weekStart) = some w'.schema
        ∧ w'.jobs = w.jobs)
      ∨ (w'.schema = w.schema ∧ ∀ j' ∈ w'.jobs.rows, j' ∈ w.jobs.rows)
      ∨ ((∀ c ∈ w.schema.attached.rows, c.relname ≠ weekTable f q weekStart)
        ∧ w'.schema = w.schema.dropTable (weekTable f q weekStart)
        ∧ ∀ j' ∈ w'.jobs.rows, j' ∈ w.jobs.rows
          ∧ j'.command.partition ≠ weekTable f q weekStart))
  := by
  obtain ⟨scope, f, q, weekStart, hof, hended⟩ := hw.jobs.ended j hj
  rcases id hof with ⟨concurrently, hdetach⟩ | hdrop
  · rw [hdetach, detachJob, World.runCommand, Option.map_eq_some_iff] at h
    obtain ⟨s, hs, rfl⟩ := h
    exact ⟨rfl, f, q, weekStart, hended, .inl ⟨hs, rfl⟩⟩
  · rw [hdrop, dropJob, World.runCommand] at h
    generalize hr : dropDetachedPartition w.schema w.jobs (weekTable f q weekStart)
      (dropHead ++ jobSuffix d scope (parentTable f q) (weekTable f q weekStart)) = r at h
    obtain rfl := Option.some.inj h
    refine ⟨rfl, f, q, weekStart, hended, .inr ?_⟩
    rcases dropDetachedPartition_cases hr with
      ⟨-, hschema, hjobs⟩ | hsame | ⟨hattached, hschema, hjobs⟩
    · exact .inl ⟨hschema, hjobs⟩
    · rw [hsame]
      exact .inl ⟨rfl, fun _ hj' => hj'⟩
    · refine .inr ⟨hattached, hschema, ?_⟩
      intro j' hj'
      obtain ⟨hmem, hdetachName, hdropName⟩ := hjobs j' hj'
      refine ⟨hmem, ?_⟩
      intro hpartition
      -- The jobs of one partition have one suffix, so this one has been unscheduled as well.
      obtain ⟨scope', f', q', weekStart', hof', -⟩ := hw.jobs.ended j' hmem
      have hsuffix := hw.jobs.paired j' hmem j hj (hpartition.trans hof.partition.symm)
      rw [hof'.suffix, hof.suffix] at hsuffix
      have hsuffix := String.toList_injective hsuffix
      rcases hof'.jobname with hname | hname
      · exact hdetachName (hname.trans (congrArg (detachHead ++ ·) hsuffix))
      · exact hdropName (hname.trans (congrArg (dropHead ++ ·) hsuffix))

theorem runCommand_sound {w w' : World} (hw : w.Sound d) {j : MaintenanceJob}
    (hj : j ∈ w.jobs.rows) (h : w.runCommand j.command = some w') :
  w'.Sound d
  := by
  obtain ⟨hnow, f, q, weekStart, hended,
    ⟨hdetach, hjobs⟩ | ⟨hschema, hjobs⟩ | ⟨hattached, hschema, hjobs⟩⟩ := runCommand_cases hw hj h
  · constructor
    · exact detachPartition_sound hw.schema hdetach
    · rw [hjobs, hnow]
      exact hw.jobs.of_subset (fun _ hj => hj)
        (fun _ _ _ _ _ _ _ hended => detachPartition_ended hdetach hended)
  · constructor
    · rw [hschema]
      exact hw.schema
    · rw [hschema, hnow]
      exact hw.jobs.of_subset hjobs (fun _ _ _ _ _ _ _ hended => hended)
  · constructor
    · rw [hschema]
      exact dropTable_sound hw.schema hended.apart
    · rw [hschema, hnow]
      apply hw.jobs.of_subset (fun j' hj' => (hjobs j' hj').1)
      intro j' hj' scope' f' q' weekStart' hof' hended'
      apply dropTable_ended hw.schema hended.apart hattached _ hended'
      intro hname
      exact (hjobs j' hj').2 (hof'.partition.trans hname)

/-! ### Runs -/

theorem initial_sound (d : Md5) (now : Moment) :
  (World.initial now).Sound d
  := by
  refine ⟨⟨?_, ?_, ?_⟩, ⟨?_, ?_⟩⟩ <;> intro _ h <;> cases h

/-- Every step keeps the world sound. -/
theorem step_sound {w w' : World} {a : Action} (hw : w.Sound d)
    (h : (machine server d).step w a = some w') :
  w'.Sound d
  := by
  cases a with
  | tick later =>
      simp only [machine, World.step, Option.ite_none_right_eq_some, Option.some.injEq] at h
      obtain ⟨hle, rfl⟩ := h
      refine ⟨hw.schema, hw.jobs.of_subset (fun _ hj => hj) ?_⟩
      intro _ _ _ _ _ _ _ hended
      exact ⟨hended.monday, hended.closed.trans hle, hended.has, hended.apart, hended.child⟩
  | createRelation name =>
      obtain rfl := Option.some.inj h
      obtain ⟨hs, hle⟩ := createOther_grows hw.schema name
      exact ⟨hs, hw.jobs.of_subset (fun _ hj => hj) (fun _ _ _ _ _ _ _ hended => hended.of_le hle)⟩
  | createQueue queueName partitioned =>
      obtain ⟨r, hr, rfl⟩ := Option.map_eq_some_iff.mp h
      obtain ⟨hs, hle⟩ := createQueue_grows hw.schema (Except.toOption_eq_some.mp hr)
      exact ⟨hs, hw.jobs.of_subset (fun _ hj => hj) (fun _ _ _ _ _ _ _ hended => hended.of_le hle)⟩
  | setQueuePolicy q =>
      obtain ⟨r, hr, rfl⟩ := Option.map_eq_some_iff.mp h
      obtain ⟨hs, hchanges⟩ := setQueuePolicy_changes hw.schema (Except.toOption_eq_some.mp hr)
      refine ⟨hs, hw.jobs.of_subset (fun _ hj => hj) ?_⟩
      intro _ _ _ _ _ _ _ hended
      rcases hchanges with hle | hsheds
      · exact hended.of_le hle
      · exact hsheds.ended hended
  | ensurePartitions queueName =>
      obtain ⟨s, hs, rfl⟩ := Option.map_eq_some_iff.mp h
      obtain ⟨hs, hle⟩ := ensurePartitions_grows hw.schema (Except.toOption_eq_some.mp hs)
      exact ⟨hs, hw.jobs.of_subset (fun _ hj => hj) (fun _ _ _ _ _ _ _ hended => hended.of_le hle)⟩
  | insert f queueName clock id =>
      obtain ⟨hkeeps, h⟩ := Option.ite_none_right_eq_some.mp h
      obtain ⟨s, hs, rfl⟩ := Option.map_eq_some_iff.mp h
      refine ⟨(insertRow_rewrites hs).sound hw.schema, hw.jobs.of_subset (fun _ hj => hj) ?_⟩
      exact fun _ _ _ _ _ _ _ hended => insertRow_ended hended hkeeps hs
  | delete relname ids =>
      obtain rfl := Option.some.inj h
      refine ⟨(rewrites_update _ _ (fun _ => ⟨rfl, rfl, rfl⟩)).sound hw.schema,
        hw.jobs.of_subset (fun _ hj => hj) ?_⟩
      exact fun _ _ _ _ _ _ _ hended => deleteRows_ended hended relname ids
  | scheduleDetachJobs queueName =>
      obtain ⟨jobs, hjobs, rfl⟩ := Option.map_eq_some_iff.mp h
      exact ⟨hw.schema,
        scheduleDetachJobs_sound hw.schema hw.jobs (Except.toOption_eq_some.mp hjobs)⟩
  | runJob jobname =>
      obtain ⟨j, hj, hrun⟩ := Option.bind_eq_some_iff.mp h
      exact runCommand_sound hw (Table.mem_of_get? hj) hrun
  | unschedule jobname =>
      obtain rfl := Option.some.inj h
      exact ⟨hw.schema, hw.jobs.of_subset (fun j hj => (mem_unschedule.mp hj).1)
        (fun _ _ _ _ _ _ _ hended => hended)⟩

theorem run_sound {now : Moment} {as : List Action} {w : World}
    (h : (machine server d).run (World.initial now) as = some w) :
  w.Sound d
  := Machine.invariant (fun _ _ _ hw hstep => step_sound hw hstep) (initial_sound d now) h

/-- 1 January 2024, a Monday. -/
def newYear : Moment := ⟨1704067200000000, by decide, by decide⟩

/-- 1 April 2024. -/
def april : Moment := ⟨1711929600000000, by decide, by decide⟩

/-- Random bytes that are all zero. -/
def zeroUuid : Uuid := ⟨List.replicate 16 0, rfl, by decide⟩

/-- `md5`, as far as it is asked in April. -/
def aprilMd5 : Md5 where
  hash s :=
    if s = "t_q" then "5b07ff77e04933b6ad10e24f45b7e0d3"
    else if s = "t_q:t_q_352" then "33f71d52b840507b26dde25947cb9723"
    else if s = "r_q" then "698eda0f93c2b24773206a15cf460703"
    else if s = "r_q:r_q_352" then "1666e4e861ad8364a99e3ea022a15933"
    else if s = "c_q" then "571fb3a020df0eb76e8e14700b36e0cc"
    else if s = "c_q:c_q_352" then "687d1bf18a576f7954a5cf4bc34f0865"
    else if s = "w_q" then "50415fad124905575a6a06b389c5fe10"
    else "ad00af2c0dec8a1e382e95b886542162"
  hex s := by
    split_ifs <;> rfl

/-- A queue that is created at New Year has its tables, and the first week is in its window. -/
theorem created_run : ∃ w s, ∃ q ∈ selected w.queues none,
  (machine postgres18 aprilMd5).run (World.initial newYear) [.createQueue "q" true] = some w
    ∧ ensurePartitions w.now.ts w.queues none w.schema = .ok s
    ∧ q.queueName = "q" ∧ q.InWindow w.now.ts newYear.ts
  := by
  have hrun : ((machine postgres18 aprilMd5).run (World.initial newYear)
      [.createQueue "q" true]).any
      (fun w => (ensurePartitions w.now.ts w.queues none w.schema).toOption.isSome
        && (selected w.queues none).any (fun q => q.queueName = "q"
          && q.windowStart w.now.ts ≤ newYear.ts && newYear.ts ≤ q.windowEnd w.now.ts)) = true := by
    decide +kernel
  obtain ⟨w, hw, hprovided⟩ := (Option.any_eq_true _ _).mp hrun
  rw [Bool.and_eq_true, Option.isSome_iff_exists, List.any_eq_true] at hprovided
  obtain ⟨⟨s, hs⟩, q, hq, hwindow⟩ := hprovided
  rw [Bool.and_eq_true, Bool.and_eq_true, decide_eq_true_eq, decide_eq_true_eq,
    decide_eq_true_eq] at hwindow
  obtain ⟨⟨hname, hafter⟩, hbefore⟩ := hwindow
  exact ⟨w, s, q, hq, hw, Except.toOption_eq_some.mp hs, hname, by decide, hafter, hbefore⟩

/-- Whatever has happened, no key is in two partitions of a table, and provisioning is never refused
because partitions collide. -/
theorem never_collides {now : Moment} {as : List Action} {w : World}
    (h : (machine server d).run (World.initial now) as = some w) :
  (∀ c ∈ w.schema.attached.rows, ∀ c' ∈ w.schema.attached.rows, ∀ (id : Uuid) (ms : ℕ),
      c.inhparent = c'.inhparent → id.DrawnAt ms → c.bound.Holds id → c'.bound.Holds id → c = c')
    ∧ ∀ queueName e,
      ensurePartitions w.now.ts w.queues queueName w.schema = .error e → e.collision = false
  := by
  have hs := (run_sound h).schema
  constructor
  · intro c hc c' hc' id ms hparent hid hholds hholds'
    obtain ⟨f, q, hrest | ⟨weekStart, hweek⟩⟩ := hs.made c hc
    · rw [hrest.bound] at hholds
      cases hholds
    · obtain ⟨weekStart', hweek'⟩ := (hs.made c' hc').ofWeek (hparent.symm.trans hweek.inhparent)
        (Bound.isDefault_of_holds hholds')
      have hsame : weekStart' = weekStart :=
        ((hweek'.holds_iff hid).mp hholds').symm.trans ((hweek.holds_iff hid).mp hholds)
      rw [hsame] at hweek'
      exact Table.eq_of_key_eq hc hc' (hweek.relname.trans hweek'.relname.symm)
  · intro queueName e he
    exact (ensurePartitions_provides hs w.now.ts w.queues queueName).of_error he

theorem never_collides_created : ∃ w,
  (machine postgres18 aprilMd5).run (World.initial newYear) [.createQueue "q" true] = some w
    ∧ ∀ queueName e,
      ensurePartitions w.now.ts w.queues queueName w.schema = .error e → e.collision = false
  := by
  obtain ⟨w, -, -, -, hw, -⟩ := created_run
  exact ⟨w, hw, (never_collides hw).2⟩

/-- Whatever has happened, after provisioning the keys drawn in a week of the window of a queue go
to the partition of the week, unless something else has its name. -/
theorem window_served {now : Moment} {as : List Action} {w : World}
    (h : (machine server d).run (World.initial now) as = some w) {queueName : Option String}
    {s : Schema} (hok : ensurePartitions w.now.ts w.queues queueName w.schema = .ok s) {q : QueueRow}
    (hq : q ∈ selected w.queues queueName) {weekStart : ℤ} (hwindow : q.InWindow w.now.ts weekStart)
    (f : Family) {id : Uuid} {ms : ℕ} (hid : id.DrawnAt ms)
    (hms : weekBucketUtc (ms * 1000) = weekStart) :
  (∃ c, c.OfWeek f q.queueName weekStart ∧ s.route (parentTable f q.queueName) id = some c)
    ∨ s.Usurped f q.queueName weekStart
  := by
  obtain ⟨hs, -, hnames⟩ :=
    (ensurePartitions_provides (run_sound h).schema w.now.ts w.queues queueName).of_ok hok
  have hhas := hnames (weekTable f q.queueName weekStart) ⟨q, hq, weekStart, hwindow, f, rfl⟩
  rcases hs.ofWeek_of_has hwindow.monday hhas with ⟨c, hc, hweek⟩ | husurped
  · exact .inl ⟨c, hweek, hs.route_week hc hweek hid hms⟩
  · exact .inr husurped

theorem window_served_created : ∃ w s,
  (machine postgres18 aprilMd5).run (World.initial newYear) [.createQueue "q" true] = some w
    ∧ ensurePartitions w.now.ts w.queues none w.schema = .ok s
    ∧ ((∃ c, c.OfWeek .tasks "q" newYear.ts
        ∧ s.route (parentTable .tasks "q")
          (portableUuidv7 postgres18 newYear.ts newYear.ts zeroUuid) = some c)
      ∨ s.Usurped .tasks "q" newYear.ts)
  := by
  obtain ⟨w, s, q, hq, hw, hs, hname, hwindow⟩ := created_run
  have hdrawn : (portableUuidv7 postgres18 newYear.ts newYear.ts zeroUuid).DrawnAt _ :=
    portableUuidv7_drawnAt postgres18 zeroUuid newYear.past newYear.future
  have hserved := window_served hw hs hq hwindow .tasks hdrawn (by decide)
  rw [hname] at hserved
  exact ⟨w, s, hw, hs, hserved⟩

/-- The table has a row of the key. -/
def Schema.Holds (s : Schema) (parent : String) (id : Uuid) : Prop :=
  ∃ c ∈ s.attached.rows, c.inhparent = parent ∧ id ∈ c.rows

/-- An insertion adds a row to a partition, and takes none away. -/
theorem Schema.Holds.insertRow {s s' : Schema} {parent parent' : String} {id id' : Uuid}
    (h : s.Holds parent id) (hs : s.insertRow parent' id' = some s') :
  s'.Holds parent id
  := by
  obtain ⟨c₁, -, rfl⟩ := Option.map_eq_some_iff.mp hs
  obtain ⟨c, hc, hparent, hrow⟩ := h
  refine ⟨_, Table.mem_update.mpr ⟨c, hc, rfl⟩, ?_, ?_⟩
  · split <;> exact hparent
  · split
    · exact List.mem_cons_of_mem _ hrow
    · exact hrow

/-- A deletion takes away only the rows it names. -/
theorem Schema.Holds.deleteRows {s : Schema} {parent relname : String} {id : Uuid}
    {ids : List Uuid} (h : s.Holds parent id) (hid : id ∉ ids) :
  (s.deleteRows relname ids).Holds parent id
  := by
  obtain ⟨c, hc, hparent, hrow⟩ := h
  refine ⟨_, Table.mem_update.mpr ⟨c, hc, rfl⟩, ?_, ?_⟩
  · split <;> exact hparent
  · split
    · exact List.mem_filter.mpr ⟨hrow, decide_eq_true hid⟩
    · exact hrow

/-- A job that runs takes no row of tasks or runs away: what it detaches is empty. -/
theorem Schema.Holds.runCommand {w w' : World} {j : MaintenanceJob} {f : Family} {q : String}
    {id : Uuid} (h : w.schema.Holds (parentTable f q) id) (hdrawn : f.drawn = true)
    (hw : w.Sound d) (hj : j ∈ w.jobs.rows) (hrun : w.runCommand j.command = some w') :
  w'.schema.Holds (parentTable f q) id
  := by
  obtain ⟨c, hc, hparent, hrow⟩ := h
  obtain ⟨-, f', q', weekStart, hended,
    ⟨hdetach, -⟩ | ⟨hschema, -⟩ | ⟨hattached, hschema, -⟩⟩ := runCommand_cases hw hj hrun
  · obtain ⟨c', hc', hname, hparent', hs'⟩ := detachPartition_eq_some hdetach
    rw [hs']
    refine ⟨c, Table.mem_delete.mpr ⟨hc, decide_eq_false ?_⟩, hparent, hrow⟩
    intro hsame
    obtain ⟨hweek, hempty⟩ := hended.child c hc hsame
    obtain ⟨rfl, rfl⟩ := parentTable_inj (hparent.symm.trans hweek.inhparent)
    rw [hempty hdrawn] at hrow
    cases hrow
  · rw [hschema]
    exact ⟨c, hc, hparent, hrow⟩
  · rw [hschema]
    exact ⟨c, (mem_attached_dropTable hw.schema hended.apart hattached).mpr hc, hparent, hrow⟩

/-- A row of tasks or runs stays in its table at every step but its deletion. -/
theorem step_keeps_rows {w w' : World} {a : Action} (hw : w.Sound d)
    (h : (machine server d).step w a = some w') {f : Family} (hdrawn : f.drawn = true) {q : String}
    {id : Uuid} (hid : w.schema.Holds (parentTable f q) id) :
  w'.schema.Holds (parentTable f q) id ∨ ∃ relname ids, a = .delete relname ids ∧ id ∈ ids
  := by
  have hgrows : ∀ {s' : Schema}, w.schema ≤ s' → s'.Holds (parentTable f q) id := by
    intro s' hle
    obtain ⟨c, hc, hrest⟩ := hid
    exact ⟨c, hle.kept c hc, hrest⟩
  cases a with
  | tick later =>
      simp only [machine, World.step, Option.ite_none_right_eq_some, Option.some.injEq] at h
      obtain ⟨-, rfl⟩ := h
      exact .inl hid
  | createRelation name =>
      obtain rfl := Option.some.inj h
      exact .inl (hgrows (createOther_grows hw.schema name).2)
  | createQueue queueName partitioned =>
      obtain ⟨r, hr, rfl⟩ := Option.map_eq_some_iff.mp h
      exact .inl (hgrows (createQueue_grows hw.schema (Except.toOption_eq_some.mp hr)).2)
  | setQueuePolicy q' =>
      obtain ⟨r, hr, rfl⟩ := Option.map_eq_some_iff.mp h
      obtain ⟨-, hle | hsheds⟩ := setQueuePolicy_changes hw.schema (Except.toOption_eq_some.mp hr)
      · exact .inl (hgrows hle)
      · obtain ⟨c, hc, hparent, hrow⟩ := hid
        rcases hsheds.gone c hc with hc' | ⟨hempty, -⟩
        · exact .inl ⟨c, hc', hparent, hrow⟩
        · rw [hempty] at hrow
          cases hrow
  | ensurePartitions queueName =>
      obtain ⟨s, hs, rfl⟩ := Option.map_eq_some_iff.mp h
      exact .inl (hgrows (ensurePartitions_grows hw.schema (Except.toOption_eq_some.mp hs)).2)
  | insert f' queueName clock id' =>
      obtain ⟨-, h⟩ := Option.ite_none_right_eq_some.mp h
      obtain ⟨s, hs, rfl⟩ := Option.map_eq_some_iff.mp h
      exact .inl (hid.insertRow hs)
  | delete relname ids =>
      obtain rfl := Option.some.inj h
      by_cases hmem : id ∈ ids
      · exact .inr ⟨relname, ids, rfl, hmem⟩
      · exact .inl (hid.deleteRows hmem)
  | scheduleDetachJobs queueName =>
      obtain ⟨jobs, -, rfl⟩ := Option.map_eq_some_iff.mp h
      exact .inl hid
  | runJob jobname =>
      obtain ⟨j, hj, hrun⟩ := Option.bind_eq_some_iff.mp h
      exact .inl (hid.runCommand hdrawn hw (Table.mem_of_get? hj) hrun)
  | unschedule jobname =>
      obtain rfl := Option.some.inj h
      exact .inl hid

/-- Whatever has happened, a row of tasks or runs stays in its table until it is deleted: no job
detaches it. -/
theorem rows_kept {now : Moment} {as : List Action} {w w' : World} {a : Action}
    (hrun : (machine server d).run (World.initial now) as = some w)
    (hstep : (machine server d).step w a = some w') {f : Family} (hdrawn : f.drawn = true)
    {q : String} {id : Uuid} (hid : w.schema.Holds (parentTable f q) id) :
  w'.schema.Holds (parentTable f q) id ∨ ∃ relname ids, a = .delete relname ids ∧ id ∈ ids
  := step_keeps_rows (run_sound hrun) hstep hdrawn hid

/-- A queue whose empty partitions are detached, with a task. -/
def winter : List Action :=
  [.createQueue "q" true, .setQueuePolicy { QueueRow.initial "q" true with detachEmpty := true },
    .insert .tasks "q" newYear zeroUuid, .tick april, .scheduleDetachJobs none]

/-- The job that detaches a partition. -/
def winterDetach : Action := .runJob "absurd_detach_run_all_5b07ff77_33f71d52b840"

theorem rows_kept_winter : ∃ w w',
  (machine postgres18 aprilMd5).run (World.initial newYear) winter = some w
    ∧ (machine postgres18 aprilMd5).step w winterDetach = some w'
    ∧ w'.schema.Holds (parentTable .tasks "q")
      (portableUuidv7 postgres18 newYear.ts newYear.ts zeroUuid)
  := by
  have hrun : ((machine postgres18 aprilMd5).run (World.initial newYear) winter).any (fun w =>
      ((machine postgres18 aprilMd5).step w winterDetach).isSome
        && w.schema.attached.rows.any (fun c => c.inhparent = parentTable .tasks "q"
          && c.rows.contains
            (portableUuidv7 postgres18 newYear.ts newYear.ts zeroUuid))) = true := by
    decide +kernel
  obtain ⟨w, hw, hjob⟩ := (Option.any_eq_true _ _).mp hrun
  rw [Bool.and_eq_true, Option.isSome_iff_exists, List.any_eq_true] at hjob
  obtain ⟨⟨w', hstep⟩, c, hc, hrow⟩ := hjob
  rw [Bool.and_eq_true, decide_eq_true_eq, List.contains_iff_mem] at hrow
  rcases rows_kept hw hstep (f := .tasks) rfl ⟨c, hc, hrow⟩ with hholds | ⟨_, _, hdelete, -⟩
  · exact ⟨w, w', hw, hstep, hholds⟩
  · cases hdelete

end DjangoAbsurd.Partitions
