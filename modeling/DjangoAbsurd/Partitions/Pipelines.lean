import DjangoAbsurd.Partitions.Maintenance

/-!
# One pipeline for each table

`absurd.schedule_detach_jobs` plans no job for a table while another is there for it: it looks for
the key of the table in the names of the jobs, whatever scope they were planned under. So all jobs
of a table are the detach job and the drop job of one partition, and once that partition is
dropped, none of them is left (`one_pipeline`).
-/

namespace DjangoAbsurd.Partitions

open Keyed (Table)

variable {server : Server} {d : Md5} {s : Schema} {now : ℤ} {jobs jobs' : Jobs}
  {j j' : MaintenanceJob} {scope scope' : String} {f f' : Family} {q q' : String} {weekStart weekStart' : ℤ}

def Command.detaches : Command → Bool
  | detach _ _ _ => true
  | drop _ _ => false

/-! ### Jobs of tables of one key -/

/-- The jobs of tables that have one key are those of one partition. -/
def Jobs.Single (d : Md5) (jobs : Jobs) : Prop :=
  ∀ j ∈ jobs.rows, ∀ j' ∈ jobs.rows, ∀ {scope scope' f f' q q' weekStart weekStart'},
    j.IsOf d scope f q weekStart → j'.IsOf d scope' f' q' weekStart' →
    d.front (parentTable f q) 8 = d.front (parentTable f' q') 8 →
    j.command.partition = j'.command.partition ∧ j.suffix = j'.suffix

theorem Jobs.Single.of_subset (h : jobs.Single d) (hjobs : ∀ j ∈ jobs'.rows, j ∈ jobs.rows) :
  jobs'.Single d
  := fun j hj j' hj' => h j (hjobs j hj) j' (hjobs j' hj')

/-- The jobs of a partition have its table and its suffix. -/
theorem MaintenanceJob.IsOf.unique (h : j.IsOf d scope f q weekStart)
    (h' : j.IsOf d scope' f' q' weekStart') :
  parentTable f q = parentTable f' q'
    ∧ jobSuffix d scope (parentTable f q) (weekTable f q weekStart)
      = jobSuffix d scope' (parentTable f' q') (weekTable f' q' weekStart')
  := by
  obtain ⟨rfl, rfl, -⟩ := weekTable_inj (h.partition.symm.trans h'.partition)
  use rfl
  apply String.toList_injective
  rw [← h.suffix, ← h'.suffix]

/-- The name of a job says whether it detaches or drops, and what follows is its suffix. -/
theorem MaintenanceJob.IsOf.jobname_eq (h : j.IsOf d scope f q weekStart) :
  j.jobname = (if j.command.detaches then detachHead else dropHead) ++ String.ofList j.suffix
  := by
  rw [h.suffix, String.ofList_toList]
  rcases h with ⟨concurrently, rfl⟩ | rfl <;> rfl

theorem mem_put_unless {planned : Bool} {j₀ : MaintenanceJob}
    (hj : j ∈ (if planned = true then jobs else jobs.put j₀).rows) :
  j ∈ jobs.rows ∨ j = j₀
  := by
  split at hj
  · exact .inl hj
  · rcases Table.mem_put.mp hj with rfl | ⟨hj, -⟩
    · exact .inr rfl
    · exact .inl hj

/-- What the loop of `absurd.schedule_detach_jobs` adds: jobs of the candidate, when its table is
not busy. -/
theorem mem_scheduleCandidate {c : Candidate}
    (hj : j ∈ (scheduleCandidate d scope s jobs c).rows) :
  j ∈ jobs.rows
    ∨ jobs.busy (d.front c.parent 8) = false
      ∧ ((∃ concurrently, j = detachJob (jobSuffix d scope c.parent c.partition) c.parent
          c.partition concurrently)
        ∨ j = dropJob (jobSuffix d scope c.parent c.partition) c.partition)
  := by
  rw [scheduleCandidate] at hj
  split at hj
  · exact .inl hj
  · rename_i hbusy
    have hidle : jobs.busy (d.front c.parent 8) = false := eq_false_of_ne_true hbusy
    rcases mem_put_unless hj with hj | hdrop
    · rcases mem_put_unless hj with hj | hdetach
      · exact .inl hj
      · exact .inr ⟨hidle, .inl ⟨_, hdetach⟩⟩
    · exact .inr ⟨hidle, .inr hdrop⟩

theorem scheduleCandidate_single (hsingle : jobs.Single d) {c : Candidate} (hc : c.Ended s now) :
  (scheduleCandidate d scope s jobs c).Single d
  := by
  obtain ⟨f₀, q₀, weekStart₀, hparent, hpartition, -⟩ := hc
  -- a job that is added is of the candidate, and no job that was there is of a table of its key
  have hnew : ∀ j ∈ (scheduleCandidate d scope s jobs c).rows, j ∈ jobs.rows
      ∨ jobs.busy (d.front (parentTable f₀ q₀) 8) = false ∧ j.IsOf d scope f₀ q₀ weekStart₀ := by
    intro j hj
    rcases mem_scheduleCandidate hj with hj | ⟨hidle, hj⟩
    · exact .inl hj
    · rw [hparent, hpartition] at hj
      rw [hparent] at hidle
      exact .inr ⟨hidle, hj⟩
  have hother : ∀ {j : MaintenanceJob} {scope f q weekStart}, j ∈ jobs.rows →
      j.IsOf d scope f q weekStart → jobs.busy (d.front (parentTable f₀ q₀) 8) = false →
      d.front (parentTable f q) 8 ≠ d.front (parentTable f₀ q₀) 8 := by
    intro j scope f q weekStart hj hof hidle hkey
    rw [← hkey, busy_of_mem hj hof.jobname] at hidle
    cases hidle
  intro j hj j' hj' scope₁ scope₂ f₁ f₂ q₁ q₂ weekStart₁ weekStart₂ hof hof' hkey
  rcases hnew j hj with hold | ⟨hidle, hcandidate⟩
  · rcases hnew j' hj' with hold' | ⟨hidle, hcandidate'⟩
    · exact hsingle j hold j' hold' hof hof' hkey
    · rw [(hof'.unique hcandidate').1] at hkey
      exact absurd hkey (hother hold hof hidle)
  · rcases hnew j' hj' with hold' | ⟨-, hcandidate'⟩
    · rw [(hof.unique hcandidate).1] at hkey
      exact absurd hkey.symm (hother hold' hof' hidle)
    · constructor
      · rw [hcandidate.partition, hcandidate'.partition]
      · rw [hcandidate.suffix, hcandidate'.suffix]

/-! ### Runs -/

/-- The jobs after a step are jobs that were there before, unless the step plans some. -/
theorem mem_jobs_step {w w' : World} (hw : w.Sound d) {a : Action}
    (h : (machine server d).step w a = some w') :
  (∀ j ∈ w'.jobs.rows, j ∈ w.jobs.rows) ∨ ∃ queueName,
    scheduleDetachJobs d w.now.ts w.queues queueName w.schema w.jobs = .ok w'.jobs
  := by
  have hsame : ∀ {α : Type} {o : Option α} {g : α → World}, o.map g = some w' →
      (∀ x, (g x).jobs = w.jobs) → ∀ j ∈ w'.jobs.rows, j ∈ w.jobs.rows := by
    intro α o g hmap hg j hj
    obtain ⟨x, -, rfl⟩ := Option.map_eq_some_iff.mp hmap
    rwa [hg x] at hj
  cases a with
  | tick later =>
      simp only [machine, World.step, Option.ite_none_right_eq_some, Option.some.injEq] at h
      obtain ⟨-, rfl⟩ := h
      exact .inl (fun _ hj => hj)
  | createRelation | delete =>
      obtain rfl := Option.some.inj h
      exact .inl (fun _ hj => hj)
  | createQueue | setQueuePolicy | ensurePartitions => exact .inl (hsame h (fun _ => rfl))
  | insert =>
      obtain ⟨-, h⟩ := Option.ite_none_right_eq_some.mp h
      exact .inl (hsame h (fun _ => rfl))
  | scheduleDetachJobs queueName =>
      obtain ⟨jobs, hjobs, rfl⟩ := Option.map_eq_some_iff.mp h
      exact .inr ⟨queueName, Except.toOption_eq_some.mp hjobs⟩
  | runJob jobname =>
      obtain ⟨j, hj, hrun⟩ := Option.bind_eq_some_iff.mp h
      obtain ⟨-, _, _, _, -, ⟨-, hjobs⟩ | ⟨-, hjobs⟩ | ⟨-, -, hjobs⟩⟩ :=
        runCommand_cases hw (Table.mem_of_get? hj) hrun
      · rw [hjobs]
        exact .inl (fun _ hj => hj)
      · exact .inl hjobs
      · exact .inl (fun j' hj' => (hjobs j' hj').1)
  | unschedule jobname =>
      obtain rfl := Option.some.inj h
      exact .inl (fun _ hj => (mem_unschedule.mp hj).1)

theorem step_single {w w' : World} (hw : w.Sound d) {a : Action} (hsingle : w.jobs.Single d)
    (h : (machine server d).step w a = some w') :
  w'.jobs.Single d
  := by
  rcases mem_jobs_step hw h with hsubset | ⟨queueName, hplanned⟩
  · exact hsingle.of_subset hsubset
  · apply scheduleDetachJobs_preserves (I := Jobs.Single d) hw.schema _ hsingle hplanned
    exact fun scope jobs c hc hjobs => scheduleCandidate_single hjobs hc

theorem run_single {moment : Moment} {as : List Action} {w : World}
    (h : (machine server d).run (World.initial moment) as = some w) :
  w.jobs.Single d
  := by
  apply And.right
  apply Machine.invariant (I := fun w => w.Sound d ∧ w.jobs.Single d) _ _ h
  · rintro w a w' ⟨hw, hsingle⟩ hstep
    exact ⟨step_sound hw hstep, step_single hw hsingle hstep⟩
  · use initial_sound d moment
    intro j hj
    cases hj

/-- A drop job that finds its partition attached no more unschedules the jobs of its suffix. -/
theorem not_mem_of_dropped {w w' : World} (hof : j.IsOf d scope f q weekStart)
    (hof' : j'.IsOf d scope' f' q' weekStart') (hsuffix : j.suffix = j'.suffix)
    (hrun : w.runCommand j.command = some w') (hdrops : j.command.detaches = false)
    (hdetached : ∀ c ∈ w.schema.attached.rows, c.relname ≠ j.command.partition) :
  j' ∉ w'.jobs.rows
  := by
  intro hj'
  have hname := hof'.jobname_eq
  rw [← hsuffix, hof.suffix, String.ofList_toList] at hname
  rcases hof with ⟨concurrently, rfl⟩ | rfl
  · cases hdrops
  · obtain rfl := Option.some.inj hrun
    have hnone : ¬ w.schema.attached.rows.any (·.relname = weekTable f q weekStart) = true := by
      intro hany
      obtain ⟨c, hc, hrelname⟩ := List.any_eq_true.mp hany
      exact hdetached c hc (of_decide_eq_true hrelname)
    have hunscheduled : j'.jobname ≠ detachHead
          ++ jobSuffix d scope (parentTable f q) (weekTable f q weekStart)
        ∧ j'.jobname ≠ dropHead
          ++ jobSuffix d scope (parentTable f q) (weekTable f q weekStart) := by
      apply And.right
      apply mem_unscheduled.mp
      dsimp only [dropDetachedPartition, dropJob] at hj'
      rw [if_neg hnone] at hj'
      split at hj' <;> exact hj'
    rw [hname] at hunscheduled
    split at hunscheduled
    · exact hunscheduled.1 rfl
    · exact hunscheduled.2 rfl

/-- All jobs there are for a table are the detach job and the drop job of one of its partitions,
and when the drop job runs while the partition is not attached any more, none of them is left.
The same holds of two tables whose keys agree. -/
theorem one_pipeline {moment : Moment} {as : List Action} {w : World}
    (h : (machine server d).run (World.initial moment) as = some w) (hj : j ∈ w.jobs.rows)
    (hj' : j' ∈ w.jobs.rows) (hof : j.IsOf d scope f q weekStart)
    (hof' : j'.IsOf d scope' f' q' weekStart')
    (hkey : d.front (parentTable f q) 8 = d.front (parentTable f' q') 8) :
  j.command.partition = j'.command.partition
    ∧ (j.command.detaches = j'.command.detaches → j = j')
    ∧ ∀ w', (machine server d).step w (.runJob j.jobname) = some w' → j.command.detaches = false →
      (∀ c ∈ w.schema.attached.rows, c.relname ≠ j.command.partition) → j' ∉ w'.jobs.rows
  := by
  obtain ⟨hpartition, hsuffix⟩ := run_single h j hj j' hj' hof hof' hkey
  refine ⟨hpartition, ?_, ?_⟩
  · intro hdetaches
    apply Table.eq_of_key_eq hj hj'
    rw [hof.jobname_eq, hof'.jobname_eq, hdetaches, hsuffix]
  · intro w' hstep hdrops hdetached
    obtain ⟨j₀, hj₀, hrun⟩ := Option.bind_eq_some_iff.mp hstep
    obtain rfl : j = j₀ := Option.some.inj ((Table.get?_of_mem hj).symm.trans hj₀)
    exact not_mem_of_dropped hof hof' hsuffix hrun hdrops hdetached

/-- The jobs of the first partition of the tasks, as planned in April. -/
def aprilSuffix : String := "all_5b07ff77_33f71d52b840"

theorem one_pipeline_winter : ∃ w,
  (machine postgres18 aprilMd5).run (World.initial newYear) winter = some w
    ∧ ∃ j ∈ w.jobs.rows, ∃ j' ∈ w.jobs.rows, j ≠ j' ∧ j.command.partition = j'.command.partition
  := by
  have hrun : ((machine postgres18 aprilMd5).run (World.initial newYear) winter).any (fun w =>
      w.jobs.rows.contains (detachJob aprilSuffix "t_q" "t_q_352" false)
        && w.jobs.rows.contains (dropJob aprilSuffix "t_q_352")) = true := by
    decide +kernel
  obtain ⟨w, hw, hjobs⟩ := (Option.any_eq_true _ _).mp hrun
  rw [Bool.and_eq_true, List.contains_iff_mem, List.contains_iff_mem] at hjobs
  obtain ⟨hdetach, hdrop⟩ := hjobs
  have hof : (detachJob aprilSuffix "t_q" "t_q_352" false).IsOf aprilMd5 "all" .tasks "q"
      1703462400000000 := .inl ⟨false, by decide +kernel⟩
  have hof' : (dropJob aprilSuffix "t_q_352").IsOf aprilMd5 "all" .tasks "q" 1703462400000000 :=
    .inr (by decide +kernel)
  refine ⟨w, hw, _, hdetach, _, hdrop, by decide, ?_⟩
  exact (one_pipeline hw hdetach hdrop hof hof' rfl).1

end DjangoAbsurd.Partitions
