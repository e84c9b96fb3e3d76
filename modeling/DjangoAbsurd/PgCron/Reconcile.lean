import DjangoAbsurd.PgCron.Catalog
import DjangoAbsurd.PgCron.Schedule

/-!
# Reconciling the catalog with the declared schedules

`sync_crons` writes a row for every declared schedule, deletes the settings rows that are no
longer declared, prunes the jobs of the settings lane and schedules the cleanup job. Saving
or deleting a row emits a change of its job once the row is committed; the emission swallows
what the catalog refuses. `sync_admin_crons` schedules the jobs of the admin rows itself and
prunes their lane.

What becomes of the catalog is told by names of jobs: scheduling a row's job changes the job
of its name and no other.
-/

namespace DjangoAbsurd

open Keyed (Table)

/-- The unique key of a row. -/
def ScheduledTask.key (r : ScheduledTask) : Source × String := (r.source, r.name)

/-- The name of a row's job. -/
def ScheduledTask.jobname (db : AppDatabase) (r : ScheduledTask) : String :=
  buildJobname db.name r.source.value r.name

/-- `quote_literal`, the `%L` of `format`. -/
def quoteLiteral (s : String) : String :=
  let quoted := "'" ++ String.ofList (s.toList.flatMap (fun c =>
    if c = '\'' ∨ c = '\\' then [c, c] else [c])) ++ "'"
  if '\\' ∈ s.toList then "E" ++ quoted else quoted

/-- `build_scheduled_command`. -/
def buildScheduledCommand (source name : String) : String :=
  "select public.django_absurd_run_scheduled(" ++ quoteLiteral source ++ ", "
    ++ quoteLiteral name ++ ")"

/-- The rows and the catalog. -/
structure CronState where
  rows : Table ScheduledTask.key
  catalog : Catalog

/-! ### Rows and the jobs they emit -/

/-- `ScheduledTask.schedule_pg_cron_job`, which raises when the catalog refuses the cron. -/
def schedulePgCronJob (db : AppDatabase) (c : Catalog) (r : ScheduledTask) : Option Catalog :=
  scheduleJob db c r.name r.source.value r.cron (buildScheduledCommand r.source.value r.name)
    r.enabled

/-- `ScheduledTask.unschedule_pg_cron_job`. -/
def unschedulePgCronJob (db : AppDatabase) (c : Catalog) (r : ScheduledTask) : Catalog :=
  unscheduleJob db c r.name r.source.value

/-- `emit_schedule_change` after a save: a refusal is swallowed. -/
def emitSchedule (db : AppDatabase) (c : Catalog) (r : ScheduledTask) : Catalog :=
  (schedulePgCronJob db c r).getD c

/-- Saving a row. -/
def CronState.save (db : AppDatabase) (st : CronState) (r : ScheduledTask) : CronState where
  rows := st.rows.put r
  catalog := emitSchedule db st.catalog r

/-- `update_or_create`, with whether the row was created. Every column is among the
defaults. -/
def CronState.updateOrCreate (db : AppDatabase) (st : CronState) (r : ScheduledTask) :
    CronState × Bool :=
  (st.save db r, (st.rows.get? r.key).isNone)

/-- `QuerySet.delete`, with the number of rows. -/
def CronState.deleteRows (db : AppDatabase) (st : CronState) (p : ScheduledTask → Bool) :
    CronState × ℕ :=
  let deleted := st.rows.rows.filter p
  ({ rows := st.rows.delete p
     catalog := deleted.foldl (unschedulePgCronJob db) st.catalog }, deleted.length)

/-! ### The reconcile -/

/-- `CLEANUP_SOURCE`. -/
def cleanupSource : String := "c"

/-- `CLEANUP_NAME`. -/
def cleanupName : String := "cleanup_all"

/-- `CLEANUP_COMMAND`. -/
def cleanupCommand : String := "select * from absurd.cleanup_all_queues(null::text);"

/-- `get_cleanup_schedule`, of the member `schedule` of `CLEANUP`. -/
def getCleanupSchedule (schedule : Option String) : Option String :=
  schedule.filter (· ≠ "")

/-- `reconcile_cleanup_job`. -/
def reconcileCleanupJob (db : AppDatabase) (c : Catalog) (cleanup : Option String) :
    Option Catalog :=
  match getCleanupSchedule cleanup with
  | some cron => scheduleJob db c cleanupName cleanupSource cron cleanupCommand true
  | none => some (unscheduleJob db c cleanupName cleanupSource)

/-- The loop of `sync_crons` over the rows of the declared schedules, in order. It stops where
a row cannot be built, and counts the rows it creates. -/
def upsertSchedules (db : AppDatabase) :
    List (Option ScheduledTask) → CronState → ℕ → CronState × Option ℕ
  | [], st, created => (st, some created)
  | none :: _, st, _ => (st, none)
  | some r :: rest, st, created =>
      let (st, wasCreated) := st.updateOrCreate db r
      upsertSchedules db rest st (created + wasCreated.toNat)

/-- `sync_crons` for the declared schedules and their rows: the state it leaves, and the rows
created and pruned unless it raises. -/
def syncCrons (db : AppDatabase) (schedules : List Schedule)
    (row : Schedule → Option ScheduledTask) (cleanup : Option String) (st : CronState) :
    CronState × Option (ℕ × ℕ) :=
  let declared := schedules.map Schedule.name
  match upsertSchedules db (schedules.map row) st 0 with
  | (st, none) => (st, none)
  | (st, some created) =>
      let (st, pruned) := st.deleteRows db
        (fun r => r.source = .settings && decide (r.name ∉ declared))
      let st := { st with catalog := pruneJobs db st.catalog Source.settings.value declared }
      match reconcileCleanupJob db st.catalog cleanup with
      | none => (st, none)
      | some catalog => ({ st with catalog }, some (created, pruned))

/-- The loop of `sync_admin_crons`: it stops at the first cron the catalog refuses. The flag
says that it did not. -/
def scheduleAll (db : AppDatabase) : List ScheduledTask → Catalog → Catalog × Bool
  | [], c => (c, true)
  | r :: rest, c =>
      match schedulePgCronJob db c r with
      | none => (c, false)
      | some c => scheduleAll db rest c

/-- The admin rows. -/
def CronState.adminRows (st : CronState) : List ScheduledTask :=
  st.rows.rows.filter (fun r => r.source = .admin)

/-- `sync_admin_crons`. -/
def syncAdminCrons (db : AppDatabase) (st : CronState) : CronState :=
  match scheduleAll db st.adminRows st.catalog with
  | (catalog, false) => { st with catalog }
  | (catalog, true) =>
      { st with
        catalog := pruneJobs db catalog Source.admin.value (st.adminRows.map (·.name)) }

/-- `reconcile_crons_after_migrate`, for a backend whose schedules are to be synced. What
`sync_crons` raises ends it. -/
def reconcileCronsAfterMigrate (db : AppDatabase) (schedules : List Schedule)
    (row : Schedule → Option ScheduledTask) (cleanup : Option String) (st : CronState) :
    CronState :=
  match syncCrons db schedules row cleanup st with
  | (st, none) => st
  | (st, some _) => syncAdminCrons db st

/-! ### Lanes -/

/-- The sources of the lanes the package owns. -/
def laneSources : List String := [Source.settings.value, Source.admin.value, cleanupSource]

theorem length_of_mem_laneSources {source : String} (h : source ∈ laneSources) :
  source.toList.length = 1
  := by
  simp only [laneSources, List.mem_cons, List.not_mem_nil, or_false] at h
  rcases h with rfl | rfl | rfl <;> rfl

theorem value_mem_laneSources (source : Source) :
  source.value ∈ laneSources
  := by
  cases source <;> decide

theorem value_injective {source source' : Source} (h : source.value = source'.value) :
  source = source'
  := by
  cases source <;> cases source' <;> first | rfl | exact absurd h (by decide)

theorem value_ne_cleanupSource (source : Source) :
  source.value ≠ cleanupSource
  := by
  cases source <;> decide

/-- Names of jobs in different lanes differ. -/
theorem buildJobname_ne {db : AppDatabase} {source source' : String} (hs : source ∈ laneSources)
    (hs' : source' ∈ laneSources) (h : source ≠ source') (name name' : String) :
  buildJobname db.name source name ≠ buildJobname db.name source' name'
  := fun heq => h (buildJobname_injective (length_of_mem_laneSources hs)
    (length_of_mem_laneSources hs') heq).1

/-- The job of a row is named after its key. -/
theorem jobname_injective {db : AppDatabase} {r r' : ScheduledTask}
    (h : r.jobname db = r'.jobname db) :
  r.key = r'.key
  := by
  obtain ⟨hsource, hname⟩ := buildJobname_injective
    (length_of_mem_laneSources (value_mem_laneSources r.source))
    (length_of_mem_laneSources (value_mem_laneSources r'.source)) h
  rw [ScheduledTask.key, ScheduledTask.key, value_injective hsource, hname]

/-- A job the app owns in a lane has a name of the lane. -/
theorem jobname_of_owns {db : AppDatabase} {source : String} {j : Job}
    (h : db.owns source j = true) :
  ∃ name, j.jobname = buildJobname db.name source name
  := by
  rw [AppDatabase.owns, Bool.and_eq_true, startsWith, List.isPrefixOf_iff_prefix] at h
  obtain ⟨rest, hrest⟩ := h.2
  use String.ofList rest
  apply String.toList_inj.mp
  rw [← hrest]
  simp [buildJobname, String.toList_append]

/-- A job of the app's database with a name of a lane is owned in that lane alone. -/
theorem owns_of_jobname {db : AppDatabase} {source source' name : String} {j : Job}
    (hs : source ∈ laneSources) (hs' : source' ∈ laneSources) (hdatabase : j.database = db.name)
    (hname : j.jobname = buildJobname db.name source name) :
  db.owns source' j = decide (source = source')
  := by
  rw [Bool.eq_iff_iff, AppDatabase.owns, Bool.and_eq_true, hname, decide_eq_true_eq,
    decide_eq_true_eq, startsWith_buildJobname db.name name (length_of_mem_laneSources hs)
      (length_of_mem_laneSources hs')]
  exact ⟨And.right, fun h => ⟨hdatabase, h⟩⟩

/-- The jobs named for the lanes of the app's database run in it. -/
def Catalog.Belongs (db : AppDatabase) (c : Catalog) : Prop :=
  ∀ source ∈ laneSources, ∀ name j,
    c.jobs.get? (buildJobname db.name source name) = some j → j.database = db.name

/-- A catalog with no other jobs belongs to the app's database too. -/
theorem Catalog.Belongs.of_subset {db : AppDatabase} {c c' : Catalog} (h : c.Belongs db)
    (hsubset : ∀ n j, c'.jobs.get? n = some j → c.jobs.get? n = some j) :
  c'.Belongs db
  := fun source hsource name j hj => h source hsource name j (hsubset _ j hj)

/-! ### Scheduling the jobs of rows -/

/-- A job is that of a row: its name, its cron, its command and its active flag. -/
structure Runs (db : AppDatabase) (r : ScheduledTask) (j : Job) : Prop where
  jobname : j.jobname = r.jobname db
  schedule : j.schedule = r.cron
  command : j.command = buildScheduledCommand r.source.value r.name
  database : j.database = db.name
  active : j.active = r.enabled

/-- A row has its job in the catalog. -/
def Catalog.HasJob (db : AppDatabase) (c : Catalog) (r : ScheduledTask) : Prop :=
  ∃ j, c.jobs.get? (r.jobname db) = some j ∧ Runs db r j

variable {db : AppDatabase} {c c' : Catalog} {r : ScheduledTask}

theorem isSome_schedulePgCronJob (hinert : db.inert = false) (c : Catalog) (r : ScheduledTask) :
  (schedulePgCronJob db c r).isSome = db.accepts r.cron
  := isSome_scheduleJob hinert c _ _ _ _ _

theorem get?_schedulePgCronJob_of_ne (hinert : db.inert = false)
    (h : schedulePgCronJob db c r = some c') {n : String} (hn : n ≠ r.jobname db) :
  c'.jobs.get? n = c.jobs.get? n
  := by
  rw [ScheduledTask.jobname] at hn
  rw [get?_scheduleJob hinert h, if_neg hn]

theorem hasJob_schedulePgCronJob (hinert : db.inert = false) (hbelongs : c.Belongs db)
    (h : schedulePgCronJob db c r = some c') :
  c'.HasJob db r
  := by
  refine ⟨_, by rw [get?_scheduleJob hinert h, ScheduledTask.jobname, if_pos rfl], ?_⟩
  rw [Catalog.scheduled]
  cases hj : c.jobs.get? (buildJobname db.name r.source.value r.name) with
  | none => exact ⟨rfl, rfl, rfl, rfl, rfl⟩
  | some j =>
      have hdatabase := hbelongs _ (value_mem_laneSources r.source) r.name j hj
      have hname : j.jobname = r.jobname db := Table.key_of_get? hj
      exact ⟨hname, rfl, rfl, hdatabase, rfl⟩

theorem belongs_schedulePgCronJob (hinert : db.inert = false) (hbelongs : c.Belongs db)
    (h : schedulePgCronJob db c r = some c') :
  c'.Belongs db
  := by
  intro source hsource name j hj
  by_cases hn : buildJobname db.name source name = r.jobname db
  · obtain ⟨j', hj', hruns⟩ := hasJob_schedulePgCronJob hinert hbelongs h
    rw [hn, hj'] at hj
    cases hj
    exact hruns.database
  · rw [get?_schedulePgCronJob_of_ne hinert h hn] at hj
    exact hbelongs source hsource name j hj

/-- Scheduling a job a row has changes nothing. -/
theorem get?_schedulePgCronJob_of_hasJob (hinert : db.inert = false) (hjob : c.HasJob db r)
    (h : schedulePgCronJob db c r = some c') (n : String) :
  c'.jobs.get? n = c.jobs.get? n
  := by
  obtain ⟨j, hj, hruns⟩ := hjob
  exact get?_scheduleJob_of_same hinert hj ⟨hruns.schedule, hruns.command, hruns.active⟩ h n

/-! ### The emissions of saved rows -/

theorem emitSchedule_of_accepts (hinert : db.inert = false) (h : db.accepts r.cron = true) :
  schedulePgCronJob db c r = some (emitSchedule db c r)
  := by
  have hsome := isSome_schedulePgCronJob hinert c r
  rw [h] at hsome
  obtain ⟨c', hc'⟩ := Option.isSome_iff_exists.mp hsome
  rw [emitSchedule, hc', Option.getD_some]

theorem emitSchedule_of_refused (hinert : db.inert = false) (h : db.accepts r.cron = false) :
  emitSchedule db c r = c
  := by
  have hnone := isSome_schedulePgCronJob hinert c r
  rw [h, Option.isSome_eq_false_iff, Option.isNone_iff_eq_none] at hnone
  rw [emitSchedule, hnone, Option.getD_none]

theorem get?_emitSchedule_of_ne (hinert : db.inert = false) {n : String}
    (hn : n ≠ r.jobname db) :
  (emitSchedule db c r).jobs.get? n = c.jobs.get? n
  := by
  cases haccepts : db.accepts r.cron with
  | true => exact get?_schedulePgCronJob_of_ne hinert (emitSchedule_of_accepts hinert haccepts) hn
  | false => rw [emitSchedule_of_refused hinert haccepts]

theorem belongs_emitSchedule (hinert : db.inert = false) (hbelongs : c.Belongs db) :
  (emitSchedule db c r).Belongs db
  := by
  cases haccepts : db.accepts r.cron with
  | true =>
      exact belongs_schedulePgCronJob hinert hbelongs (emitSchedule_of_accepts hinert haccepts)
  | false => rwa [emitSchedule_of_refused hinert haccepts]

theorem get?_emitSchedule_of_hasJob (hinert : db.inert = false) (hjob : c.HasJob db r)
    (n : String) :
  (emitSchedule db c r).jobs.get? n = c.jobs.get? n
  := by
  cases haccepts : db.accepts r.cron with
  | true =>
      exact get?_schedulePgCronJob_of_hasJob hinert hjob
        (emitSchedule_of_accepts hinert haccepts) n
  | false => rw [emitSchedule_of_refused hinert haccepts]

/-- Whether a row has its job depends on the job of its name. -/
theorem HasJob.congr (h : c.HasJob db r) (hn : c'.jobs.get? (r.jobname db)
      = c.jobs.get? (r.jobname db)) :
  c'.HasJob db r
  := by
  obtain ⟨j, hj, hruns⟩ := h
  exact ⟨j, hn.trans hj, hruns⟩

section Emissions

variable {rs : List ScheduledTask}

theorem get?_foldl_emitSchedule (hinert : db.inert = false) {n : String}
    (h : ∀ r ∈ rs, n ≠ r.jobname db) :
  (rs.foldl (emitSchedule db) c).jobs.get? n = c.jobs.get? n
  := by
  induction rs generalizing c with
  | nil => rfl
  | cons r rs ih =>
      rw [List.foldl_cons, ih (fun r' hr' => h r' (List.mem_cons_of_mem _ hr')),
        get?_emitSchedule_of_ne hinert (h r List.mem_cons_self)]

theorem belongs_foldl_emitSchedule (hinert : db.inert = false) (h : c.Belongs db) :
  (rs.foldl (emitSchedule db) c).Belongs db
  := by
  induction rs generalizing c with
  | nil => exact h
  | cons r rs ih =>
      rw [List.foldl_cons]
      apply ih (belongs_emitSchedule hinert h)

/-- Every row whose cron is accepted has its job once the rows are saved. -/
theorem hasJob_foldl_emitSchedule (hinert : db.inert = false) (hbelongs : c.Belongs db)
    (hnodup : (rs.map ScheduledTask.key).Nodup) (hr : r ∈ rs)
    (haccepts : db.accepts r.cron = true) :
  (rs.foldl (emitSchedule db) c).HasJob db r
  := by
  induction rs generalizing c with
  | nil => cases hr
  | cons r' rs ih =>
      rw [List.map_cons, List.nodup_cons] at hnodup
      rw [List.foldl_cons]
      rcases List.mem_cons.mp hr with rfl | hr
      · have hjob := hasJob_schedulePgCronJob hinert hbelongs
          (emitSchedule_of_accepts hinert haccepts)
        apply HasJob.congr hjob
        apply get?_foldl_emitSchedule hinert
        intro r' hr' heq
        apply hnodup.1
        rw [jobname_injective heq]
        apply List.mem_map_of_mem hr'
      · exact ih (belongs_emitSchedule hinert hbelongs) hnodup.2 hr

/-- Saving rows that have their jobs changes no job. -/
theorem get?_foldl_emitSchedule_of_hasJob (hinert : db.inert = false)
    (h : ∀ r ∈ rs, c.HasJob db r) (n : String) :
  (rs.foldl (emitSchedule db) c).jobs.get? n = c.jobs.get? n
  := by
  induction rs generalizing c with
  | nil => rfl
  | cons r rs ih =>
      have hr := h r List.mem_cons_self
      rw [List.foldl_cons, ih, get?_emitSchedule_of_hasJob hinert hr]
      intro r' hr'
      apply HasJob.congr (h r' (List.mem_cons_of_mem _ hr'))
      apply get?_emitSchedule_of_hasJob hinert hr

/-- The admin loop schedules the rows before the first whose cron is refused. -/
theorem scheduleAll_eq (hinert : db.inert = false) (rs : List ScheduledTask) (c : Catalog) :
  scheduleAll db rs c
    = ((rs.takeWhile (fun r => db.accepts r.cron)).foldl (emitSchedule db) c,
        rs.all (fun r => db.accepts r.cron))
  := by
  induction rs generalizing c with
  | nil => rfl
  | cons r rs ih =>
      rw [scheduleAll]
      cases haccepts : db.accepts r.cron with
      | true =>
          rw [emitSchedule_of_accepts hinert haccepts]
          simp only [ih, List.takeWhile_cons, haccepts, if_true, List.foldl_cons, List.all_cons,
            Bool.true_and]
      | false =>
          have hnone := isSome_schedulePgCronJob hinert c r
          rw [haccepts, Option.isSome_eq_false_iff, Option.isNone_iff_eq_none] at hnone
          simp [hnone, haccepts]

theorem get?_foldl_unschedulePgCronJob (hinert : db.inert = false) (n : String) :
  (rs.foldl (unschedulePgCronJob db) c).jobs.get? n
    = if n ∈ rs.map (fun r => r.jobname db) then none else c.jobs.get? n
  := by
  induction rs generalizing c with
  | nil => simp
  | cons r rs ih =>
      rw [List.foldl_cons, ih, unschedulePgCronJob, get?_unscheduleJob hinert,
        ← ScheduledTask.jobname]
      by_cases hr : n = r.jobname db <;> by_cases hrs : n ∈ rs.map (fun r => r.jobname db) <;>
        simp [hr, hrs]

end Emissions

end DjangoAbsurd
