import DjangoAbsurd.Library.Table
import DjangoAbsurd.Python

/-!
# The catalog of `pg_cron`

`cron.job` holds the jobs of every database of the cluster. A job is scheduled by its name:
an existing job keeps its id, its database and its active flag, which `cron.alter_job` sets.
It is removed by its id.

Each verb of the catalog looks like a change of the jobs by their names: `get?_scheduleJob`,
`get?_unscheduleJob` and `get?_pruneJobs`.
-/

namespace DjangoAbsurd

open Keyed (Table Edit)

/-- A row of `cron.job`. -/
structure Job where
  jobid : ℕ
  jobname : String
  schedule : String
  command : String
  database : String
  active : Bool
  deriving DecidableEq, Repr

/-- `cron.job`, with the next value of its sequence of ids. -/
structure Catalog where
  jobs : Table Job.jobname
  next : ℕ
  fresh : ∀ j ∈ jobs.rows, j.jobid < next
  ids : ∀ j ∈ jobs.rows, ∀ j' ∈ jobs.rows, j.jobid = j'.jobid → j = j'

namespace Catalog

/-- The job of a name, as `cron.schedule_in_database` leaves it. -/
def scheduled (c : Catalog) (jobname schedule command database : String) (active : Bool) : Job :=
  match c.jobs.get? jobname with
  | some j => { j with schedule, command }
  | none => { jobid := c.next, jobname, schedule, command, database, active }

theorem jobname_scheduled (c : Catalog) (jobname schedule command database : String)
    (active : Bool) :
  (c.scheduled jobname schedule command database active).jobname = jobname
  := by
  rw [scheduled]
  cases hj : c.jobs.get? jobname with
  | none => rfl
  | some j =>
      have hname : j.jobname = jobname := Table.key_of_get? hj
      exact hname

/-- The id of a scheduled job is new or that of the job it replaces. -/
theorem jobid_scheduled {c : Catalog} {jobname schedule command database : String}
    {active : Bool} {j : Job} (hj : j ∈ c.jobs.rows) (hne : j.jobname ≠ jobname) :
  j.jobid ≠ (c.scheduled jobname schedule command database active).jobid
  := by
  rw [scheduled]
  split
  · rename_i j' hj'
    intro hid
    apply hne
    rw [c.ids j hj j' (Table.mem_of_get? hj') hid, Table.key_of_get? hj']
  · apply Nat.ne_of_lt (c.fresh j hj)

/-- `cron.schedule_in_database`, which returns the id. -/
def scheduleInDatabase (c : Catalog) (jobname schedule command database : String)
    (active : Bool) : Catalog × ℕ :=
  let job := c.scheduled jobname schedule command database active
  ({ jobs := c.jobs.put job
     next := c.next + 1
     fresh := by
       intro j hj
       rcases Table.mem_put.mp hj with rfl | ⟨hj, -⟩
       · simp only [job, scheduled]
         split
         · rename_i j hj
           apply Nat.lt_succ_of_lt (c.fresh j (Table.mem_of_get? hj))
         · apply Nat.lt_succ_self
       · apply Nat.lt_succ_of_lt (c.fresh j hj)
     ids := by
       have hname : job.jobname = jobname := c.jobname_scheduled _ _ _ _ _
       intro j hj j' hj' hid
       rcases Table.mem_put.mp hj with rfl | ⟨hj, hne⟩
       · rcases Table.mem_put.mp hj' with rfl | ⟨hj', hne'⟩
         · rfl
         · exact absurd hid.symm (jobid_scheduled hj' (by rwa [hname] at hne'))
       · rcases Table.mem_put.mp hj' with rfl | ⟨hj', -⟩
         · exact absurd hid (jobid_scheduled hj (by rwa [hname] at hne))
         · exact c.ids j hj j' hj' hid },
    job.jobid)

/-- `cron.alter_job(jobid, active := active)`. -/
def alterJob (c : Catalog) (jobid : ℕ) (active : Bool) : Catalog where
  jobs := c.jobs.update (fun j => j.jobid = jobid) ⟨fun j => { j with active }, fun _ => rfl⟩
  next := c.next
  fresh := by
    intro j hj
    obtain ⟨j₀, hj₀, rfl⟩ := Table.mem_update.mp hj
    split <;> exact c.fresh j₀ hj₀
  ids := by
    intro j hj j' hj' hid
    obtain ⟨j₀, hj₀, rfl⟩ := Table.mem_update.mp hj
    obtain ⟨j₁, hj₁, rfl⟩ := Table.mem_update.mp hj'
    have hsame : j₀ = j₁ := by
      apply c.ids j₀ hj₀ j₁ hj₁
      split at hid <;> split at hid <;> exact hid
    rw [hsame]

/-- `cron.unschedule(jobid)`, with the error for a job that is gone swallowed. -/
def unschedule (c : Catalog) (jobid : ℕ) : Catalog where
  jobs := c.jobs.delete (fun j => j.jobid = jobid)
  next := c.next
  fresh j hj := c.fresh j (Table.mem_delete.mp hj).1
  ids j hj j' hj' := c.ids j (Table.mem_delete.mp hj).1 j' (Table.mem_delete.mp hj').1

/-- `unschedule_jobids`. -/
def unscheduleJobids (c : Catalog) (jobids : List ℕ) : Catalog :=
  jobids.foldl unschedule c

/-- The ids of the jobs satisfying `p`. -/
def select (c : Catalog) (p : Job → Bool) : List ℕ :=
  (c.jobs.rows.filter p).map Job.jobid

/-! ### The verbs by name -/

theorem get?_unscheduleJobids (jobname : String) :
  ∀ (jobids : List ℕ) (c : Catalog), (c.unscheduleJobids jobids).jobs.get? jobname
    = (c.jobs.get? jobname).filter (fun j => decide (j.jobid ∉ jobids))
  | [], c => by
      rw [unscheduleJobids, List.foldl_nil]
      cases c.jobs.get? jobname <;> rfl
  | jobid :: jobids, c => by
      have htail := get?_unscheduleJobids jobname jobids (c.unschedule jobid)
      rw [unscheduleJobids, List.foldl_cons, ← unscheduleJobids, htail, unschedule,
        Table.get?_delete, Option.filter_filter]
      congr 1
      funext j
      simp

/-- Unscheduling the jobs satisfying `p` leaves the others. -/
theorem get?_unscheduleJobids_select (c : Catalog) (p : Job → Bool) (jobname : String) :
  (c.unscheduleJobids (c.select p)).jobs.get? jobname
    = (c.jobs.get? jobname).filter (fun j => !p j)
  := by
  rw [get?_unscheduleJobids]
  cases hj : c.jobs.get? jobname with
  | none => rfl
  | some j =>
      have hmem : j.jobid ∈ c.select p ↔ p j = true := by
        rw [select, List.mem_map]
        constructor
        · rintro ⟨j', hj', hid⟩
          obtain ⟨hrow, hp⟩ := List.mem_filter.mp hj'
          rwa [c.ids j' hrow j (Table.mem_of_get? hj) hid] at hp
        · intro hp
          exact ⟨j, List.mem_filter.mpr ⟨Table.mem_of_get? hj, hp⟩, rfl⟩
      rw [Option.filter_some, Option.filter_some]
      cases hp : p j <;> simp [hmem, hp]

/-- Scheduling a job and setting its active flag changes the job of its name. -/
theorem get?_schedule (c : Catalog) (jobname schedule command database : String) (active : Bool)
    (n : String) :
  let s := c.scheduleInDatabase jobname schedule command database active
  (s.1.alterJob s.2 active).jobs.get? n
    = if n = jobname then
        some { c.scheduled jobname schedule command database active with active }
      else c.jobs.get? n
  := by
  intro s
  have hname := c.jobname_scheduled jobname schedule command database active
  simp only [alterJob, Table.get?_update]
  split
  · rename_i hn
    subst hn
    have hself : s.1.jobs.get? n = some (c.scheduled n schedule command database active) := by
      have hput := Table.get?_put_self c.jobs (c.scheduled n schedule command database active)
      rwa [hname] at hput
    rw [hself]
    simp [s, scheduleInDatabase]
  · rename_i hn
    have hother : s.1.jobs.get? n = c.jobs.get? n := by
      apply Table.get?_put_of_ne
      rwa [hname]
    rw [hother]
    cases hj : c.jobs.get? n with
    | none => rfl
    | some j =>
        have hid : j.jobid ≠ s.2 := by
          apply jobid_scheduled (Table.mem_of_get? hj)
          rwa [Table.key_of_get? hj]
        simp [hid]

end Catalog

/-! ### The seam of the package -/

/-- The database of the app: its live name, whether `is_pg_cron_inert` holds of it, and the
schedules the central catalog accepts. -/
structure AppDatabase where
  name : String
  inert : Bool
  accepts : String → Bool

/-- `starts_with(s, head)`. -/
def startsWith (s head : String) : Bool :=
  head.toList.isPrefixOf s.toList

/-- `build_jobname`. -/
def buildJobname (database source name : String) : String :=
  "_dj:" ++ database ++ ":" ++ source ++ ":" ++ name

/-- `schedule_job`. It raises, and the catalog stays as it was, when the schedule is refused. -/
def scheduleJob (db : AppDatabase) (c : Catalog) (name source cron command : String)
    (active : Bool) : Option Catalog :=
  if db.inert then some c
  else if db.accepts cron then
    let (c, jobid) := c.scheduleInDatabase (buildJobname db.name source name) cron command db.name
      active
    some (c.alterJob jobid active)
  else none

/-- `unschedule_job`. -/
def unscheduleJob (db : AppDatabase) (c : Catalog) (name source : String) : Catalog :=
  if db.inert then c
  else c.unscheduleJobids (c.select (fun j => j.jobname = buildJobname db.name source name))

/-- A job of the app's database in the lane of a source. -/
def AppDatabase.owns (db : AppDatabase) (source : String) (j : Job) : Bool :=
  j.database = db.name && startsWith j.jobname (buildJobname db.name source "")

/-- `prune_jobs`. -/
def pruneJobs (db : AppDatabase) (c : Catalog) (source : String) (keepNames : List String) :
    Catalog :=
  if db.inert then c
  else
    let keep := keepNames.map (buildJobname db.name source)
    c.unscheduleJobids (c.select (fun j => db.owns source j && decide (j.jobname ∉ keep)))

variable {db : AppDatabase}

theorem get?_scheduleJob {c c' : Catalog} {name source cron command : String} {active : Bool}
    (hinert : db.inert = false) (h : scheduleJob db c name source cron command active = some c')
    (n : String) :
  c'.jobs.get? n
    = if n = buildJobname db.name source name then
        some { c.scheduled (buildJobname db.name source name) cron command db.name active with
          active }
      else c.jobs.get? n
  := by
  rw [scheduleJob, hinert, if_neg (by simp)] at h
  split at h
  · cases h
    apply c.get?_schedule
  · cases h

/-- Scheduling a job the catalog has changes nothing. -/
theorem get?_scheduleJob_of_same {c c' : Catalog} {name source cron command : String}
    {active : Bool} {j : Job} (hinert : db.inert = false)
    (hj : c.jobs.get? (buildJobname db.name source name) = some j)
    (hsame : j.schedule = cron ∧ j.command = command ∧ j.active = active)
    (h : scheduleJob db c name source cron command active = some c') (n : String) :
  c'.jobs.get? n = c.jobs.get? n
  := by
  rw [get?_scheduleJob hinert h]
  split
  · rename_i hn
    obtain ⟨rfl, rfl, rfl⟩ := hsame
    simp only [Catalog.scheduled, hj, hn]
  · rfl

theorem isSome_scheduleJob (hinert : db.inert = false) (c : Catalog)
    (name source cron command : String) (active : Bool) :
  (scheduleJob db c name source cron command active).isSome = db.accepts cron
  := by
  rw [scheduleJob, hinert, if_neg (by simp)]
  cases db.accepts cron <;> rfl

theorem get?_unscheduleJob (hinert : db.inert = false) (c : Catalog) (name source : String)
    (n : String) :
  (unscheduleJob db c name source).jobs.get? n
    = if n = buildJobname db.name source name then none else c.jobs.get? n
  := by
  rw [unscheduleJob, hinert, if_neg (by simp), c.get?_unscheduleJobids_select]
  cases hj : c.jobs.get? n with
  | none => simp
  | some j =>
      have hname : j.jobname = n := Table.key_of_get? hj
      rw [Option.filter_some, hname]
      by_cases hn : n = buildJobname db.name source name <;> simp [hn]

theorem get?_pruneJobs (hinert : db.inert = false) (c : Catalog) (source : String)
    (keepNames : List String) (n : String) :
  (pruneJobs db c source keepNames).jobs.get? n
    = (c.jobs.get? n).filter
        (fun j => !db.owns source j || decide (n ∈ keepNames.map (buildJobname db.name source)))
  := by
  rw [pruneJobs, hinert, if_neg (by simp), c.get?_unscheduleJobids_select]
  cases hj : c.jobs.get? n with
  | none => rfl
  | some j =>
      have hname : j.jobname = n := Table.key_of_get? hj
      rw [Option.filter_some, Option.filter_some, hname]
      cases db.owns source j <;> simp

/-! ### Names of jobs -/

/-- The name of a job names its lane and its row. -/
theorem buildJobname_injective {database source source' name name' : String}
    (hs : source.toList.length = 1) (hs' : source'.toList.length = 1)
    (h : buildJobname database source name = buildJobname database source' name') :
  source = source' ∧ name = name'
  := by
  have hlist := congrArg String.toList h
  simp only [buildJobname, String.toList_append, List.append_assoc,
    List.append_cancel_left_eq] at hlist
  obtain ⟨hsource, hrest⟩ := List.append_inj hlist (hs.trans hs'.symm)
  exact ⟨String.toList_inj.mp hsource, String.toList_inj.mp (List.append_cancel_left hrest)⟩

/-- A job's name starts with the head of its own lane and of no other. -/
theorem startsWith_buildJobname {source source' : String} (database name : String)
    (hs : source.toList.length = 1) (hs' : source'.toList.length = 1) :
  startsWith (buildJobname database source name) (buildJobname database source' "") = true
    ↔ source = source'
  := by
  rw [startsWith, List.isPrefixOf_iff_prefix]
  simp only [buildJobname, String.toList_append, List.append_assoc, List.prefix_append_right_inj]
  constructor
  · rintro ⟨rest, hrest⟩
    rw [List.append_assoc] at hrest
    exact String.toList_inj.mp (List.append_inj hrest (hs'.trans hs.symm)).1.symm
  · rintro rfl
    rw [List.prefix_append_right_inj, List.prefix_append_right_inj]
    apply List.nil_prefix

end DjangoAbsurd
