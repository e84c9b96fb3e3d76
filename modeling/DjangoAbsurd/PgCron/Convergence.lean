import DjangoAbsurd.PgCron.Lanes
import DjangoAbsurd.PgCron.Reconcile
import Mathlib.Data.List.TakeWhile

/-!
# Convergence of the reconcile

Whatever rows and jobs it starts from, the reconcile leaves the declared schedules and the
admin rows with one job each in their lanes, and running it again changes nothing. The
argument follows the names of the jobs through the steps: the settings lane is settled by the
saved rows, the deleted rows and the prune, the cleanup job by its own step, and the admin
lane by the admin loop and its prune.
-/

namespace DjangoAbsurd

open Keyed (Table)

/-- The rows of the declared schedules, in order. -/
structure Declares (schedules : List Schedule) (row : Schedule → Option ScheduledTask)
    (rs : List ScheduledTask) : Prop where
  rows : schedules.map row = rs.map some
  source : ∀ r ∈ rs, r.source = .settings
  names : rs.map ScheduledTask.name = schedules.map Schedule.name
  nodup : (schedules.map Schedule.name).Nodup

namespace Declares

variable {schedules : List Schedule} {row : Schedule → Option ScheduledTask}
  {rs : List ScheduledTask}

theorem mem_iff (h : Declares schedules row rs) {r : ScheduledTask} :
  r ∈ rs ↔ ∃ s ∈ schedules, row s = some r
  := by
  have hmap : some r ∈ rs.map some ↔ some r ∈ schedules.map row := by rw [h.rows]
  rwa [List.mem_map_of_injective (Option.some_injective _), List.mem_map] at hmap

theorem nodup_key (h : Declares schedules row rs) :
  (rs.map ScheduledTask.key).Nodup
  := by
  have hnames : ((rs.map ScheduledTask.key).map Prod.snd).Nodup := by
    rw [List.map_map]
    exact h.names ▸ h.nodup
  exact List.Nodup.of_map _ hnames

/-- A settings row with a declared name has the key of a declared row. -/
theorem key_mem (h : Declares schedules row rs) {r : ScheduledTask} (hr : r.source = .settings) :
  r.key ∈ rs.map ScheduledTask.key ↔ r.name ∈ schedules.map Schedule.name
  := by
  rw [← h.names, List.mem_map, List.mem_map]
  constructor
  · rintro ⟨r', hr', hkey⟩
    exact ⟨r', hr', congrArg Prod.snd hkey⟩
  · rintro ⟨r', hr', hname⟩
    use r', hr'
    rw [ScheduledTask.key, ScheduledTask.key, h.source r' hr', hr, hname]

end Declares

/-! ### The rows -/

/-- The settings rows that are no longer declared. -/
def undeclared (schedules : List Schedule) (r : ScheduledTask) : Bool :=
  r.source = .settings && decide (r.name ∉ schedules.map Schedule.name)

/-- The rows `sync_crons` leaves. -/
def settledRows (schedules : List Schedule) (rs : List ScheduledTask)
    (rows : Table ScheduledTask.key) : Table ScheduledTask.key :=
  (rs.foldl Table.put rows).delete (undeclared schedules)

/-- The catalog `sync_crons` leaves before it turns to the cleanup job. -/
def settledCatalog (db : AppDatabase) (schedules : List Schedule) (rs : List ScheduledTask)
    (st : CronState) : Catalog :=
  pruneJobs db
    (((rs.foldl Table.put st.rows).rows.filter (undeclared schedules)).foldl
      (unschedulePgCronJob db) (rs.foldl (emitSchedule db) st.catalog))
    Source.settings.value (schedules.map Schedule.name)

section Sync

variable {db : AppDatabase} {schedules : List Schedule}
  {row : Schedule → Option ScheduledTask} {rs : List ScheduledTask} {cleanup : Option String}
  {st : CronState}

/-- The loop over the declared schedules saves their rows, and creates none of those that
are there. -/
theorem upsertSchedules_eq (db : AppDatabase) (rs : List ScheduledTask) (st : CronState)
    (created : ℕ) :
  ∃ n, upsertSchedules db (rs.map some) st created
      = (⟨rs.foldl Table.put st.rows, rs.foldl (emitSchedule db) st.catalog⟩, some (created + n))
    ∧ ((∀ r ∈ rs, r ∈ st.rows.rows) → n = 0)
  := by
  induction rs generalizing st created with
  | nil => exact ⟨0, rfl, fun _ => rfl⟩
  | cons r rs ih =>
      obtain ⟨n, hn, hzero⟩ := ih (st.save db r) (created + (st.rows.get? r.key).isNone.toNat)
      use (st.rows.get? r.key).isNone.toNat + n
      constructor
      · rw [List.map_cons, upsertSchedules]
        simp only [CronState.updateOrCreate]
        rw [hn, Nat.add_assoc]
        rfl
      · intro hall
        have hr := hall r List.mem_cons_self
        rw [Table.get?_of_mem hr, hzero]
        · rfl
        · intro r' hr'
          rw [CronState.save, Table.put_eq_self hr]
          exact hall r' (List.mem_cons_of_mem _ hr')

/-- What `sync_crons` leaves, as far as the cleanup job lets it get. -/
theorem syncCrons_eq (db : AppDatabase) (cleanup : Option String) (st : CronState)
    (hd : Declares schedules row rs) :
  ∃ created, syncCrons db schedules row cleanup st
      = (match reconcileCleanupJob db (settledCatalog db schedules rs st) cleanup with
        | none => (⟨settledRows schedules rs st.rows, settledCatalog db schedules rs st⟩, none)
        | some catalog => (⟨settledRows schedules rs st.rows, catalog⟩,
            some (created,
              ((rs.foldl Table.put st.rows).rows.filter (undeclared schedules)).length)))
    ∧ ((∀ r ∈ rs, r ∈ st.rows.rows) → created = 0)
  := by
  obtain ⟨n, hn, hzero⟩ := upsertSchedules_eq db rs st 0
  use 0 + n
  constructor
  · rw [syncCrons, hd.rows, hn]
    rfl
  · intro hall
    rw [hzero hall]

/-- The rows `sync_crons` leaves are the declared ones and those that are not of the
settings. -/
theorem mem_settledRows (hd : Declares schedules row rs) {rows : Table ScheduledTask.key}
    {r : ScheduledTask} :
  r ∈ (settledRows schedules rs rows).rows
    ↔ r ∈ rs ∨ (r ∈ rows.rows ∧ r.source ≠ .settings)
  := by
  rw [settledRows, Table.mem_delete, Table.mem_foldl_put hd.nodup_key, undeclared,
    Bool.and_eq_false_iff, decide_eq_false_iff_not, decide_eq_false_iff_not, not_not]
  constructor
  · rintro ⟨hr | ⟨hr, hkey⟩, hkept⟩
    · left
      exact hr
    · right
      use hr
      rcases hkept with hsource | hname
      · exact hsource
      · intro hsource
        exact hkey ((hd.key_mem hsource).mpr hname)
  · rintro (hr | ⟨hr, hsource⟩)
    · refine ⟨.inl hr, .inr ?_⟩
      rw [← hd.names]
      exact List.mem_map_of_mem hr
    · refine ⟨.inr ⟨hr, ?_⟩, .inl hsource⟩
      intro hkey
      obtain ⟨r', hr', heq⟩ := List.mem_map.mp hkey
      exact hsource ((congrArg Prod.fst heq).symm.trans (hd.source r' hr'))

/-- Saving a settings row leaves the admin rows, in their order. -/
theorem filter_admin_put {r : ScheduledTask} (hr : r.source = .settings)
    (rows : Table ScheduledTask.key) :
  (rows.put r).rows.filter (fun r => r.source = .admin)
    = rows.rows.filter (fun r => r.source = .admin)
  := by
  simp only [Table.put]
  split
  · induction rows.rows with
    | nil => rfl
    | cons x xs ih =>
        rw [List.map_cons, List.filter_cons, List.filter_cons, ih]
        by_cases hx : x.key = r.key
        · have hsource : x.source = .settings := (congrArg Prod.fst hx).trans hr
          simp [hx, hr, hsource]
        · simp [hx]
  · simp [hr]

theorem filter_admin_settledRows (hd : Declares schedules row rs)
    (rows : Table ScheduledTask.key) :
  (settledRows schedules rs rows).rows.filter (fun r => r.source = .admin)
    = rows.rows.filter (fun r => r.source = .admin)
  := by
  have hput : ∀ rs : List ScheduledTask, (∀ r ∈ rs, r.source = .settings) →
      ∀ rows : Table ScheduledTask.key,
      (rs.foldl Table.put rows).rows.filter (fun r => r.source = .admin)
        = rows.rows.filter (fun r => r.source = .admin) := by
    intro rs hrs
    induction rs with
    | nil => exact fun _ => rfl
    | cons r rs ih =>
        intro rows
        rw [List.foldl_cons, ih (fun r' hr' => hrs r' (List.mem_cons_of_mem _ hr')),
          filter_admin_put (hrs r List.mem_cons_self)]
  rw [← hput rs hd.source rows, settledRows, Table.delete, List.filter_filter]
  apply List.filter_congr
  intro r _
  cases hsource : r.source <;> simp [undeclared, hsource]

/-! ### The settings lane -/

theorem HasJob.foldl_unschedulePgCronJob {c : Catalog} {r : ScheduledTask}
    {deleted : List ScheduledTask} (hinert : db.inert = false) (h : c.HasJob db r)
    (hr : ∀ r' ∈ deleted, r'.key ≠ r.key) :
  (deleted.foldl (unschedulePgCronJob db) c).HasJob db r
  := by
  apply HasJob.congr h
  rw [get?_foldl_unschedulePgCronJob hinert, if_neg]
  intro hmem
  obtain ⟨r', hr', hname⟩ := List.mem_map.mp hmem
  exact hr r' hr' (jobname_injective hname)

/-- A prune keeps the jobs of the rows of other lanes and of the names it is to keep. -/
theorem HasJob.pruneJobs {c : Catalog} {r : ScheduledTask} {source : Source}
    {keepNames : List String} (hinert : db.inert = false) (h : c.HasJob db r)
    (hkeep : r.source = source → r.name ∈ keepNames) :
  (pruneJobs db c source.value keepNames).HasJob db r
  := by
  obtain ⟨j, hj, hruns⟩ := h
  refine ⟨j, ?_, hruns⟩
  rw [get?_pruneJobs hinert, hj, Option.filter_some, owns_of_jobname
    (value_mem_laneSources r.source) (value_mem_laneSources source) hruns.database hruns.jobname]
  by_cases hsource : r.source = source
  · have hmem : r.jobname db ∈ keepNames.map (buildJobname db.name source.value) := by
      rw [ScheduledTask.jobname, hsource]
      exact List.mem_map_of_mem (hkeep hsource)
    simp [hmem]
  · have hvalue : r.source.value ≠ source.value := fun h => hsource (value_injective h)
    simp [hvalue]

/-- A job a prune leaves was there, and is kept when it is of the lane. -/
theorem get?_pruneJobs_eq_some {c : Catalog} {source n : String} {keepNames : List String} {j : Job}
    (hinert : db.inert = false) (h : (pruneJobs db c source keepNames).jobs.get? n = some j) :
  c.jobs.get? n = some j
    ∧ (db.owns source j = true → n ∈ keepNames.map (buildJobname db.name source))
  := by
  rw [get?_pruneJobs hinert] at h
  obtain ⟨hj, hkept⟩ := Option.filter_eq_some_iff.mp h
  use hj
  intro howns
  simpa [howns] using hkept

/-- A prune of a lane leaves what is not named for the lane. -/
theorem get?_pruneJobs_of_ne {c : Catalog} {source n : String} {keepNames : List String}
    (hinert : db.inert = false) (hn : ∀ name, n ≠ buildJobname db.name source name) :
  (pruneJobs db c source keepNames).jobs.get? n = c.jobs.get? n
  := by
  rw [get?_pruneJobs hinert]
  cases hj : c.jobs.get? n with
  | none => rfl
  | some j =>
      have howns : db.owns source j = false := by
        by_contra howns
        obtain ⟨name, hname⟩ := jobname_of_owns (Bool.eq_true_of_not_eq_false howns)
        apply hn name
        rw [← hname, Table.key_of_get? hj]
      simp [howns]

/-- A prune that has nothing to prune changes nothing. -/
theorem get?_pruneJobs_of_kept {c : Catalog} {source : String} {keepNames : List String}
    (hinert : db.inert = false) (hkept : ∀ n j, c.jobs.get? n = some j →
      db.owns source j = true → n ∈ keepNames.map (buildJobname db.name source)) (n : String) :
  (pruneJobs db c source keepNames).jobs.get? n = c.jobs.get? n
  := by
  rw [get?_pruneJobs hinert]
  cases hj : c.jobs.get? n with
  | none => rfl
  | some j =>
      cases howns : db.owns source j with
      | false => simp [howns]
      | true => simp [hkept n j hj howns]

theorem ne_jobname_of_source {r : ScheduledTask} {n : String}
    (hn : ∀ name, n ≠ buildJobname db.name Source.settings.value name)
    (hr : r.source = .settings) :
  n ≠ r.jobname db
  := by
  rw [ScheduledTask.jobname, hr]
  exact hn r.name

theorem source_of_undeclared {r : ScheduledTask} (h : undeclared schedules r = true) :
  r.source = .settings ∧ r.name ∉ schedules.map Schedule.name
  := by
  rw [undeclared, Bool.and_eq_true, decide_eq_true_eq, decide_eq_true_eq] at h
  exact h

/-- The jobs that are not named for the settings lane are left. -/
theorem get?_settledCatalog_of_ne (hinert : db.inert = false) (hd : Declares schedules row rs)
    {n : String} (hn : ∀ name, n ≠ buildJobname db.name Source.settings.value name) :
  (settledCatalog db schedules rs st).jobs.get? n = st.catalog.jobs.get? n
  := by
  rw [settledCatalog, get?_pruneJobs_of_ne hinert hn, get?_foldl_unschedulePgCronJob hinert,
    if_neg, get?_foldl_emitSchedule hinert]
  · intro r hr
    exact ne_jobname_of_source hn (hd.source r hr)
  · intro hmem
    obtain ⟨r, hr, hname⟩ := List.mem_map.mp hmem
    exact ne_jobname_of_source hn (source_of_undeclared (List.mem_filter.mp hr).2).1 hname.symm

/-- Every declared row whose cron is accepted has its job. -/
theorem hasJob_settledCatalog (hinert : db.inert = false) (hd : Declares schedules row rs)
    (hbelongs : st.catalog.Belongs db) {r : ScheduledTask} (hr : r ∈ rs)
    (haccepts : db.accepts r.cron = true) :
  (settledCatalog db schedules rs st).HasJob db r
  := by
  have hname : r.name ∈ schedules.map Schedule.name := by
    rw [← hd.names]
    exact List.mem_map_of_mem hr
  apply HasJob.pruneJobs hinert _ (fun _ => hname)
  apply HasJob.foldl_unschedulePgCronJob hinert
    (hasJob_foldl_emitSchedule hinert hbelongs hd.nodup_key hr haccepts)
  intro r' hr' hkey
  apply (source_of_undeclared (List.mem_filter.mp hr').2).2
  rw [show r'.name = r.name from congrArg Prod.snd hkey]
  exact hname

/-- The jobs of the settings lane are those of declared rows. -/
theorem declared_of_settledCatalog (hinert : db.inert = false) (hd : Declares schedules row rs)
    {n : String} {j : Job} (hj : (settledCatalog db schedules rs st).jobs.get? n = some j)
    (howns : db.owns Source.settings.value j = true) :
  ∃ r ∈ rs, n = r.jobname db
  := by
  have hkept := (get?_pruneJobs_eq_some hinert hj).2 howns
  rw [← hd.names, List.map_map] at hkept
  obtain ⟨r, hr, rfl⟩ := List.mem_map.mp hkept
  use r, hr
  rw [ScheduledTask.jobname, hd.source r hr]
  rfl

theorem belongs_settledCatalog (hinert : db.inert = false) (hbelongs : st.catalog.Belongs db) :
  (settledCatalog db schedules rs st).Belongs db
  := by
  apply (belongs_foldl_emitSchedule hinert hbelongs).of_subset
  intro n j hj
  have hj' := (get?_pruneJobs_eq_some hinert hj).1
  rw [get?_foldl_unschedulePgCronJob hinert] at hj'
  split at hj'
  · cases hj'
  · exact hj'

/-- The settings lane is left when it is settled. -/
theorem get?_settledCatalog_of_settled (hinert : db.inert = false) (hd : Declares schedules row rs)
    (hrows : ∀ r, r.source = .settings → (r ∈ st.rows.rows ↔ r ∈ rs))
    (hjobs : ∀ r ∈ rs, st.catalog.HasJob db r)
    (hlane : ∀ n j, st.catalog.jobs.get? n = some j → db.owns Source.settings.value j = true →
      ∃ r ∈ rs, n = r.jobname db) (n : String) :
  (settledCatalog db schedules rs st).jobs.get? n = st.catalog.jobs.get? n
  := by
  have hput : rs.foldl Table.put st.rows = st.rows :=
    Table.foldl_put_eq_self (fun r hr => (hrows r (hd.source r hr)).mpr hr)
  have hdeleted : st.rows.rows.filter (undeclared schedules) = [] := by
    rw [List.filter_eq_nil_iff]
    intro r hr hundeclared
    obtain ⟨hsource, hname⟩ := source_of_undeclared hundeclared
    apply hname
    rw [← hd.names]
    exact List.mem_map_of_mem ((hrows r hsource).mp hr)
  rw [settledCatalog, hput, hdeleted, List.foldl_nil, get?_pruneJobs_of_kept hinert,
    get?_foldl_emitSchedule_of_hasJob hinert hjobs]
  intro n j hj howns
  rw [get?_foldl_emitSchedule_of_hasJob hinert hjobs] at hj
  obtain ⟨r, hr, rfl⟩ := hlane n j hj howns
  rw [ScheduledTask.jobname, hd.source r hr, ← hd.names]
  exact List.mem_map_of_mem (List.mem_map_of_mem hr)

/-! ### The cleanup job -/

/-- The name of the cleanup job. -/
def cleanupJobname (db : AppDatabase) : String :=
  buildJobname db.name cleanupSource cleanupName

/-- The cleanup job is there on its cadence, or is not there. -/
def Catalog.HasCleanup (db : AppDatabase) (c : Catalog) (cleanup : Option String) : Prop :=
  match getCleanupSchedule cleanup with
  | some cron => ∃ j, c.jobs.get? (cleanupJobname db) = some j ∧ j.schedule = cron
      ∧ j.command = cleanupCommand ∧ j.database = db.name ∧ j.active = true
  | none => c.jobs.get? (cleanupJobname db) = none

theorem isSome_reconcileCleanupJob (hinert : db.inert = false) (c : Catalog) :
  (reconcileCleanupJob db c cleanup).isSome = true
    ↔ ∀ cron, getCleanupSchedule cleanup = some cron → db.accepts cron = true
  := by
  rw [reconcileCleanupJob]
  cases getCleanupSchedule cleanup with
  | none => simp
  | some cron => simp [isSome_scheduleJob hinert]

variable {c c' : Catalog}

theorem get?_reconcileCleanupJob_of_ne (hinert : db.inert = false)
    (h : reconcileCleanupJob db c cleanup = some c') {n : String} (hn : n ≠ cleanupJobname db) :
  c'.jobs.get? n = c.jobs.get? n
  := by
  rw [cleanupJobname] at hn
  rw [reconcileCleanupJob] at h
  split at h
  · rw [get?_scheduleJob hinert h, if_neg hn]
  · cases h
    rw [get?_unscheduleJob hinert, if_neg hn]

theorem hasCleanup_reconcileCleanupJob (hinert : db.inert = false) (hbelongs : c.Belongs db)
    (h : reconcileCleanupJob db c cleanup = some c') :
  c'.HasCleanup db cleanup
  := by
  rw [reconcileCleanupJob] at h
  rw [Catalog.HasCleanup, cleanupJobname]
  revert h
  cases getCleanupSchedule cleanup with
  | some cron =>
      intro h
      refine ⟨_, by rw [get?_scheduleJob hinert h, if_pos rfl], ?_⟩
      rw [Catalog.scheduled]
      cases hj : c.jobs.get? (buildJobname db.name cleanupSource cleanupName) with
      | none => exact ⟨rfl, rfl, rfl, rfl⟩
      | some j =>
          have hdatabase := hbelongs cleanupSource (by decide) cleanupName j hj
          exact ⟨rfl, rfl, hdatabase, rfl⟩
  | none =>
      intro h
      cases h
      apply (get?_unscheduleJob hinert _ _ _ _).trans
      apply if_pos rfl

/-- Reconciling the cleanup job again changes nothing. -/
theorem get?_reconcileCleanupJob_of_hasCleanup (hinert : db.inert = false)
    (hcleanup : c.HasCleanup db cleanup) (h : reconcileCleanupJob db c cleanup = some c')
    (n : String) :
  c'.jobs.get? n = c.jobs.get? n
  := by
  rw [reconcileCleanupJob] at h
  rw [Catalog.HasCleanup, cleanupJobname] at hcleanup
  split at h
  · rename_i cron hcron
    simp only [hcron] at hcleanup
    obtain ⟨j, hj, hschedule, hcommand, -, hactive⟩ := hcleanup
    exact get?_scheduleJob_of_same hinert hj ⟨hschedule, hcommand, hactive⟩ h n
  · rename_i hnone
    cases h
    simp only [hnone] at hcleanup
    rw [get?_unscheduleJob hinert]
    split
    · rename_i hn
      rw [hn, hcleanup]
    · rfl

/-- Whether the cleanup job is there depends on the job of its name. -/
theorem HasCleanup.congr (h : c.HasCleanup db cleanup)
    (hn : c'.jobs.get? (cleanupJobname db) = c.jobs.get? (cleanupJobname db)) :
  c'.HasCleanup db cleanup
  := by
  rwa [Catalog.HasCleanup, hn]

theorem belongs_reconcileCleanupJob (hinert : db.inert = false) (hbelongs : c.Belongs db)
    (h : reconcileCleanupJob db c cleanup = some c') :
  c'.Belongs db
  := by
  intro source hsource name j hj
  by_cases hn : buildJobname db.name source name = cleanupJobname db
  · have hcleanup := hasCleanup_reconcileCleanupJob hinert hbelongs h
    rw [Catalog.HasCleanup] at hcleanup
    rw [hn] at hj
    split at hcleanup
    · obtain ⟨j', hj', -, -, hdatabase, -⟩ := hcleanup
      rw [hj'] at hj
      cases hj
      exact hdatabase
    · rw [hcleanup] at hj
      cases hj
  · rw [get?_reconcileCleanupJob_of_ne hinert h hn] at hj
    exact hbelongs source hsource name j hj

/-! ### The admin lane -/

/-- The admin rows whose jobs `sync_admin_crons` gets to schedule. -/
def CronState.reached (db : AppDatabase) (st : CronState) : List ScheduledTask :=
  st.adminRows.takeWhile (fun r => db.accepts r.cron)

theorem syncAdminCrons_eq (hinert : db.inert = false) :
  syncAdminCrons db st = { st with
    catalog :=
      if st.adminRows.all (fun r => db.accepts r.cron) then
        pruneJobs db ((st.reached db).foldl (emitSchedule db) st.catalog) Source.admin.value
          (st.adminRows.map ScheduledTask.name)
      else (st.reached db).foldl (emitSchedule db) st.catalog }
  := by
  rw [syncAdminCrons, scheduleAll_eq hinert, CronState.reached]
  cases st.adminRows.all (fun r => db.accepts r.cron) <;> rfl

theorem source_of_mem_adminRows {r : ScheduledTask} (h : r ∈ st.adminRows) :
  r.source = .admin
  := of_decide_eq_true (List.mem_filter.mp h).2

theorem mem_adminRows {r : ScheduledTask} :
  r ∈ st.adminRows ↔ r ∈ st.rows.rows ∧ r.source = .admin
  := by
  rw [CronState.adminRows, List.mem_filter, decide_eq_true_eq]

theorem mem_adminRows_of_reached {r : ScheduledTask} (h : r ∈ st.reached db) :
  r ∈ st.adminRows
  := List.takeWhile_subset _ h

theorem nodup_reached :
  ((st.reached db).map ScheduledTask.key).Nodup
  := by
  apply List.Nodup.sublist _ st.rows.nodup
  apply List.Sublist.map
  exact (List.takeWhile_sublist _).trans List.filter_sublist

/-- The admin step leaves the jobs that are not named for the admin lane. -/
theorem get?_syncAdminCrons_of_ne (hinert : db.inert = false) {n : String}
    (hn : ∀ name, n ≠ buildJobname db.name Source.admin.value name) :
  (syncAdminCrons db st).catalog.jobs.get? n = st.catalog.jobs.get? n
  := by
  have hemit : ((st.reached db).foldl (emitSchedule db) st.catalog).jobs.get? n
      = st.catalog.jobs.get? n := by
    apply get?_foldl_emitSchedule hinert
    intro r hr
    rw [ScheduledTask.jobname, source_of_mem_adminRows (mem_adminRows_of_reached hr)]
    exact hn r.name
  rw [syncAdminCrons_eq hinert]
  simp only
  split
  · rw [get?_pruneJobs_of_ne hinert hn, hemit]
  · exact hemit

/-- The admin rows that are reached have their jobs. -/
theorem hasJob_syncAdminCrons (hinert : db.inert = false) (hbelongs : st.catalog.Belongs db)
    {r : ScheduledTask} (hr : r ∈ st.reached db) :
  (syncAdminCrons db st).catalog.HasJob db r
  := by
  have haccepts : db.accepts r.cron = true := List.all_eq_true.mp List.all_takeWhile r hr
  have hjob := hasJob_foldl_emitSchedule hinert hbelongs nodup_reached hr haccepts
  rw [syncAdminCrons_eq hinert]
  simp only
  split
  · apply HasJob.pruneJobs hinert hjob
    intro _
    exact List.mem_map_of_mem (mem_adminRows_of_reached hr)
  · exact hjob

/-- When no cron is refused, the jobs of the admin lane are those of admin rows. -/
theorem admin_of_syncAdminCrons (hinert : db.inert = false)
    (haccepts : st.adminRows.all (fun r => db.accepts r.cron) = true) {n : String} {j : Job}
    (hj : (syncAdminCrons db st).catalog.jobs.get? n = some j)
    (howns : db.owns Source.admin.value j = true) :
  ∃ r ∈ st.adminRows, n = r.jobname db
  := by
  rw [syncAdminCrons_eq hinert] at hj
  simp only [haccepts, if_true] at hj
  have hkept := (get?_pruneJobs_eq_some hinert hj).2 howns
  rw [List.map_map] at hkept
  obtain ⟨r, hr, rfl⟩ := List.mem_map.mp hkept
  use r, hr
  rw [ScheduledTask.jobname, source_of_mem_adminRows hr]
  rfl

/-- The admin lane is left when it is settled. -/
theorem get?_syncAdminCrons_of_settled (hinert : db.inert = false)
    (hjobs : ∀ r ∈ st.adminRows, st.catalog.HasJob db r)
    (hlane : ∀ n j, st.catalog.jobs.get? n = some j → db.owns Source.admin.value j = true →
      ∃ r ∈ st.adminRows, n = r.jobname db) (n : String) :
  (syncAdminCrons db st).catalog.jobs.get? n = st.catalog.jobs.get? n
  := by
  have hemit : ∀ n, ((st.reached db).foldl (emitSchedule db) st.catalog).jobs.get? n
      = st.catalog.jobs.get? n :=
    get?_foldl_emitSchedule_of_hasJob hinert (fun r hr => hjobs r (mem_adminRows_of_reached hr))
  rw [syncAdminCrons_eq hinert]
  simp only
  split
  · rw [get?_pruneJobs_of_kept hinert, hemit]
    intro n j hj howns
    rw [hemit] at hj
    obtain ⟨r, hr, rfl⟩ := hlane n j hj howns
    rw [ScheduledTask.jobname, source_of_mem_adminRows hr]
    exact List.mem_map_of_mem (List.mem_map_of_mem hr)
  · exact hemit n

/-! ### Both lanes -/

/-- The settings rows are the declared ones, the admin rows are as before, each row has its
job alone, each job of the two lanes is that of one row alone, the cleanup job is there on its
cadence exactly when it is declared, and the other jobs are as before. -/
structure Reconciled (db : AppDatabase) (schedules : List Schedule)
    (row : Schedule → Option ScheduledTask) (cleanup : Option String)
    (before after : CronState) : Prop where
  settings : ∀ r : ScheduledTask, r.source = .settings →
    (r ∈ after.rows.rows ↔ ∃ s ∈ schedules, row s = some r)
  admin : ∀ r : ScheduledTask, r.source = .admin →
    (r ∈ after.rows.rows ↔ r ∈ before.rows.rows)
  jobs : ∀ r ∈ after.rows.rows, ∃! j, j ∈ after.catalog.jobs.rows ∧ Runs db r j
  lanes : ∀ (source : Source), ∀ j ∈ after.catalog.jobs.rows, db.owns source.value j = true →
    ∃! r, r ∈ after.rows.rows ∧ r.source = source ∧ Runs db r j
  cleanup : after.catalog.HasCleanup db cleanup
  others : ∀ n, (∀ source ∈ laneSources, ∀ name, n ≠ buildJobname db.name source name) →
    after.catalog.jobs.get? n = before.catalog.jobs.get? n

/-- Two states with the same rows and the same jobs. -/
def SameState (st st' : CronState) : Prop :=
  st.rows = st'.rows ∧ ∀ n, st.catalog.jobs.get? n = st'.catalog.jobs.get? n

/-- A row with its job has that job alone. -/
theorem existsUnique_of_hasJob {r : ScheduledTask} (h : c.HasJob db r) :
  ∃! j, j ∈ c.jobs.rows ∧ Runs db r j
  := by
  obtain ⟨j, hj, hruns⟩ := h
  refine ⟨j, ⟨Table.mem_of_get? hj, hruns⟩, ?_⟩
  rintro j' ⟨hj', hruns'⟩
  exact Table.eq_of_key_eq hj' (Table.mem_of_get? hj) (hruns'.jobname.trans hruns.jobname.symm)

/-- A job with the name of a row that has its job is that of this row alone. -/
theorem existsUnique_of_jobname {rows : Table ScheduledTask.key} {r : ScheduledTask} {j : Job}
    {source : Source} (hr : r ∈ rows.rows) (hsource : r.source = source) (h : c.HasJob db r)
    (hj : c.jobs.get? (r.jobname db) = some j) :
  ∃! r, r ∈ rows.rows ∧ r.source = source ∧ Runs db r j
  := by
  obtain ⟨j', hj', hruns⟩ := h
  rw [hj] at hj'
  cases hj'
  refine ⟨r, ⟨hr, hsource, hruns⟩, ?_⟩
  rintro r' ⟨hr', -, hruns'⟩
  exact Table.eq_of_key_eq hr' hr (jobname_injective (hruns'.jobname.symm.trans hruns.jobname))

/-- The state `sync_crons` leaves, its cleanup job reconciled. -/
theorem syncCrons_of_cleanup (st : CronState) (hinert : db.inert = false) (hd : Declares schedules row rs)
    (hcleanup : ∀ cron, getCleanupSchedule cleanup = some cron → db.accepts cron = true) :
  ∃ created c, reconcileCleanupJob db (settledCatalog db schedules rs st) cleanup = some c
    ∧ syncCrons db schedules row cleanup st = (⟨settledRows schedules rs st.rows, c⟩,
      some (created, ((rs.foldl Table.put st.rows).rows.filter (undeclared schedules)).length))
    ∧ ((∀ r ∈ rs, r ∈ st.rows.rows) → created = 0)
  := by
  obtain ⟨created, hsync, hzero⟩ := syncCrons_eq db cleanup st hd
  obtain ⟨c, hc⟩ := Option.isSome_iff_exists.mp
    ((isSome_reconcileCleanupJob hinert (settledCatalog db schedules rs st)).mpr hcleanup)
  use created, c, hc
  rw [hsync, hc]
  exact ⟨rfl, hzero⟩

theorem accepts_all (haccepts : ∀ cron, db.accepts cron = true) (rs : List ScheduledTask) :
  rs.all (fun r => db.accepts r.cron) = true
  := List.all_eq_true.mpr (fun r _ => haccepts r.cron)

theorem reached_of_accepts (haccepts : ∀ cron, db.accepts cron = true) :
  st.reached db = st.adminRows
  := List.takeWhile_eq_self_iff.mpr (fun r _ => haccepts r.cron)

theorem ne_jobname_of_ne {source source' : Source} (h : source ≠ source') (name : String) :
  ∀ name', buildJobname db.name source.value name ≠ buildJobname db.name source'.value name'
  := buildJobname_ne (value_mem_laneSources source) (value_mem_laneSources source')
    (fun hvalue => h (value_injective hvalue)) name

theorem ne_cleanupJobname (source : Source) (name : String) :
  buildJobname db.name source.value name ≠ cleanupJobname db
  := buildJobname_ne (value_mem_laneSources source) (by decide) (value_ne_cleanupSource source)
    name cleanupName

/-- A catalog that accepts every cron is reconciled. -/
theorem reconciled_syncAdminCrons (hinert : db.inert = false)
    (haccepts : ∀ cron, db.accepts cron = true) (hd : Declares schedules row rs)
    (hbelongs : st.catalog.Belongs db)
    (hc : reconcileCleanupJob db (settledCatalog db schedules rs st) cleanup = some c) :
  Reconciled db schedules row cleanup st
    (syncAdminCrons db ⟨settledRows schedules rs st.rows, c⟩)
  := by
  have hsettled : (settledCatalog db schedules rs st).Belongs db :=
    belongs_settledCatalog hinert hbelongs
  have hbelongsC := belongs_reconcileCleanupJob hinert hsettled hc
  set synced : CronState := ⟨settledRows schedules rs st.rows, c⟩
  have hrows : (syncAdminCrons db synced).rows = settledRows schedules rs st.rows := by
    rw [syncAdminCrons_eq hinert]
  have hjob : ∀ r ∈ settledRows schedules rs st.rows |>.rows,
      (syncAdminCrons db synced).catalog.HasJob db r := by
    intro r hr
    rcases (mem_settledRows hd).mp hr with hdeclared | ⟨-, hsource⟩
    · have hsettings := hd.source r hdeclared
      have hjob := hasJob_settledCatalog hinert hd hbelongs hdeclared (haccepts r.cron)
      apply HasJob.congr hjob
      rw [ScheduledTask.jobname, get?_syncAdminCrons_of_ne hinert,
        get?_reconcileCleanupJob_of_ne hinert hc (ne_cleanupJobname _ _)]
      rw [hsettings]
      exact ne_jobname_of_ne (by decide) r.name
    · have hadmin : r.source = .admin := by
        cases hr : r.source with
        | settings => exact absurd hr hsource
        | admin => rfl
      apply hasJob_syncAdminCrons hinert hbelongsC
      rw [reached_of_accepts haccepts]
      exact mem_adminRows.mpr ⟨hr, hadmin⟩
  constructor
  · intro r hr
    rw [hrows, mem_settledRows hd, ← hd.mem_iff]
    simp [hr]
  · intro r hr
    have hdeclared : r ∉ rs := by
      intro hmem
      rw [hd.source r hmem] at hr
      cases hr
    rw [hrows, mem_settledRows hd]
    simp [hr, hdeclared]
  · rw [hrows]
    exact fun r hr => existsUnique_of_hasJob (hjob r hr)
  · intro source j hj howns
    rw [hrows]
    have hget := Table.get?_of_mem hj
    obtain ⟨name, hname⟩ := jobname_of_owns howns
    cases source with
    | settings =>
        rw [hname, get?_syncAdminCrons_of_ne hinert (ne_jobname_of_ne (by decide) name),
          get?_reconcileCleanupJob_of_ne hinert hc (ne_cleanupJobname _ _), ← hname] at hget
        obtain ⟨r, hr, hjobname⟩ := declared_of_settledCatalog hinert hd hget howns
        have hmem : r ∈ (settledRows schedules rs st.rows).rows := (mem_settledRows hd).mpr (.inl hr)
        apply existsUnique_of_jobname hmem (hd.source r hr) (hjob r hmem)
        rw [← hjobname]
        exact Table.get?_of_mem hj
    | admin =>
        obtain ⟨r, hr, hjobname⟩ := admin_of_syncAdminCrons hinert
          (accepts_all haccepts synced.adminRows) hget howns
        obtain ⟨hmem, hsource⟩ := mem_adminRows.mp hr
        apply existsUnique_of_jobname hmem hsource (hjob r hmem)
        rw [← hjobname]
        exact hget
  · apply HasCleanup.congr (hasCleanup_reconcileCleanupJob hinert hsettled hc)
    apply get?_syncAdminCrons_of_ne hinert
    exact fun name heq => ne_cleanupJobname .admin name heq.symm
  · intro n hn
    rw [get?_syncAdminCrons_of_ne hinert (hn _ (value_mem_laneSources _)),
      get?_reconcileCleanupJob_of_ne hinert hc (hn _ (by decide) _),
      get?_settledCatalog_of_ne hinert hd (hn _ (value_mem_laneSources _))]

/-- The rows and the jobs of a reconciled state are left as they are. -/
theorem sync_of_reconciled {before after : CronState} (hinert : db.inert = false)
    (haccepts : ∀ cron, db.accepts cron = true) (hd : Declares schedules row rs)
    (h : Reconciled db schedules row cleanup before after) :
  ∃ st', syncCrons db schedules row cleanup after = (st', some (0, 0))
    ∧ SameState (syncAdminCrons db st') after
  := by
  have hrows : ∀ r, r.source = .settings → (r ∈ after.rows.rows ↔ r ∈ rs) := by
    intro r hr
    rw [h.settings r hr, hd.mem_iff]
  have hjob : ∀ r ∈ after.rows.rows, after.catalog.HasJob db r := by
    intro r hr
    obtain ⟨j, ⟨hj, hruns⟩, -⟩ := h.jobs r hr
    exact ⟨j, hruns.jobname ▸ Table.get?_of_mem hj, hruns⟩
  have hlane : ∀ source : Source, ∀ n j, after.catalog.jobs.get? n = some j →
      db.owns source.value j = true →
      ∃ r ∈ after.rows.rows, r.source = source ∧ n = r.jobname db := by
    intro source n j hj howns
    obtain ⟨r, ⟨hr, hsource, hruns⟩, -⟩ := h.lanes source j (Table.mem_of_get? hj) howns
    exact ⟨r, hr, hsource, (Table.key_of_get? hj).symm.trans hruns.jobname⟩
  have hdeclared : ∀ r ∈ rs, r ∈ after.rows.rows :=
    fun r hr => (hrows r (hd.source r hr)).mpr hr
  have hput : rs.foldl Table.put after.rows = after.rows := Table.foldl_put_eq_self hdeclared
  have hkept : ∀ r ∈ after.rows.rows, undeclared schedules r = false := by
    intro r hr
    by_contra hundeclared
    obtain ⟨hsource, hname⟩ := source_of_undeclared (Bool.eq_true_of_not_eq_false hundeclared)
    apply hname
    rw [← hd.names]
    exact List.mem_map_of_mem ((hrows r hsource).mp hr)
  have hsettledRows : settledRows schedules rs after.rows = after.rows := by
    rw [settledRows, hput]
    exact Table.delete_eq_self hkept
  have hsettled : ∀ n, (settledCatalog db schedules rs after).jobs.get? n
      = after.catalog.jobs.get? n := by
    apply get?_settledCatalog_of_settled hinert hd hrows (fun r hr => hjob r (hdeclared r hr))
    intro n j hj howns
    obtain ⟨r, hr, hsource, hn⟩ := hlane .settings n j hj howns
    exact ⟨r, (hrows r hsource).mp hr, hn⟩
  obtain ⟨created, c, hc, hsync, hzero⟩ := syncCrons_of_cleanup after hinert hd
    (fun cron _ => haccepts cron)
  have hcleanup : ∀ n, c.jobs.get? n = after.catalog.jobs.get? n := by
    intro n
    rw [get?_reconcileCleanupJob_of_hasCleanup hinert
      (HasCleanup.congr h.cleanup (hsettled _)) hc n, hsettled n]
  have hnone : after.rows.rows.filter (undeclared schedules) = [] := by
    rw [List.filter_eq_nil_iff]
    intro r hr
    simp [hkept r hr]
  rw [hzero hdeclared, hput, hnone, hsettledRows] at hsync
  use ⟨after.rows, c⟩, hsync
  · constructor
    · rw [syncAdminCrons_eq hinert]
    · intro n
      rw [get?_syncAdminCrons_of_settled hinert]
      · exact hcleanup n
      · intro r hr
        exact HasJob.congr (hjob r (mem_adminRows.mp hr).1) (hcleanup _)
      · intro n j hj howns
        rw [hcleanup] at hj
        obtain ⟨r, hr, hsource, hn⟩ := hlane .admin n j hj howns
        exact ⟨r, mem_adminRows.mpr ⟨hr, hsource⟩, hn⟩

end Sync

/-! ### The declared schedules of the settings -/

/-- The rows of the schedules of the settings, when every one of them can be written. -/
theorem declares_settings {p : Project} {sdk : Sdk} {columns : Columns} {config : AbsurdConfig}
    {backend : String} {scheduleMap : List (String × ScheduleSpec)}
    (hkeys : (scheduleMap.map Prod.fst).Nodup)
    (hvalid : ∀ s ∈ getSettingsSchedules backend scheduleMap,
      ∃ r, scheduledRow p sdk columns config s = some r) :
  ∃ rs, Declares (getSettingsSchedules backend scheduleMap) (scheduledRow p sdk columns config) rs
  := by
  have hrow : ∀ s r, scheduledRow p sdk columns config s = some r →
      r.source = .settings ∧ r.name = s.name := by
    intro s r h
    simp only [scheduledRow, Option.bind_eq_bind, Option.bind_eq_some_iff, Option.pure_def,
      Option.some_inj] at h
    obtain ⟨_, -, _, -, _, -, rfl⟩ := h
    exact ⟨rfl, rfl⟩
  have hrows : ∀ schedules : List Schedule,
      (∀ s ∈ schedules, ∃ r, scheduledRow p sdk columns config s = some r) →
      ∃ rs : List ScheduledTask, schedules.map (scheduledRow p sdk columns config) = rs.map some
        ∧ (∀ r ∈ rs, r.source = .settings)
        ∧ rs.map ScheduledTask.name = schedules.map Schedule.name := by
    intro schedules hall
    induction schedules with
    | nil => exact ⟨[], rfl, by simp, rfl⟩
    | cons s schedules ih =>
        obtain ⟨r, hr⟩ := hall s List.mem_cons_self
        obtain ⟨rs, hmap, hsource, hnames⟩ := ih (fun s' hs' => hall s' (List.mem_cons_of_mem _ hs'))
        obtain ⟨hrsource, hrname⟩ := hrow s r hr
        refine ⟨r :: rs, by simp [hr, hmap], ?_, by simp [hrname, hnames]⟩
        intro r' hr'
        rcases List.mem_cons.mp hr' with rfl | hr'
        · exact hrsource
        · exact hsource r' hr'
  obtain ⟨rs, hmap, hsource, hnames⟩ := hrows _ hvalid
  use rs, hmap, hsource, hnames
  rw [getSettingsSchedules, List.map_map]
  exact hkeys

/-- From any rows and any jobs of the app's database, `sync_crons` and `sync_admin_crons`
reconcile them with the declared schedules and the admin rows, and running both again creates
and prunes nothing and leaves the rows and the jobs as they are. -/
theorem reconcile_converges (p : Project) (sdk : Sdk) (columns : Columns) (config : AbsurdConfig)
    (db : AppDatabase) (backend : String) (scheduleMap : List (String × ScheduleSpec))
    (cleanup : Option String) (st : CronState) (hinert : db.inert = false)
    (haccepts : ∀ cron, db.accepts cron = true) (hkeys : (scheduleMap.map Prod.fst).Nodup)
    (hvalid : ∀ s ∈ getSettingsSchedules backend scheduleMap,
      ∃ r, scheduledRow p sdk columns config s = some r)
    (hbelongs : st.catalog.Belongs db) :
  let schedules := getSettingsSchedules backend scheduleMap
  let row := scheduledRow p sdk columns config
  ∃ st₁ counts, syncCrons db schedules row cleanup st = (st₁, some counts)
    ∧ Reconciled db schedules row cleanup st (syncAdminCrons db st₁)
    ∧ ∃ st₂, syncCrons db schedules row cleanup (syncAdminCrons db st₁) = (st₂, some (0, 0))
      ∧ SameState (syncAdminCrons db st₂) (syncAdminCrons db st₁)
  := by
  intro schedules row
  obtain ⟨rs, hd⟩ := declares_settings hkeys hvalid
  obtain ⟨created, c, hc, hsync, -⟩ := syncCrons_of_cleanup st hinert hd
    (fun cron (_ : getCleanupSchedule cleanup = some cron) => haccepts cron)
  have hreconciled := reconciled_syncAdminCrons hinert haccepts hd hbelongs hc
  exact ⟨_, _, hsync, hreconciled, sync_of_reconciled hinert haccepts hd hreconciled⟩

/-- A database whose catalog accepts every cron. -/
def appDatabase : AppDatabase := ⟨"app", false, fun _ => true⟩

/-- A row that is not declared, with its job. -/
def driftedState : CronState where
  rows := {
    rows := [⟨.settings, "gone", "tasks.add", "default", .arr [], .obj [],
      ⟨none, "", none, none, none, none, none, none, ""⟩, "0 1 * * *", true⟩]
    nodup := List.nodup_singleton _ }
  catalog := {
    jobs := ⟨[⟨7, "_dj:app:s:gone", "0 1 * * *", "select 1", "app", false⟩],
      List.nodup_singleton _⟩
    next := 8
    fresh := by simp
    ids := by simp }

/-- The nightly task has a row. -/
theorem scheduledRow_nightly :
  ∀ s ∈ getSettingsSchedules "absurd" [("nightly", nightlySpec "tasks.add")],
    ∃ r, scheduledRow cronProject plainSdk plainColumns ⟨"default", 5, ["default"]⟩ s = some r
  := by
  intro s hs
  rw [List.mem_singleton.mp hs]
  exact ⟨_, rfl⟩

/-- The nightly task is declared, on a state it has to be reconciled with. -/
theorem reconcile_converges_drifted :
  ∃ st₁ counts, syncCrons appDatabase
      (getSettingsSchedules "absurd" [("nightly", nightlySpec "tasks.add")])
      (scheduledRow cronProject plainSdk plainColumns ⟨"default", 5, ["default"]⟩)
      (some "0 3 * * *") driftedState = (st₁, some counts)
    ∧ Reconciled appDatabase (getSettingsSchedules "absurd" [("nightly", nightlySpec "tasks.add")])
      (scheduledRow cronProject plainSdk plainColumns ⟨"default", 5, ["default"]⟩)
      (some "0 3 * * *") driftedState (syncAdminCrons appDatabase st₁)
  := by
  have hbelongs : driftedState.catalog.Belongs appDatabase := by
    intro source _ name j hj
    rw [List.mem_singleton.mp (Table.mem_of_get? hj)]
    rfl
  obtain ⟨st₁, counts, hsync, hreconciled, -⟩ := reconcile_converges cronProject plainSdk
    plainColumns ⟨"default", 5, ["default"]⟩ appDatabase "absurd"
    [("nightly", nightlySpec "tasks.add")] (some "0 3 * * *") driftedState rfl (fun _ => rfl)
    (List.nodup_singleton _) scheduledRow_nightly hbelongs
  exact ⟨st₁, counts, hsync, hreconciled⟩

end DjangoAbsurd
