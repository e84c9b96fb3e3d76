import DjangoAbsurd.PgCron.Convergence

/-!
# Refused crons

The catalog may refuse the cron of a row. A settings row's refusal is swallowed where the row
is saved, so the settings lane converges for every other row. The admin loop stops at the
first refusal: the admin rows after it are not scheduled and the admin lane is not pruned, so
the lane is right only where it was right before. `isolated_iff` says exactly when the
reconcile after a migration leaves both lanes right.
-/

namespace DjangoAbsurd

open Keyed (Table)

/-- Every row whose cron the catalog accepts has its job, and every job of the two lanes has a
row. -/
structure Isolated (db : AppDatabase) (st : CronState) : Prop where
  jobs : ∀ r ∈ st.rows.rows, db.accepts r.cron = true → st.catalog.HasJob db r
  lanes : ∀ (source : Source), ∀ n j, st.catalog.jobs.get? n = some j →
    db.owns source.value j = true →
    ∃ r ∈ st.rows.rows, r.source = source ∧ n = r.jobname db

/-- The catalog accepts the cadence of the cleanup job, if one is declared. -/
def acceptsCleanup (db : AppDatabase) (cleanup : Option String) : Bool :=
  (getCleanupSchedule cleanup).all db.accepts

/-- The admin rows the reconcile does not get to: those from the first refused cron on, or
all of them when the cleanup job is refused. -/
def CronState.unreached (db : AppDatabase) (cleanup : Option String) (st : CronState) :
    List ScheduledTask :=
  if acceptsCleanup db cleanup then st.adminRows.dropWhile (fun r => db.accepts r.cron)
  else st.adminRows

/-- The admin lane of a state is right as far as the reconcile does not get to it: the rows it
does not get to have their jobs, and every job of the lane has a row. -/
structure AdminSettled (db : AppDatabase) (cleanup : Option String) (st : CronState) : Prop where
  jobs : ∀ r ∈ st.unreached db cleanup, db.accepts r.cron = true → st.catalog.HasJob db r
  lane : ∀ n j, st.catalog.jobs.get? n = some j → db.owns Source.admin.value j = true →
    ∃ r ∈ st.adminRows, n = r.jobname db

variable {db : AppDatabase} {schedules : List Schedule}
  {row : Schedule → Option ScheduledTask} {rs : List ScheduledTask} {cleanup : Option String}
  {st after : CronState}

theorem acceptsCleanup_iff :
  acceptsCleanup db cleanup = true
    ↔ ∀ cron, getCleanupSchedule cleanup = some cron → db.accepts cron = true
  := by
  rw [acceptsCleanup]
  cases getCleanupSchedule cleanup with
  | none => simp
  | some cron => simp

/-! ### The settings lane -/

/-- The settings lane is right once `sync_crons` is through, whatever was refused: the rows
are the settled ones, and in the names of the settings lane the catalog is the settled one. -/
structure SettingsSettled (db : AppDatabase) (schedules : List Schedule)
    (rs : List ScheduledTask) (before after : CronState) : Prop where
  rows : after.rows = settledRows schedules rs before.rows
  jobs : ∀ name, after.catalog.jobs.get? (buildJobname db.name Source.settings.value name)
    = (settledCatalog db schedules rs before).jobs.get?
        (buildJobname db.name Source.settings.value name)

/-- Where the settings lane is settled, the reconcile is isolated when its admin lane is
right. -/
theorem isolated_of_settingsSettled (hinert : db.inert = false) (hd : Declares schedules row rs)
    (hbelongs : st.catalog.Belongs db) (hsettled : SettingsSettled db schedules rs st after) :
  Isolated db after
    ↔ (∀ r ∈ st.adminRows, db.accepts r.cron = true → after.catalog.HasJob db r)
      ∧ ∀ n j, after.catalog.jobs.get? n = some j → db.owns Source.admin.value j = true →
        ∃ r ∈ st.adminRows, n = r.jobname db
  := by
  have hadmin : ∀ r, r.source = .admin → (r ∈ after.rows.rows ↔ r ∈ st.adminRows) := by
    intro r hr
    have hdeclared : r ∉ rs := by
      intro hmem
      rw [hd.source r hmem] at hr
      cases hr
    rw [hsettled.rows, mem_settledRows hd, mem_adminRows]
    simp [hr, hdeclared]
  constructor
  · intro h
    constructor
    · intro r hr haccepts
      exact h.jobs r ((hadmin r (source_of_mem_adminRows hr)).mpr hr) haccepts
    · intro n j hj howns
      obtain ⟨r, hr, hsource, hn⟩ := h.lanes .admin n j hj howns
      exact ⟨r, (hadmin r hsource).mp hr, hn⟩
  · rintro ⟨hjobs, hlane⟩
    constructor
    · intro r hr haccepts
      cases hsource : r.source with
      | admin => exact hjobs r ((hadmin r hsource).mp hr) haccepts
      | settings =>
          rw [hsettled.rows, mem_settledRows hd, hsource] at hr
          have hdeclared : r ∈ rs := by simpa using hr
          apply HasJob.congr (hasJob_settledCatalog hinert hd hbelongs hdeclared haccepts)
          rw [ScheduledTask.jobname, hsource]
          exact hsettled.jobs r.name
    · intro source n j hj howns
      cases source with
      | admin =>
          obtain ⟨r, hr, hn⟩ := hlane n j hj howns
          exact ⟨r, (hadmin r (source_of_mem_adminRows hr)).mpr hr, source_of_mem_adminRows hr, hn⟩
      | settings =>
          obtain ⟨name, hname⟩ := jobname_of_owns howns
          have hkey : j.jobname = n := Table.key_of_get? hj
          rw [← hkey, hname, hsettled.jobs, ← hname] at hj
          obtain ⟨r, hr, hn⟩ := declared_of_settledCatalog hinert hd hj howns
          refine ⟨r, ?_, hd.source r hr, ?_⟩
          · rw [hsettled.rows, mem_settledRows hd]
            left
            exact hr
          · rw [← hkey, hn]

/-! ### The admin lane -/

theorem nodup_adminRows :
  (st.adminRows.map ScheduledTask.key).Nodup
  := List.Nodup.sublist (List.filter_sublist.map _) st.rows.nodup

/-- When the admin lane is scheduled for some rows and left as it was for the others, it is
right when it was right for the others before. -/
theorem adminSettled_iff {reached : List ScheduledTask}
    (hrows : st.adminRows = reached ++ st.unreached db cleanup)
    (hreached : ∀ r ∈ reached, after.catalog.HasJob db r)
    (hleft : ∀ name, (∀ r ∈ reached, buildJobname db.name Source.admin.value name ≠ r.jobname db) →
      after.catalog.jobs.get? (buildJobname db.name Source.admin.value name)
        = st.catalog.jobs.get? (buildJobname db.name Source.admin.value name)) :
  ((∀ r ∈ st.adminRows, db.accepts r.cron = true → after.catalog.HasJob db r)
      ∧ ∀ n j, after.catalog.jobs.get? n = some j → db.owns Source.admin.value j = true →
        ∃ r ∈ st.adminRows, n = r.jobname db)
    ↔ AdminSettled db cleanup st
  := by
  have hunreached : ∀ r ∈ st.unreached db cleanup,
      after.catalog.jobs.get? (r.jobname db) = st.catalog.jobs.get? (r.jobname db) := by
    intro r hr
    have hmem : r ∈ st.adminRows := by
      rw [hrows]
      exact List.mem_append_right _ hr
    rw [ScheduledTask.jobname, source_of_mem_adminRows hmem]
    apply hleft
    intro r' hr' hname
    have hnodup : (st.adminRows.map ScheduledTask.key).Nodup := nodup_adminRows
    rw [hrows, List.map_append] at hnodup
    have hkey : r.key = r'.key := by
      apply @jobname_injective db
      rw [← hname, ScheduledTask.jobname, source_of_mem_adminRows hmem]
    apply List.disjoint_of_nodup_append hnodup (List.mem_map_of_mem hr')
    rw [← hkey]
    exact List.mem_map_of_mem hr
  have hlane : ∀ n j, db.owns Source.admin.value j = true → (j.jobname = n) →
      (∃ r ∈ st.adminRows, n = r.jobname db)
        ∨ after.catalog.jobs.get? n = st.catalog.jobs.get? n := by
    intro n j howns hn
    obtain ⟨name, hname⟩ := jobname_of_owns howns
    rw [← hn, hname]
    by_cases hr : ∃ r ∈ reached, buildJobname db.name Source.admin.value name = r.jobname db
    · left
      obtain ⟨r, hr, hjobname⟩ := hr
      use r
      rw [hrows]
      exact ⟨List.mem_append_left _ hr, hjobname⟩
    · right
      apply hleft
      intro r hr' hjobname
      exact hr ⟨r, hr', hjobname⟩
  constructor
  · rintro ⟨hjobs, hlanes⟩
    constructor
    · intro r hr haccepts
      have hmem : r ∈ st.adminRows := by
        rw [hrows]
        exact List.mem_append_right _ hr
      exact HasJob.congr (hjobs r hmem haccepts) (hunreached r hr).symm
    · intro n j hj howns
      rcases hlane n j howns (Table.key_of_get? hj) with hrow | hsame
      · exact hrow
      · exact hlanes n j (hsame.trans hj) howns
  · rintro ⟨hjobs, hlanes⟩
    constructor
    · intro r hr haccepts
      rw [hrows, List.mem_append] at hr
      rcases hr with hr | hr
      · exact hreached r hr
      · exact HasJob.congr (hjobs r hr haccepts) (hunreached r hr)
    · intro n j hj howns
      rcases hlane n j howns (Table.key_of_get? hj) with hrow | hsame
      · exact hrow
      · exact hlanes n j (hsame.symm.trans hj) howns

/-! ### The reconcile -/

/-- The reconcile, with the state it leaves after `sync_crons`. -/
theorem reconcileCronsAfterMigrate_eq (st : CronState) (hinert : db.inert = false)
    (hd : Declares schedules row rs) :
  ∃ c, reconcileCronsAfterMigrate db schedules row cleanup st
      = (if acceptsCleanup db cleanup then
          syncAdminCrons db ⟨settledRows schedules rs st.rows, c⟩
        else ⟨settledRows schedules rs st.rows, settledCatalog db schedules rs st⟩)
    ∧ (acceptsCleanup db cleanup = true →
      reconcileCleanupJob db (settledCatalog db schedules rs st) cleanup = some c)
  := by
  cases hcleanup : acceptsCleanup db cleanup with
  | true =>
      obtain ⟨created, c, hc, hsync, -⟩ := syncCrons_of_cleanup st hinert hd
        (acceptsCleanup_iff.mp hcleanup)
      use c
      rw [reconcileCronsAfterMigrate, hsync]
      exact ⟨rfl, fun _ => hc⟩
  | false =>
      obtain ⟨created, hsync, -⟩ := syncCrons_eq db cleanup st hd
      have hnone : reconcileCleanupJob db (settledCatalog db schedules rs st) cleanup = none := by
        by_contra hsome
        have haccepts := (isSome_reconcileCleanupJob hinert _).mp
          (Option.isSome_iff_ne_none.mpr hsome)
        rw [← acceptsCleanup_iff, hcleanup] at haccepts
        cases haccepts
      use st.catalog
      rw [reconcileCronsAfterMigrate, hsync, hnone]
      exact ⟨rfl, fun h => by cases h⟩

/-- The reconcile leaves both lanes right when it gets through both, or when what it does not
get to of the admin lane was right before. -/
theorem isolated_reconcile (hinert : db.inert = false) (hd : Declares schedules row rs)
    (hbelongs : st.catalog.Belongs db) :
  Isolated db (reconcileCronsAfterMigrate db schedules row cleanup st)
    ↔ (acceptsCleanup db cleanup = true ∧ ∀ r ∈ st.adminRows, db.accepts r.cron = true)
      ∨ AdminSettled db cleanup st
  := by
  obtain ⟨c, hreconcile, hc⟩ := reconcileCronsAfterMigrate_eq st hinert hd
  rw [hreconcile]
  cases hcleanup : acceptsCleanup db cleanup with
  | false =>
      have hsettled : SettingsSettled db schedules rs st
          ⟨settledRows schedules rs st.rows, settledCatalog db schedules rs st⟩ :=
        ⟨rfl, fun _ => rfl⟩
      have hrows : st.adminRows = [] ++ st.unreached db cleanup := by
        rw [CronState.unreached, hcleanup]
        rfl
      simp only [Bool.false_eq_true, if_false, false_and, false_or]
      rw [isolated_of_settingsSettled hinert hd hbelongs hsettled]
      apply adminSettled_iff hrows (by simp)
      intro name _
      exact get?_settledCatalog_of_ne hinert hd (ne_jobname_of_ne (by decide) name)
  | true =>
      have hc := hc hcleanup
      simp only [if_true, true_and]
      set synced : CronState := ⟨settledRows schedules rs st.rows, c⟩
      have hadminRows : synced.adminRows = st.adminRows := filter_admin_settledRows hd st.rows
      have hbelongsC : synced.catalog.Belongs db :=
        belongs_reconcileCleanupJob hinert (belongs_settledCatalog hinert hbelongs) hc
      have hsettled : SettingsSettled db schedules rs st (syncAdminCrons db synced) := by
        constructor
        · rw [syncAdminCrons_eq hinert]
        · intro name
          rw [get?_syncAdminCrons_of_ne hinert (ne_jobname_of_ne (by decide) name),
            get?_reconcileCleanupJob_of_ne hinert hc (ne_cleanupJobname _ _)]
      have hlane : ∀ name, synced.catalog.jobs.get? (buildJobname db.name Source.admin.value name)
          = st.catalog.jobs.get? (buildJobname db.name Source.admin.value name) := by
        intro name
        rw [get?_reconcileCleanupJob_of_ne hinert hc (ne_cleanupJobname _ _),
          get?_settledCatalog_of_ne hinert hd (ne_jobname_of_ne (by decide) name)]
      rw [isolated_of_settingsSettled hinert hd hbelongs hsettled]
      by_cases hall : st.adminRows.all (fun r => db.accepts r.cron) = true
      · have hreached : synced.reached db = st.adminRows := by
          rw [CronState.reached, hadminRows, List.takeWhile_eq_self_iff]
          exact List.all_eq_true.mp hall
        constructor
        · intro _
          left
          exact List.all_eq_true.mp hall
        · intro _
          constructor
          · intro r hr _
            apply hasJob_syncAdminCrons hinert hbelongsC
            rwa [hreached]
          · intro n j hj howns
            rw [← hadminRows] at hall ⊢
            exact admin_of_syncAdminCrons hinert hall hj howns
      · have hrefused : ¬ ∀ r ∈ st.adminRows, db.accepts r.cron = true :=
          fun h => hall (List.all_eq_true.mpr h)
        have hrows : st.adminRows = synced.reached db ++ st.unreached db cleanup := by
          rw [CronState.unreached, hcleanup, if_pos rfl, CronState.reached, hadminRows,
            List.takeWhile_append_dropWhile]
        simp only [hrefused, false_or]
        apply adminSettled_iff hrows
        · intro r hr
          exact hasJob_syncAdminCrons hinert hbelongsC hr
        · intro name hname
          rw [← hlane, syncAdminCrons_eq hinert, hadminRows]
          simp only [hall, Bool.false_eq_true, if_false]
          exact get?_foldl_emitSchedule hinert hname

/-- After a migration both lanes are right, whichever crons the catalog refuses, exactly when
the catalog accepts the cleanup job and every admin row, or when the rows and the jobs of the
admin lane that the reconcile does not get to were right before. -/
theorem isolated_iff (p : Project) (sdk : Sdk) (columns : Columns) (config : AbsurdConfig)
    (db : AppDatabase) (backend : String) (scheduleMap : List (String × ScheduleSpec))
    (cleanup : Option String) (st : CronState) (hinert : db.inert = false)
    (hkeys : (scheduleMap.map Prod.fst).Nodup)
    (hvalid : ∀ s ∈ getSettingsSchedules backend scheduleMap,
      ∃ r, scheduledRow p sdk columns config s = some r)
    (hbelongs : st.catalog.Belongs db) :
  Isolated db (reconcileCronsAfterMigrate db (getSettingsSchedules backend scheduleMap)
      (scheduledRow p sdk columns config) cleanup st)
    ↔ (acceptsCleanup db cleanup = true ∧ ∀ r ∈ st.adminRows, db.accepts r.cron = true)
      ∨ AdminSettled db cleanup st
  := by
  obtain ⟨rs, hd⟩ := declares_settings hkeys hvalid
  exact isolated_reconcile hinert hd hbelongs

/-- A database whose catalog refuses one cron. -/
def pickyDatabase : AppDatabase := ⟨"app", false, fun cron => cron ≠ "not a cron"⟩

/-- An admin row. -/
def adminRow (name cron : String) : ScheduledTask :=
  ⟨.admin, name, "tasks.add", "default", .arr [], .obj [],
    ⟨none, "", none, none, none, none, none, none, ""⟩, cron, true⟩

/-- Two admin rows without jobs, the cron of the first of them refused. -/
def refusedState : CronState where
  rows := {
    rows := [adminRow "never" "not a cron", adminRow "hourly" "0 * * * *"]
    nodup := by decide }
  catalog := { jobs := Table.empty _, next := 1, fresh := by simp, ids := by simp }

theorem belongs_refusedState (db : AppDatabase) :
  refusedState.catalog.Belongs db
  := by
  intro source _ name j hj
  cases Table.mem_of_get? hj

/-- With every cron accepted the reconcile is through with the two admin rows. -/
theorem isolated_iff_accepted :
  Isolated appDatabase (reconcileCronsAfterMigrate appDatabase
    (getSettingsSchedules "absurd" [("nightly", nightlySpec "tasks.add")])
    (scheduledRow cronProject plainSdk plainColumns ⟨"default", 5, ["default"]⟩) none refusedState)
  := by
  apply (isolated_iff cronProject plainSdk plainColumns ⟨"default", 5, ["default"]⟩ appDatabase
    "absurd" [("nightly", nightlySpec "tasks.add")] none refusedState rfl (List.nodup_singleton _)
    scheduledRow_nightly (belongs_refusedState appDatabase)).mpr
  left
  exact ⟨rfl, fun _ _ => rfl⟩

/-- The refused cron of the first admin row keeps the second from its job. -/
theorem refusal_stops_admin_lane :
  ¬ ∀ (p : Project) (sdk : Sdk) (columns : Columns) (config : AbsurdConfig) (db : AppDatabase)
      (backend : String) (scheduleMap : List (String × ScheduleSpec)) (cleanup : Option String)
      (st : CronState), db.inert = false → (scheduleMap.map Prod.fst).Nodup →
      (∀ s ∈ getSettingsSchedules backend scheduleMap,
        ∃ r, scheduledRow p sdk columns config s = some r) →
      st.catalog.Belongs db → acceptsCleanup db cleanup = true →
      Isolated db (reconcileCronsAfterMigrate db (getSettingsSchedules backend scheduleMap)
        (scheduledRow p sdk columns config) cleanup st)
  := by
  intro h
  have hisolated := h cronProject plainSdk plainColumns ⟨"default", 5, ["default"]⟩ pickyDatabase
    "absurd" [] none refusedState rfl List.nodup_nil (by simp [getSettingsSchedules])
    (belongs_refusedState _) rfl
  have hd : Declares (getSettingsSchedules "absurd" [])
      (scheduledRow cronProject plainSdk plainColumns ⟨"default", 5, ["default"]⟩) [] :=
    ⟨rfl, by simp, rfl, List.nodup_nil⟩
  rcases (isolated_reconcile rfl hd (belongs_refusedState _)).mp hisolated with ⟨-, hall⟩ | hsettled
  · have hfalse := hall (adminRow "never" "not a cron") List.mem_cons_self
    simp [pickyDatabase, adminRow] at hfalse
  · obtain ⟨j, hj, -⟩ := hsettled.jobs (adminRow "hourly" "0 * * * *") (by decide) (by decide)
    cases hj

end DjangoAbsurd
