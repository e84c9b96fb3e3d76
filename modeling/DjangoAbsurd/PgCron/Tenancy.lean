import DjangoAbsurd.Library.Machine
import DjangoAbsurd.PgCron.Reconcile

/-!
# Many databases in one catalog

The databases of a cluster share `cron.job` and `cron.job_run_details`. A call on behalf of
one of them finds its jobs by name, by the head of the names of a lane, or by the head of the
names of the package, and `CatalogCall.Touches` says which names it may change. A name tells
its database, its source and its schedule, because neither a source nor the name of a schedule
has a colon; so a job named for a database runs in it (`Catalog.Bound`), and a call changes
no job of another database or of another lane (`catalog_isolated`).
-/

namespace DjangoAbsurd

open Keyed (Table)

/-! ### Names of schedules -/

/-- `validate_name_charset`: one character or more of `[A-Za-z0-9_-]`. -/
def validateNameCharset (name : String) : Bool :=
  !name.toList.isEmpty && name.toList.all (fun c => c.isAlphanum || c = '_' || c = '-')

theorem colon_not_mem_of_charset {name : String} (h : validateNameCharset name = true) :
  ':' ∉ name.toList
  := by
  rw [validateNameCharset, Bool.and_eq_true, List.all_eq_true] at h
  intro hcolon
  have hc := h.2 ':' hcolon
  revert hc
  decide

theorem colon_not_mem_of_mem_laneSources {source : String} (h : source ∈ laneSources) :
  ':' ∉ source.toList
  := by
  simp only [laneSources, List.mem_cons, List.not_mem_nil, or_false] at h
  rcases h with rfl | rfl | rfl <;> decide

/-- The name of a job tells the database, the source and the name of the schedule: the last
colon is before the name, and the one before it is before the source. -/
theorem buildJobname_unique {database database' source source' name name' : String}
    (hs : source ∈ laneSources) (hs' : source' ∈ laneSources)
    (hn : validateNameCharset name = true) (hn' : validateNameCharset name' = true)
    (h : buildJobname database source name = buildJobname database' source' name') :
  database = database' ∧ source = source' ∧ name = name'
  := by
  have hlast := congrArg (fun s => rsplitChar? s ':') h
  have hname := rsplitChar?_append (a := "_dj:" ++ database ++ ":" ++ source)
    (colon_not_mem_of_charset hn)
  have hname' := rsplitChar?_append (a := "_dj:" ++ database' ++ ":" ++ source')
    (colon_not_mem_of_charset hn')
  obtain ⟨hlane, rfl⟩ := Prod.mk.inj (Option.some.inj (hname.symm.trans (hlast.trans hname')))
  have hbefore := congrArg (fun s => rsplitChar? s ':') hlane
  have hsource := rsplitChar?_append (a := "_dj:" ++ database)
    (colon_not_mem_of_mem_laneSources hs)
  have hsource' := rsplitChar?_append (a := "_dj:" ++ database')
    (colon_not_mem_of_mem_laneSources hs')
  obtain ⟨hhead, rfl⟩ :=
    Prod.mk.inj (Option.some.inj (hsource.symm.trans (hbefore.trans hsource')))
  refine ⟨?_, rfl, rfl⟩
  have hlist := congrArg String.toList hhead
  rw [String.toList_append, String.toList_append] at hlist
  exact String.toList_inj.mp (List.append_cancel_left hlist)

/-- A name starts with the head of one lane of a database at most. -/
theorem eq_of_startsWith {database source source' n : String} (hs : source ∈ laneSources)
    (hs' : source' ∈ laneSources) (h : startsWith n (buildJobname database source "") = true)
    (h' : startsWith n (buildJobname database source' "") = true) :
  source = source'
  := by
  rw [startsWith, List.isPrefixOf_iff_prefix] at h h'
  have hlength : (buildJobname database source "").toList.length
      = (buildJobname database source' "").toList.length := by
    simp [buildJobname, String.toList_append, length_of_mem_laneSources hs,
      length_of_mem_laneSources hs']
  have heads := (List.prefix_of_prefix_length_le h h' hlength.le).eq_of_length hlength
  exact (buildJobname_injective (length_of_mem_laneSources hs) (length_of_mem_laneSources hs')
    (String.toList_inj.mp heads)).1

/-! ### The calls -/

/-- A row of `cron.job_run_details`. -/
structure JobRun where
  runid : ℕ
  database : String
  deriving DecidableEq, Repr

/-- What the databases of a cluster share: the jobs, and the history of their runs. -/
structure CentralCatalog where
  catalog : Catalog
  runDetails : List JobRun

/-- `unschedule_jobs_for_database`. -/
def unscheduleJobsForDatabase (db : AppDatabase) (c : Catalog) (source : String) : Catalog :=
  if db.inert then c else c.unscheduleJobids (c.select (db.owns source))

/-- `flush_database_jobs`. -/
def flushDatabaseJobs (db : AppDatabase) (st : CentralCatalog) : CentralCatalog :=
  if db.inert then st
  else {
    catalog := st.catalog.unscheduleJobids
      (st.catalog.select (fun j => j.database = db.name && startsWith j.jobname "_dj:"))
    runDetails := st.runDetails.filter (fun r => r.database ≠ db.name) }

/-- The verbs of the seam. -/
inductive CatalogCall where
  | scheduleJob (name source cron command : String) (active : Bool)
  | unscheduleJob (name source : String)
  | unscheduleJobsForDatabase (source : String)
  | pruneJobs (source : String) (keepNames : List String)
  | flushDatabaseJobs
  deriving DecidableEq, Repr

namespace CatalogCall

/-- The lane of a call: flushing covers all the lanes of its database. -/
def source? : CatalogCall → Option String
  | scheduleJob _ source _ _ _ | unscheduleJob _ source | unscheduleJobsForDatabase source
  | pruneJobs source _ => some source
  | flushDatabaseJobs => none

/-- The name of the schedule a call is about. -/
def name? : CatalogCall → Option String
  | scheduleJob name _ _ _ _ | unscheduleJob name _ => some name
  | unscheduleJobsForDatabase _ | pruneJobs _ _ | flushDatabaseJobs => none

/-- The source is one of the package's and the name passes `validate_name_charset`. -/
structure Valid (call : CatalogCall) : Prop where
  source : ∀ source, call.source? = some source → source ∈ laneSources
  name : ∀ name, call.name? = some name → validateNameCharset name = true

/-- What a call on behalf of a database does. A schedule the catalog refuses raises. -/
def apply (db : AppDatabase) (st : CentralCatalog) : CatalogCall → CentralCatalog
  | scheduleJob name source cron command active =>
      { st with
        catalog := (DjangoAbsurd.scheduleJob db st.catalog name source cron command active).getD
          st.catalog }
  | unscheduleJob name source =>
      { st with catalog := DjangoAbsurd.unscheduleJob db st.catalog name source }
  | unscheduleJobsForDatabase source =>
      { st with catalog := DjangoAbsurd.unscheduleJobsForDatabase db st.catalog source }
  | pruneJobs source keepNames =>
      { st with catalog := DjangoAbsurd.pruneJobs db st.catalog source keepNames }
  | flushDatabaseJobs => DjangoAbsurd.flushDatabaseJobs db st

/-- A job a call on behalf of a database may change: one of the database, and of no other lane
than the call's. -/
structure Owns (db : AppDatabase) (call : CatalogCall) (j : Job) : Prop where
  database : j.database = db.name
  lane : ∀ source, call.source? = some source → ∀ source' ∈ laneSources, source' ≠ source →
    db.owns source' j = false

/-- The names of the jobs a call may change. -/
def Touches (db : AppDatabase) (c : Catalog) (n : String) : CatalogCall → Prop
  | scheduleJob name source _ _ _ | unscheduleJob name source =>
      n = buildJobname db.name source name
  | unscheduleJobsForDatabase source | pruneJobs source _ =>
      ∃ j, c.jobs.get? n = some j ∧ db.owns source j = true
  | flushDatabaseJobs => ∃ j, c.jobs.get? n = some j ∧ j.database = db.name

end CatalogCall

/-- The jobs named for a database run in it. -/
def Catalog.Bound (c : Catalog) : Prop :=
  ∀ database, ∀ source ∈ laneSources, ∀ name, validateNameCharset name = true →
    ∀ j, c.jobs.get? (buildJobname database source name) = some j → j.database = database

/-! ### What a call changes -/

section

variable {db : AppDatabase} {st : CentralCatalog} {call : CatalogCall} {n : String} {j : Job}

/-- The job of a name that is unscheduled or filtered out was there before. -/
theorem get?_select_eq_some {c : Catalog} {p : Job → Bool}
    (h : (c.unscheduleJobids (c.select p)).jobs.get? n = some j) :
  c.jobs.get? n = some j ∧ p j = false
  := by
  rw [Catalog.get?_unscheduleJobids_select, Option.filter_eq_some_iff] at h
  simpa using h

/-- Unscheduling the jobs satisfying `p` leaves the job of a name that does not. -/
theorem get?_select_of_kept {c : Catalog} {p : Job → Bool}
    (h : ∀ j, c.jobs.get? n = some j → p j = false) :
  (c.unscheduleJobids (c.select p)).jobs.get? n = c.jobs.get? n
  := by
  rw [Catalog.get?_unscheduleJobids_select]
  cases hj : c.jobs.get? n with
  | none => rfl
  | some j => simp [h j hj]

/-- A call on behalf of an inert database does nothing. -/
theorem CatalogCall.apply_of_inert (hinert : db.inert = true) :
  call.apply db st = st
  := by
  cases call <;>
    simp [CatalogCall.apply, DjangoAbsurd.scheduleJob, DjangoAbsurd.unscheduleJob,
      DjangoAbsurd.unscheduleJobsForDatabase, DjangoAbsurd.pruneJobs,
      DjangoAbsurd.flushDatabaseJobs, hinert]

/-- A call leaves the jobs of the names it does not touch. -/
theorem CatalogCall.get?_apply_of_not_touches (h : ¬ call.Touches db st.catalog n) :
  (call.apply db st).catalog.jobs.get? n = st.catalog.jobs.get? n
  := by
  cases hinert : db.inert with
  | true => rw [apply_of_inert hinert]
  | false =>
      cases call with
      | scheduleJob name source cron command active =>
          have hn : n ≠ buildJobname db.name source name := h
          rw [CatalogCall.apply]
          cases hs : DjangoAbsurd.scheduleJob db st.catalog name source cron command active with
          | none => rfl
          | some c => rw [Option.getD_some, get?_scheduleJob hinert hs, if_neg hn]
      | unscheduleJob name source =>
          have hn : n ≠ buildJobname db.name source name := h
          rw [CatalogCall.apply, get?_unscheduleJob hinert, if_neg hn]
      | unscheduleJobsForDatabase source =>
          rw [CatalogCall.apply, DjangoAbsurd.unscheduleJobsForDatabase, hinert,
            if_neg Bool.false_ne_true]
          apply get?_select_of_kept
          intro j hj
          exact Bool.eq_false_of_not_eq_true (fun howns => h ⟨j, hj, howns⟩)
      | pruneJobs source keepNames =>
          rw [CatalogCall.apply, DjangoAbsurd.pruneJobs, hinert, if_neg Bool.false_ne_true]
          apply get?_select_of_kept
          intro j hj
          have howns : db.owns source j = false :=
            Bool.eq_false_of_not_eq_true (fun howns => h ⟨j, hj, howns⟩)
          simp [howns]
      | flushDatabaseJobs =>
          rw [CatalogCall.apply, DjangoAbsurd.flushDatabaseJobs, hinert,
            if_neg Bool.false_ne_true]
          apply get?_select_of_kept
          intro j hj
          have hdatabase : j.database ≠ db.name := fun hdatabase => h ⟨j, hj, hdatabase⟩
          simp [hdatabase]

/-- The job of a lane is of no other lane. -/
theorem owns_eq_false_of_owns {source source' : String} (hs : source ∈ laneSources)
    (hs' : source' ∈ laneSources) (hne : source' ≠ source) (h : db.owns source j = true) :
  db.owns source' j = false
  := by
  apply Bool.eq_false_of_not_eq_true
  intro h'
  rw [AppDatabase.owns, Bool.and_eq_true] at h h'
  exact hne (eq_of_startsWith hs' hs h'.2 h.2)

/-- A job named for a lane of the database is one a call in that lane may change. -/
theorem CatalogCall.owns_of_jobname {source name : String} (hvalid : call.Valid)
    (hsource : call.source? = some source) (hname : j.jobname = buildJobname db.name source name)
    (hdatabase : j.database = db.name) :
  call.Owns db j
  := by
  have hs := hvalid.source source hsource
  have howns : db.owns source j = true := by
    rw [AppDatabase.owns, hdatabase, hname, (startsWith_buildJobname db.name name
      (length_of_mem_laneSources hs) (length_of_mem_laneSources hs)).mpr rfl]
    simp
  constructor
  · exact hdatabase
  · intro source₁ hsource₁ source' hs' hne
    obtain rfl := Option.some.inj (hsource.symm.trans hsource₁)
    exact owns_eq_false_of_owns hs hs' hne howns

/-- A job of a name a call touches is one the call may change. -/
theorem CatalogCall.owns_of_touches (hbound : st.catalog.Bound) (hvalid : call.Valid)
    (h : call.Touches db st.catalog n) (hj : st.catalog.jobs.get? n = some j) :
  call.Owns db j
  := by
  have hkey : j.jobname = n := Table.key_of_get? hj
  have hlane : ∀ source, call.source? = some source →
      (∃ j, st.catalog.jobs.get? n = some j ∧ db.owns source j = true) → call.Owns db j := by
    rintro source hsource ⟨j', hj', howns⟩
    obtain rfl := Option.some.inj (hj.symm.trans hj')
    have howns' := howns
    rw [AppDatabase.owns, Bool.and_eq_true, decide_eq_true_eq] at howns'
    constructor
    · exact howns'.1
    · intro source₁ hsource₁ source' hs' hne
      obtain rfl := Option.some.inj (hsource.symm.trans hsource₁)
      exact owns_eq_false_of_owns (hvalid.source source hsource) hs' hne howns
  have hnamed : ∀ name source, call.source? = some source → call.name? = some name →
      n = buildJobname db.name source name → call.Owns db j := by
    rintro name source hsource hname rfl
    apply owns_of_jobname hvalid hsource hkey
    exact hbound db.name source (hvalid.source source hsource) name (hvalid.name name hname) j hj
  cases call with
  | scheduleJob name source cron command active => exact hnamed name source rfl rfl h
  | unscheduleJob name source => exact hnamed name source rfl rfl h
  | unscheduleJobsForDatabase source => exact hlane source rfl h
  | pruneJobs source keepNames => exact hlane source rfl h
  | flushDatabaseJobs =>
      obtain ⟨j', hj', hdatabase⟩ := h
      obtain rfl := Option.some.inj (hj.symm.trans hj')
      constructor
      · exact hdatabase
      · intro source hsource
        cases hsource

/-- A job that is there after a call was there before it, or the call has scheduled it. -/
theorem CatalogCall.get?_apply_eq_some (h : (call.apply db st).catalog.jobs.get? n = some j) :
  st.catalog.jobs.get? n = some j
    ∨ ∃ name source cron command active,
      call = .scheduleJob name source cron command active
      ∧ n = buildJobname db.name source name
      ∧ j = { st.catalog.scheduled n cron command db.name active with active }
  := by
  cases hinert : db.inert with
  | true =>
      rw [apply_of_inert hinert] at h
      exact .inl h
  | false =>
      cases call with
      | scheduleJob name source cron command active =>
          rw [CatalogCall.apply] at h
          cases hs : DjangoAbsurd.scheduleJob db st.catalog name source cron command active with
          | none =>
              rw [hs] at h
              exact .inl h
          | some c =>
              rw [hs, Option.getD_some, get?_scheduleJob hinert hs] at h
              split at h
              · rename_i hn
                right
                refine ⟨name, source, cron, command, active, rfl, hn, ?_⟩
                rw [hn]
                exact (Option.some.inj h).symm
              · exact .inl h
      | unscheduleJob name source =>
          rw [CatalogCall.apply, get?_unscheduleJob hinert] at h
          split at h
          · cases h
          · exact .inl h
      | unscheduleJobsForDatabase source =>
          rw [CatalogCall.apply, DjangoAbsurd.unscheduleJobsForDatabase, hinert,
            if_neg Bool.false_ne_true] at h
          exact .inl (get?_select_eq_some h).1
      | pruneJobs source keepNames =>
          rw [CatalogCall.apply, DjangoAbsurd.pruneJobs, hinert, if_neg Bool.false_ne_true] at h
          exact .inl (get?_select_eq_some h).1
      | flushDatabaseJobs =>
          rw [CatalogCall.apply, DjangoAbsurd.flushDatabaseJobs, hinert,
            if_neg Bool.false_ne_true] at h
          exact .inl (get?_select_eq_some h).1

/-- The database of a scheduled job. -/
theorem Catalog.Bound.database_scheduled {c : Catalog} (hbound : c.Bound)
    {source name cron command : String} {active : Bool} (hs : source ∈ laneSources)
    (hn : validateNameCharset name = true) :
  (c.scheduled (buildJobname db.name source name) cron command db.name active).database = db.name
  := by
  rw [Catalog.scheduled]
  cases hj : c.jobs.get? (buildJobname db.name source name) with
  | none => rfl
  | some j => exact hbound db.name source hs name hn j hj

/-- A job a call may not change is there after the call exactly when it was before. -/
theorem CatalogCall.get?_apply_iff (hbound : st.catalog.Bound) (hvalid : call.Valid)
    (h : ¬ call.Owns db j) :
  (call.apply db st).catalog.jobs.get? n = some j ↔ st.catalog.jobs.get? n = some j
  := by
  constructor
  · intro hj
    rcases get?_apply_eq_some hj with hj | ⟨name, source, cron, command, active, rfl, rfl, rfl⟩
    · exact hj
    · apply absurd (owns_of_jobname hvalid rfl _ _) h
      · exact name
      · apply Catalog.jobname_scheduled
      · exact hbound.database_scheduled (hvalid.source source rfl) (hvalid.name name rfl)
  · intro hj
    rw [get?_apply_of_not_touches]
    · exact hj
    · exact fun htouches => h (owns_of_touches hbound hvalid htouches hj)

/-- A call keeps the jobs in the databases they are named for. -/
theorem CatalogCall.bound_apply (hbound : st.catalog.Bound) (hvalid : call.Valid) :
  (call.apply db st).catalog.Bound
  := by
  intro database source hs name hn j hj
  rcases get?_apply_eq_some hj with hj | ⟨name', source', cron, command, active, rfl, hname, rfl⟩
  · exact hbound database source hs name hn j hj
  · obtain ⟨rfl, rfl, rfl⟩ :=
      buildJobname_unique hs (hvalid.source source' rfl) hn (hvalid.name name' rfl) hname
    exact hbound.database_scheduled hs hn

end

/-! ### Isolation -/

/-- A call on behalf of a database leaves the jobs and the history of other databases as they
are, and when it is for one lane, the jobs of the others. -/
structure CatalogCall.Isolated (db : AppDatabase) (call : CatalogCall)
    (st st' : CentralCatalog) : Prop where
  databases : ∀ n j, j.database ≠ db.name →
    (st'.catalog.jobs.get? n = some j ↔ st.catalog.jobs.get? n = some j)
  lanes : ∀ source, call.source? = some source → ∀ source' ∈ laneSources, source' ≠ source →
    ∀ n j, db.owns source' j = true →
      (st'.catalog.jobs.get? n = some j ↔ st.catalog.jobs.get? n = some j)
  history : ∀ r, r.database ≠ db.name → (r ∈ st'.runDetails ↔ r ∈ st.runDetails)

theorem CatalogCall.isolated_apply {db : AppDatabase} {call : CatalogCall} {st : CentralCatalog}
    (hbound : st.catalog.Bound) (hvalid : call.Valid) :
  call.Isolated db st (call.apply db st)
  := by
  constructor
  · intro n j hdatabase
    apply get?_apply_iff hbound hvalid
    exact fun howns => hdatabase howns.database
  · intro source hsource source' hs' hne n j howns
    apply get?_apply_iff hbound hvalid
    intro hown
    rw [hown.lane source hsource source' hs' hne] at howns
    cases howns
  · intro r hr
    cases call with
    | flushDatabaseJobs =>
        rw [CatalogCall.apply, DjangoAbsurd.flushDatabaseJobs]
        split
        · rfl
        · simp [hr]
    | _ => rfl

/-- The calls on behalf of any databases. -/
def centralMachine : Machine CentralCatalog (AppDatabase × CatalogCall) :=
  ⟨fun st l => some (l.2.apply l.1 st)⟩

/-- A catalog in which nobody else has named a job like the package is bound. -/
theorem Catalog.bound_of_foreign {c : Catalog}
    (h : ∀ j ∈ c.jobs.rows, startsWith j.jobname "_dj:" = false) :
  c.Bound
  := by
  intro database source _ name _ j hj
  have hkey : j.jobname = buildJobname database source name := Table.key_of_get? hj
  have hforeign := h j (Table.mem_of_get? hj)
  have hhead : startsWith (buildJobname database source name) "_dj:" = true := by
    rw [startsWith, List.isPrefixOf_iff_prefix]
    simp only [buildJobname, String.toList_append, List.append_assoc]
    apply List.prefix_append
  rw [hkey, hhead] at hforeign
  cases hforeign

/-- Along every sequence of calls in a catalog whose jobs run in the databases they are named
for, a call on behalf of a database is isolated from the others, and in one lane from the other
lanes, because the name of a job tells its database, its source and its schedule. -/
theorem catalog_isolated {st : CentralCatalog} {ls : List (AppDatabase × CatalogCall)}
    (hbound : st.catalog.Bound) (hvalid : ∀ l ∈ ls, l.2.Valid) :
  centralMachine.Along (fun st l => l.2.Isolated l.1 st (l.2.apply l.1 st)) st ls
    ∧ ∀ database database' source source' name name', source ∈ laneSources →
      source' ∈ laneSources → validateNameCharset name = true →
      validateNameCharset name' = true →
      buildJobname database source name = buildJobname database' source' name' →
        database = database' ∧ source = source' ∧ name = name'
  := by
  constructor
  · have halong := Machine.Along.invariant (m := centralMachine)
      (P := fun _ l => l.2.Valid) (I := fun st => st.catalog.Bound)
      (fun st l st' hvalid hbound hs => Option.some.inj hs ▸ CatalogCall.bound_apply hbound hvalid)
      (Machine.along_of_forall (fun _ l hl => hvalid l hl)) hbound
    apply halong.mono
    intro st l hl
    exact CatalogCall.isolated_apply hl.1 hl.2
  · intro database database' source source' name name' hs hs' hn hn'
    exact buildJobname_unique hs hs' hn hn'

/-- A catalog with a job of somebody else. -/
def foreignCatalog : CentralCatalog where
  catalog := {
    jobs := ⟨[⟨0, "vacuum", "0 3 * * *", "vacuum", "shop:s", true⟩], List.nodup_singleton _⟩
    next := 1
    fresh := by simp
    ids := by simp }
  runDetails := [⟨0, "shop"⟩, ⟨1, "shop:s"⟩]

/-- A database whose name looks like a lane of another is left alone by its calls. -/
theorem catalog_isolated_shop :
  let shop : AppDatabase := ⟨"shop", false, fun _ => true⟩
  let other : AppDatabase := ⟨"shop:s", false, fun _ => true⟩
  centralMachine.Along (fun st l => l.2.Isolated l.1 st (l.2.apply l.1 st)) foreignCatalog
    [(other, .scheduleJob "nightly" "s" "0 2 * * *" "select 1" true),
      (shop, .unscheduleJobsForDatabase "s"), (shop, .flushDatabaseJobs)]
  := by
  intro shop other
  refine (catalog_isolated ?_ ?_).1
  · apply Catalog.bound_of_foreign
    intro j hj
    obtain rfl := List.mem_singleton.mp hj
    decide
  · intro l hl
    simp only [List.mem_cons, List.not_mem_nil, or_false] at hl
    rcases hl with rfl | rfl | rfl
    · constructor
      · intro source hsource
        obtain rfl := Option.some.inj hsource
        decide
      · intro name hname
        obtain rfl := Option.some.inj hname
        decide
    · constructor
      · intro source hsource
        obtain rfl := Option.some.inj hsource
        decide
      · intro name hname
        cases hname
    · constructor
      · intro source hsource
        cases hsource
      · intro name hname
        cases hname

end DjangoAbsurd
