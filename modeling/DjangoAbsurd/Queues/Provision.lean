import DjangoAbsurd.Library.Cells
import DjangoAbsurd.Queues.Plan
import Mathlib.Logic.Function.Basic

/-!
# Provisioning a database

`provision_backend` reconciles the declared queues one after another and rebuilds the union
views, all in one transaction. The queues are cells of the database (`queueCells`): they do not
see each other, and provisioning visits those of the declared queues. Only the views are built
over all the queues of the catalog, so a queue nobody declares can fail them.
-/

namespace DjangoAbsurd

/-! ### The database -/

/-- A row of `absurd.queues`. -/
structure QueueRow where
  queueName : String
  settings : QueueSettings

/-- What provisioning reads and writes of a database: whether the schema is there, the catalog
of the queues, which table of which queue is there, and which queues a view is built over. -/
structure QueueDatabase where
  installed : Bool
  queues : Keyed.Table QueueRow.queueName
  tables : String → String → Bool
  views : String → Option (List String)

namespace QueueDatabase

/-- The queue of a name. -/
def cell (db : QueueDatabase) (name : String) : QueueCell where
  settings := (db.queues.get? name).map QueueRow.settings
  tables p := db.tables p name

/-- The database in which the queue of a name is the given one. -/
def setCell (db : QueueDatabase) (name : String) (cell : QueueCell) : QueueDatabase :=
  { db with
    queues :=
      match cell.settings with
      | none => db.queues.delete (fun row => row.queueName = name)
      | some settings => db.queues.put ⟨name, settings⟩
    tables := fun p queue => if queue = name then cell.tables p else db.tables p queue }

theorem get?_setCell (db : QueueDatabase) (name queue : String) (cell : QueueCell) :
  (db.setCell name cell).queues.get? queue
    = if queue = name then cell.settings.map (QueueRow.mk name) else db.queues.get? queue
  := by
  rw [setCell]
  cases cell.settings with
  | none =>
      dsimp only
      rw [Keyed.Table.get?_delete]
      cases hget : db.queues.get? queue with
      | none => simp
      | some row =>
          by_cases hname : queue = name
          · simp [Keyed.Table.key_of_get? hget, hname]
          · simp [Keyed.Table.key_of_get? hget, hname]
  | some settings =>
      by_cases hname : queue = name
      · rw [if_pos hname, hname]
        exact Keyed.Table.get?_put_self db.queues ⟨name, settings⟩
      · rw [if_neg hname]
        exact Keyed.Table.get?_put_of_ne db.queues hname

theorem cell_setCell_self (db : QueueDatabase) (name : String) (cell : QueueCell) :
  (db.setCell name cell).cell name = cell
  := by
  apply QueueCell.ext
  · rw [QueueDatabase.cell, get?_setCell, if_pos rfl, Option.map_map]
    exact Option.map_id'
  · funext p
    exact if_pos rfl

theorem cell_setCell_of_ne (db : QueueDatabase) (name queue : String) (cell : QueueCell)
    (h : queue ≠ name) :
  (db.setCell name cell).cell queue = db.cell queue
  := by
  apply QueueCell.ext
  · rw [QueueDatabase.cell, get?_setCell, if_neg h]
    rfl
  · funext p
    exact if_neg h

end QueueDatabase

/-- The queues of a database. -/
def queueCells : Cells QueueDatabase String QueueCell where
  get := QueueDatabase.cell
  set := QueueDatabase.setCell
  get_set_self := QueueDatabase.cell_setCell_self
  get_set_of_ne := QueueDatabase.cell_setCell_of_ne

/-! ### The views -/

/-- `fetch_catalog_queues`. -/
def fetchCatalogQueues (db : QueueDatabase) : List String :=
  (db.queues.rows.map QueueRow.queueName).mergeSort

/-- `rebuild_admin_view`: a view over a table that is not there cannot be created. -/
def rebuildAdminView (queues : List String) (db : QueueDatabase) (spec : EntitySpec) :
    Except ProvisionError QueueDatabase :=
  match queues.find? (fun queue => !db.tables spec.tablePrefix queue) with
  | some queue => .error (.undefinedTable (spec.tablePrefix ++ "_" ++ queue))
  | none => .ok { db with views := Function.update db.views spec.viewName (some queues) }

/-- `rebuild_views`. -/
def rebuildViews (db : QueueDatabase) : Except ProvisionError QueueDatabase :=
  adminEntitySpecs.foldlM (rebuildAdminView (fetchCatalogQueues db)) db

theorem mem_fetchCatalogQueues {db : QueueDatabase} {queue : String} :
  queue ∈ fetchCatalogQueues db ↔ (db.cell queue).settings ≠ none
  := by
  rw [fetchCatalogQueues, List.mem_mergeSort, List.mem_map, QueueDatabase.cell]
  dsimp only
  cases h : db.queues.get? queue with
  | none =>
      have hnone := Keyed.Table.get?_eq_none.mp h
      simpa using hnone
  | some row =>
      obtain ⟨hrow, hname⟩ := Keyed.Table.get?_eq_some.mp h
      simp only [Option.map_some, ne_eq, reduceCtorEq, not_false_eq_true, iff_true]
      exact ⟨row, hrow, hname⟩

theorem rebuildAdminView_eq_ok {queues : List String} {db db' : QueueDatabase}
    {spec : EntitySpec} :
  rebuildAdminView queues db spec = .ok db'
    ↔ (∀ queue ∈ queues, db.tables spec.tablePrefix queue = true)
      ∧ db' = { db with views := Function.update db.views spec.viewName (some queues) }
  := by
  rw [rebuildAdminView]
  cases h : queues.find? (fun queue => !db.tables spec.tablePrefix queue) with
  | none =>
      have hnone := List.find?_eq_none.mp h
      simp only [Bool.not_eq_true', Bool.not_eq_false] at hnone
      simp only [Except.ok.injEq, and_iff_right hnone]
      exact eq_comm
  | some queue =>
      simp only [reduceCtorEq, false_iff, not_and]
      intro hall
      have hmissing := List.find?_some h
      rw [hall queue (List.mem_of_find?_eq_some h)] at hmissing
      cases hmissing

/-- The views are rebuilt one after another, over tables that are there, and nothing else
changes. -/
theorem foldlM_rebuildAdminView {queues : List String} :
    ∀ {specs : List EntitySpec} {db db' : QueueDatabase},
      specs.foldlM (rebuildAdminView queues) db = .ok db' →
        (∀ queue ∈ queues, ∀ spec ∈ specs, db.tables spec.tablePrefix queue = true)
          ∧ db'.installed = db.installed ∧ ∀ queue, db'.cell queue = db.cell queue
  | [], db, db', h => by
      cases h
      exact ⟨fun _ _ _ hspec => absurd hspec List.not_mem_nil, rfl, fun _ => rfl⟩
  | spec :: specs, db, db', h => by
      rw [List.foldlM_cons] at h
      cases hspec : rebuildAdminView queues db spec with
      | error e =>
          rw [hspec] at h
          cases h
      | ok rebuilt =>
          rw [hspec] at h
          obtain ⟨hhead, rfl⟩ := rebuildAdminView_eq_ok.mp hspec
          obtain ⟨htail, hinstalled, hcells⟩ := foldlM_rebuildAdminView h
          refine ⟨?_, hinstalled, hcells⟩
          intro queue hqueue spec' hspec'
          rcases List.mem_cons.mp hspec' with rfl | hspec'
          · exact hhead queue hqueue
          · exact htail queue hqueue spec' hspec'

theorem foldlM_rebuildAdminView_isOk {queues : List String} :
    ∀ {specs : List EntitySpec} {db : QueueDatabase},
      (∀ queue ∈ queues, ∀ spec ∈ specs, db.tables spec.tablePrefix queue = true) →
        ∃ db', specs.foldlM (rebuildAdminView queues) db = .ok db'
  | [], db, _ => ⟨db, rfl⟩
  | spec :: specs, db, h => by
      have hhead := rebuildAdminView_eq_ok.mpr
        ⟨fun queue hqueue => h queue hqueue spec List.mem_cons_self, rfl⟩
      rw [List.foldlM_cons, hhead]
      apply foldlM_rebuildAdminView_isOk
      intro queue hqueue spec' hspec'
      exact h queue hqueue spec' (List.mem_cons_of_mem spec hspec')

/-! ### `provision_backend` -/

/-- `get_declared_queues`: a dictionary. -/
abbrev DeclaredQueues := Keyed.Table (Prod.fst : String × QueueOptions → String)

/-- `SyncResult`. -/
structure SyncResult where
  created : List String
  reconciled : List String
  repaired : List String
  deriving DecidableEq, Repr

/-- `summarize_queue_plans`. -/
def summarizeQueuePlans (plans : List QueuePlan) : SyncResult where
  created := (plans.filter (fun plan => plan.createOptions.isSome)).map QueuePlan.queueName
  reconciled := (plans.filter (fun plan => plan.policyOptions.isSome)).map QueuePlan.queueName
  repaired := (plans.filter QueuePlan.repair).map QueuePlan.queueName

/-- Every declared queue passes the check. -/
def CheckedQueues (texts : PolicyTexts) (declared : DeclaredQueues) : Prop :=
  ∀ q ∈ declared.rows, validateQueuePolicy texts q.1 (pyDict q.2.rows) = some []

namespace PolicyInput

variable (input : PolicyInput)

/-- What the declared queues are planned to need. -/
def planQueues (declared : DeclaredQueues) (db : QueueDatabase) :
    Except ProvisionError (List QueuePlan) :=
  declared.rows.mapM (fun q => input.planQueue q.1 q.2 (db.cell q.1))

/-- `plan_queue_sync`. -/
def planQueueSync (declared : DeclaredQueues) (db : QueueDatabase) :
    Except ProvisionError SyncResult :=
  if db.installed then (input.planQueues declared db).map summarizeQueuePlans
  else .error .schemaNotInstalled

end PolicyInput

namespace QueueClient

variable {input : PolicyInput} (client : QueueClient input)

/-- `sync_queues`, with the plans it applies. -/
def syncQueues (declared : DeclaredQueues) (db : QueueDatabase) :
    Except ProvisionError (QueueDatabase × List QueuePlan) :=
  queueCells.visitAll client.reconcileQueue Prod.fst declared.rows db

/-- `provision_backend`. An error rolls the transaction back. -/
def provisionBackend (declared : DeclaredQueues) (db : QueueDatabase) :
    Except ProvisionError (QueueDatabase × SyncResult) :=
  if db.installed then
    match client.syncQueues declared db with
    | .error e => .error e
    | .ok (db, plans) => (rebuildViews db).map (fun db => (db, summarizeQueuePlans plans))
  else .error .schemaNotInstalled

end QueueClient

namespace PolicyInput

section

variable {input : PolicyInput} {client : QueueClient input} {texts : PolicyTexts}
  {declared : DeclaredQueues} {db db' : QueueDatabase} {plans : List QueuePlan}
  {result : SyncResult}

theorem syncQueues_eq_ok (hchecked : CheckedQueues texts declared)
    (h : client.syncQueues declared db = .ok (db', plans)) :
  db'.installed = db.installed
    ∧ (∀ queue, queue ∉ declared.rows.map Prod.fst → db'.cell queue = db.cell queue)
    ∧ (∀ q ∈ declared.rows, Leaves input q (db.cell q.1) (db'.cell q.1))
    ∧ input.planQueues declared db = .ok plans
  := by
  obtain ⟨hframe, hcells, hresults⟩ := Cells.visitAll_eq_ok declared.nodup h
  have hinstalled : db'.installed = db.installed := by
    apply Cells.visitAll_preserves _ h
    intro _ _ _
    rfl
  refine ⟨hinstalled, hframe, ?_, ?_⟩
  · intro q hq
    obtain ⟨plan, hplan⟩ := hcells q hq
    exact (reconcileQueue_eq_ok (checked_of_validateQueuePolicy (hchecked q hq)) hplan).2
  · apply Except.mapM_of_map_eq
    rw [← hresults]
    apply List.map_congr_left
    intro q hq
    obtain ⟨plan, hplan⟩ := hcells q hq
    obtain ⟨hplanned, -⟩ :=
      reconcileQueue_eq_ok (checked_of_validateQueuePolicy (hchecked q hq)) hplan
    rw [hplan]
    exact hplanned

/-- Provisioning that succeeds has done what was planned, and left the declared queues with
their rows and tables and the others as they were. -/
theorem provisionBackend_eq_ok (hchecked : CheckedQueues texts declared)
    (h : client.provisionBackend declared db = .ok (db', result)) :
  db.installed = true ∧ db'.installed = true
    ∧ (∀ queue, queue ∉ declared.rows.map Prod.fst → db'.cell queue = db.cell queue)
    ∧ (∀ q ∈ declared.rows, Leaves input q (db.cell q.1) (db'.cell q.1))
    ∧ input.planQueueSync declared db = .ok result
  := by
  rw [QueueClient.provisionBackend] at h
  split at h
  · rename_i hinstalled
    split at h
    · cases h
    · rename_i synced plans hsync
      obtain ⟨rebuilt, hrebuild, heq⟩ := Except.map_eq_ok h
      cases heq
      obtain ⟨hkept, hframe, hleaves, hplans⟩ := syncQueues_eq_ok hchecked hsync
      obtain ⟨-, hkept', hcells⟩ := foldlM_rebuildAdminView hrebuild
      refine ⟨hinstalled, hkept'.trans (hkept.trans hinstalled), ?_, ?_, ?_⟩
      · intro queue hqueue
        rw [hcells, hframe queue hqueue]
      · intro q hq
        rw [hcells]
        exact hleaves q hq
      · rw [planQueueSync, if_pos hinstalled, hplans]
        rfl
  · cases h

/-- Provisioning succeeds exactly when every declared queue can be reconciled and every other
queue of the catalog has its tables. -/
theorem provisionBackend_isOk_iff (hchecked : CheckedQueues texts declared)
    (hinstalled : db.installed = true) :
  (∃ out, client.provisionBackend declared db = .ok out)
    ↔ (∀ queue, queue ∉ declared.rows.map Prod.fst → (db.cell queue).settings ≠ none →
        (db.cell queue).Complete)
      ∧ ∀ q ∈ declared.rows, Provisionable input q.1 q.2 (db.cell q.1)
  := by
  have hsync : (∃ out, client.syncQueues declared db = .ok out)
      ↔ ∀ q ∈ declared.rows, Provisionable input q.1 q.2 (db.cell q.1) := by
    rw [QueueClient.syncQueues, Cells.visitAll_isOk_iff declared.nodup]
    apply forall₂_congr
    intro q hq
    exact reconcileQueue_isOk_iff (checked_of_validateQueuePolicy (hchecked q hq))
  rw [← hsync]
  constructor
  · rintro ⟨⟨db', result⟩, h⟩
    rw [QueueClient.provisionBackend, if_pos hinstalled] at h
    split at h
    · cases h
    · rename_i synced plans hsynced
      obtain ⟨rebuilt, hrebuild, -⟩ := Except.map_eq_ok h
      obtain ⟨-, hframe, -⟩ := syncQueues_eq_ok hchecked hsynced
      obtain ⟨htables, -⟩ := foldlM_rebuildAdminView hrebuild
      constructor
      · intro queue hqueue hrow p hp
        rw [← map_tablePrefix_adminEntitySpecs] at hp
        obtain ⟨spec, hspec, rfl⟩ := List.mem_map.mp hp
        rw [← hframe queue hqueue] at hrow ⊢
        exact htables queue (mem_fetchCatalogQueues.mpr hrow) spec hspec
      · exact ⟨_, hsynced⟩
  · rintro ⟨hothers, ⟨synced, plans⟩, hsynced⟩
    obtain ⟨-, hframe, hleaves, -⟩ := syncQueues_eq_ok hchecked hsynced
    have htables : ∀ queue ∈ fetchCatalogQueues synced, ∀ spec ∈ adminEntitySpecs,
        synced.tables spec.tablePrefix queue = true := by
      intro queue hqueue spec hspec
      have hp : spec.tablePrefix ∈ queueTablePrefixes :=
        map_tablePrefix_adminEntitySpecs ▸ List.mem_map_of_mem hspec
      have hrow := mem_fetchCatalogQueues.mp hqueue
      have hcomplete : (synced.cell queue).Complete := by
        by_cases hdeclared : queue ∈ declared.rows.map Prod.fst
        · obtain ⟨q, hq, rfl⟩ := List.mem_map.mp hdeclared
          exact (hleaves q hq).complete.2
        · rw [hframe queue hdeclared] at hrow ⊢
          exact hothers queue hdeclared hrow
      exact hcomplete _ hp
    obtain ⟨rebuilt, hrebuild⟩ := foldlM_rebuildAdminView_isOk htables
    refine ⟨(rebuilt, summarizeQueuePlans plans), ?_⟩
    rw [QueueClient.provisionBackend, if_pos hinstalled, hsynced]
    dsimp only
    rw [rebuildViews, hrebuild]
    rfl

end

end PolicyInput

/-! ### Queues that are not declared -/

/-- Provisioning succeeds, and every declared queue has its row and all its tables. -/
def Provisioned {input : PolicyInput} (client : QueueClient input) (declared : DeclaredQueues)
    (db : QueueDatabase) : Prop :=
  ∃ db' result, client.provisionBackend declared db = .ok (db', result)
    ∧ ∀ q ∈ declared.rows, (db'.cell q.1).settings ≠ none ∧ (db'.cell q.1).Complete

/-- The declared queues are provisioned exactly when each can be reconciled and every queue of
the catalog that is not declared has all its tables. -/
theorem provisioned_iff {input : PolicyInput} (client : QueueClient input) {texts : PolicyTexts}
    {declared : DeclaredQueues} {db : QueueDatabase} (hchecked : CheckedQueues texts declared)
    (hinstalled : db.installed = true) :
  Provisioned client declared db
    ↔ (∀ queue, queue ∉ declared.rows.map Prod.fst → (db.cell queue).settings ≠ none →
        (db.cell queue).Complete)
      ∧ ∀ q ∈ declared.rows, PolicyInput.Provisionable input q.1 q.2 (db.cell q.1)
  := by
  rw [← PolicyInput.provisionBackend_isOk_iff hchecked hinstalled]
  constructor
  · rintro ⟨db', result, h, -⟩
    exact ⟨_, h⟩
  · rintro ⟨⟨db', result⟩, h⟩
    obtain ⟨-, -, -, hleaves, -⟩ := PolicyInput.provisionBackend_eq_ok hchecked h
    exact ⟨db', result, h, fun q hq => (hleaves q hq).complete⟩

/-- Values on a database that knows a few intervals. -/
def plainInput : PolicyInput where
  toInterval s :=
    if s = "30 days" then some ⟨0, 30, 0⟩ else if s = "1 month" then some ⟨1, 0, 0⟩ else none
  toInteger _ := none
  numericText _ := ""
  toInteger_numericText _ _ h := by cases h
  lowerTrim := id
  lowerTrim_unpartitioned := rfl
  timedelta := Interval.span
  objectInterval _ := none
  objectEquals _ _ := false

/-- A client that calls the functions of the schema. -/
def plainClient (input : PolicyInput) : QueueClient input where
  createQueue name opts cell :=
    match opts.rows.find? (fun o => o.1 ∉ validQueueOptionKeys) with
    | some o => .error (.unsupportedPolicyKey o.1)
    | none =>
        input.createQueue name (storageModeOf opts) cell >>= fun cell =>
          if (mutableOptions opts).rows = [] then .ok cell
          else input.setCellPolicy name (mutableOptions opts) cell
  setQueuePolicy := input.setCellPolicy
  createQueue_eq name opts cell hknown := by
    have hnone : opts.rows.find? (fun o => decide (o.1 ∉ validQueueOptionKeys)) = none := by
      apply List.find?_eq_none.mpr
      intro o ho
      simp [hknown o ho]
    rw [hnone]
  setQueuePolicy_eq _ _ _ _ := rfl

/-- The queue `default`, declared with no options. -/
def declaredDefault : DeclaredQueues := ⟨[("default", emptyOptions)], List.nodup_singleton _⟩

theorem declaredDefault_checked (texts : PolicyTexts) :
  CheckedQueues texts declaredDefault
  := by
  intro q hq
  obtain rfl := List.mem_singleton.mp hq
  rfl

/-- A catalog with the queues `default`, which has no tables, and `old`. -/
def oldCatalog (complete : Bool) : QueueDatabase where
  installed := true
  queues := ⟨[⟨"default", .create .unpartitioned⟩, ⟨"old", .create .unpartitioned⟩], by simp⟩
  tables _ queue := complete && queue = "old"
  views _ := none

theorem oldCatalog_provisionable (complete : Bool) :
  ∀ q ∈ declaredDefault.rows,
    PolicyInput.Provisionable plainInput q.1 q.2 ((oldCatalog complete).cell q.1)
  := by
  intro q hq
  obtain rfl := List.mem_singleton.mp hq
  have hname : ValidQueueName "default" := by
    constructor <;> decide
  exact ⟨fun _ => ⟨hname, rfl⟩, .inl rfl⟩

/-- The queue `old` has its tables, and `default` gets its own. -/
theorem provisioned_iff_old :
  Provisioned (plainClient plainInput) declaredDefault (oldCatalog true)
  := by
  apply (provisioned_iff (plainClient plainInput)
    (declaredDefault_checked ⟨fun _ => "", fun _ => "", fun _ => ""⟩) rfl).mpr
  constructor
  · intro queue hdeclared hrow p _
    have hqueue : queue ∈ fetchCatalogQueues (oldCatalog true) := mem_fetchCatalogQueues.mpr hrow
    rw [fetchCatalogQueues, List.mem_mergeSort] at hqueue
    have hname : queue ∈ ["default", "old"] := hqueue
    rcases List.mem_cons.mp hname with rfl | hold
    · exact absurd (List.mem_singleton_self _) hdeclared
    · obtain rfl := List.mem_singleton.mp hold
      rfl
  · exact oldCatalog_provisionable true

/-- The queue `old`, which is not declared, has lost its tables: nothing is provisioned. -/
theorem undeclared_queue_blocks :
  ¬ ∀ (input : PolicyInput) (client : QueueClient input) (texts : PolicyTexts)
      (declared : DeclaredQueues) (db : QueueDatabase), CheckedQueues texts declared →
      db.installed = true →
      (∀ q ∈ declared.rows, PolicyInput.Provisionable input q.1 q.2 (db.cell q.1)) →
      Provisioned client declared db
  := by
  intro h
  have hchecked := declaredDefault_checked ⟨fun _ => "", fun _ => "", fun _ => ""⟩
  obtain ⟨db', result, hprovisioned, -⟩ := h plainInput (plainClient plainInput) _ declaredDefault
    (oldCatalog false) hchecked rfl (oldCatalog_provisionable false)
  obtain ⟨hothers, -⟩ := (PolicyInput.provisionBackend_isOk_iff hchecked rfl).mp ⟨_, hprovisioned⟩
  have hcomplete := hothers "old" (by decide) (by decide)
  have htable : (oldCatalog false).tables "t" "old" = true := hcomplete "t" (by decide)
  cases htable

end DjangoAbsurd
