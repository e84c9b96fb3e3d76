import DjangoAbsurd.AdminViews
import DjangoAbsurd.Library.Fallible
import DjangoAbsurd.Queues.Policy

/-!
# What a declared queue needs

A queue is its row in the catalog and its tables (`QueueCell`). `plan_queue` reads it and
decides whether to create it, to put missing tables back or to set its policy, and
`apply_queue_plan` has the client of `absurd_sdk` do what was decided (`QueueClient`).
`reconcileQueue_isOk_iff` says when that succeeds and `reconcileQueue_eq_ok` what it leaves.
-/

namespace DjangoAbsurd

open Engine (StorageMode)

/-! ### A queue -/

/-- `QUEUE_TABLE_PREFIXES`. -/
def queueTablePrefixes : List String := ["t", "r", "c", "e", "w"]

/-- A table of a queue. -/
def queueTable (tablePrefix queue : String) : String := tablePrefix ++ "_" ++ queue

/-- The prefixes of the tables a queue may have: `i` is that of a partitioned one. -/
def allTablePrefixes : List String := queueTablePrefixes ++ ["i"]

theorem queueTable_inj {p p' queue queue' : String} (hp : p ∈ allTablePrefixes)
    (hp' : p' ∈ allTablePrefixes) (h : queueTable p queue = queueTable p' queue') :
  p = p' ∧ queue = queue'
  := by
  have hlength : ∀ p ∈ allTablePrefixes, p.toList.length = 1 := by
    simp [allTablePrefixes, queueTablePrefixes]
  have hlists := congrArg String.toList h
  simp only [queueTable, String.toList_append] at hlists
  obtain ⟨hletter, hqueue⟩ := List.append_inj hlists (by simp [hlength p hp, hlength p' hp'])
  exact ⟨String.toList_injective (List.append_cancel_right hletter),
    String.toList_injective hqueue⟩

theorem map_tablePrefix_adminEntitySpecs :
  adminEntitySpecs.map EntitySpec.tablePrefix = queueTablePrefixes
  := rfl

/-- What the database has of a queue: its row in the catalog, and its tables by their
prefixes. -/
@[ext]
structure QueueCell where
  settings : Option QueueSettings
  tables : String → Bool

/-- The queue has all its tables. -/
def QueueCell.Complete (cell : QueueCell) : Prop := ∀ p ∈ queueTablePrefixes, cell.tables p = true

/-- `find_missing_queue_tables`. -/
def findMissingQueueTables (name : String) (cell : QueueCell) : List String :=
  (queueTablePrefixes.filter (fun p => !cell.tables p)).map (fun p => p ++ "_" ++ name)

theorem findMissingQueueTables_eq_nil {name : String} {cell : QueueCell} :
  findMissingQueueTables name cell = [] ↔ cell.Complete
  := by
  rw [findMissingQueueTables, List.map_eq_nil_iff, List.filter_eq_nil_iff]
  apply forall₂_congr
  intro p _
  rw [Bool.not_eq_true', Bool.not_eq_false]

/-- `absurd.validate_queue_name`. -/
def validateQueueName (name : String) : Except ProvisionError Unit :=
  if name = "" then .error .queueNameRequired
  else if 57 < name.utf8ByteSize then .error (.queueNameTooLong name)
  else .ok ()

/-- The schema takes the name of the queue. -/
def ValidQueueName (name : String) : Prop := name ≠ "" ∧ name.utf8ByteSize ≤ 57

theorem validateQueueName_eq_ok {name : String} :
  validateQueueName name = .ok () ↔ ValidQueueName name
  := by
  rw [validateQueueName, ValidQueueName]
  split
  · simp [*]
  · split
    · simp [*]
    · rename_i hname hsize
      simp [hname, Nat.le_of_not_lt hsize]

/-- `absurd.ensure_queue_tables`: the tables that are not there are created. This assumes that no
other relation has the name of one of them, though names of indexes end in more than the queue: the
index `r_mail_ti` of a queue `mail` would keep a queue `mail_ti` from its table of runs. -/
def ensureQueueTables (cell : QueueCell) : QueueCell :=
  { cell with tables := fun p => decide (p ∈ queueTablePrefixes) || cell.tables p }

theorem complete_ensureQueueTables (cell : QueueCell) :
  (ensureQueueTables cell).Complete
  := by
  intro p hp
  simp [ensureQueueTables, hp]

/-- No option is given. -/
def emptyOptions : QueueOptions := .empty _

/-- The storage mode a queue is created with. -/
def storageModeOf (opts : QueueOptions) : PyValue :=
  ((opts.get? "storage_mode").map Prod.snd).getD (.str "unpartitioned")

theorem storageModeOf_checked {opts : QueueOptions} (hchecked : CheckedOptions opts) :
  storageModeOf opts = .str "unpartitioned"
  := by
  rw [storageModeOf]
  cases h : opts.get? "storage_mode" with
  | none => rfl
  | some o => exact hchecked.storageMode o h

/-- What a declared queue needs. -/
structure QueuePlan where
  queueName : String
  createOptions : Option QueueOptions
  repair : Bool
  policyOptions : Option PolicyOptions

namespace PolicyInput

variable (input : PolicyInput)

/-- The storage mode `absurd.create_queue` reads. -/
def storageMode? : PyValue → Option StorageMode
  | .str s =>
      if input.lowerTrim s = "unpartitioned" then some .unpartitioned
      else if input.lowerTrim s = "partitioned" then some .partitioned
      else none
  | _ => none

/-- `absurd.create_queue`. -/
def createQueue (name : String) (storageMode : PyValue) (cell : QueueCell) :
    Except ProvisionError QueueCell :=
  match validateQueueName name with
  | .error e => .error e
  | .ok () =>
      match input.storageMode? storageMode with
      | none => .error .unsupportedStorageMode
      | some mode =>
          let settings := cell.settings.getD (.create mode)
          if settings.storageMode = mode then
            .ok (ensureQueueTables { cell with settings := some settings })
          else .error (.storageModeMismatch name settings.storageMode)

/-- `absurd.set_queue_policy`. -/
def setCellPolicy (name : String) (opts : PolicyOptions) (cell : QueueCell) :
    Except ProvisionError QueueCell :=
  match validateQueueName name with
  | .error e => .error e
  | .ok () =>
      match cell.settings with
      | none => .error (.queueNotFound name)
      | some settings =>
          (input.setQueuePolicy opts settings).map
            (fun settings => { cell with settings := some settings })

/-- `plan_queue`. -/
def planQueue (name : String) (opts : QueueOptions) (cell : QueueCell) :
    Except ProvisionError QueuePlan :=
  match cell.settings with
  | none => .ok ⟨name, some opts, false, none⟩
  | some settings =>
      let repair := !(findMissingQueueTables name cell).isEmpty
      match input.checkMutableOptionsDrifted settings (mutableOptions opts).rows with
      | .error e => .error e
      | .ok false => .ok ⟨name, none, repair, none⟩
      | .ok true => .ok ⟨name, none, repair, some (mutableOptions opts)⟩

variable {input} {name : String} {opts : QueueOptions} {cell cell' : QueueCell}
  {settings : QueueSettings} {plan : QueuePlan}

theorem storageMode?_unpartitioned :
  input.storageMode? (.str "unpartitioned") = some .unpartitioned
  := by
  rw [storageMode?, input.lowerTrim_unpartitioned, if_pos rfl]

/-- The queue of an unpartitioned row, or of none, has its row and all its tables. -/
theorem createQueue_unpartitioned :
  input.createQueue name (.str "unpartitioned") cell = .ok cell'
    ↔ ValidQueueName name
      ∧ (cell.settings.getD (.create .unpartitioned)).storageMode = .unpartitioned
      ∧ cell' = ensureQueueTables
          { cell with settings := some (cell.settings.getD (.create .unpartitioned)) }
  := by
  rw [createQueue, ← validateQueueName_eq_ok]
  cases validateQueueName name with
  | error e => simp
  | ok =>
      simp only [storageMode?_unpartitioned, true_and]
      split
      · rename_i hmode
        simp [hmode, eq_comm]
      · rename_i hmode
        simp [hmode]

theorem setCellPolicy_eq_ok {opts : PolicyOptions} :
  input.setCellPolicy name opts cell = .ok cell'
    ↔ ValidQueueName name ∧ ∃ settings settings', cell.settings = some settings
      ∧ input.setQueuePolicy opts settings = .ok settings'
      ∧ cell' = { cell with settings := some settings' }
  := by
  rw [setCellPolicy, ← validateQueueName_eq_ok]
  cases validateQueueName name with
  | error e => simp
  | ok =>
      cases cell.settings with
      | none => simp
      | some settings =>
          cases h : input.setQueuePolicy opts settings with
          | error e => simp [h, Except.map]
          | ok settings' => simp [h, Except.map, eq_comm]

/-- What a queue with a row is planned to need. -/
def planOf (name : String) (opts : QueueOptions) (cell : QueueCell) (drifted : Bool) : QueuePlan where
  queueName := name
  createOptions := none
  repair := !(findMissingQueueTables name cell).isEmpty
  policyOptions := if drifted then some (mutableOptions opts) else none

theorem planQueue_existing (hcell : cell.settings = some settings) :
  input.planQueue name opts cell = .ok plan
    ↔ ∃ drifted, input.checkMutableOptionsDrifted settings (mutableOptions opts).rows = .ok drifted
      ∧ plan = planOf name opts cell drifted
  := by
  rw [planQueue, hcell]
  dsimp only
  cases input.checkMutableOptionsDrifted settings (mutableOptions opts).rows with
  | error e => simp
  | ok drifted =>
      cases drifted
      all_goals
        simp only [Except.ok.injEq, planOf, exists_eq_left']
        exact eq_comm

end PolicyInput

/-! ### The client -/

/-- The methods of the client that declare queues, which are those of `absurd_sdk`. To set a policy
is to call `absurd.set_queue_policy` with it. To create a queue is to call `absurd.create_queue`
with a storage mode, `unpartitioned` unless the options give one, and to set the rest of the options
as its policy where there are any. -/
structure QueueClient (input : PolicyInput) where
  createQueue : String → QueueOptions → QueueCell → Except ProvisionError QueueCell
  setQueuePolicy : String → PolicyOptions → QueueCell → Except ProvisionError QueueCell
  createQueue_eq : ∀ name opts cell, (∀ o ∈ opts.rows, o.1 ∈ validQueueOptionKeys) →
    createQueue name opts cell
      = input.createQueue name (storageModeOf opts) cell >>= fun cell =>
          if (mutableOptions opts).rows = [] then .ok cell
          else setQueuePolicy name (mutableOptions opts) cell
  setQueuePolicy_eq : ∀ name opts cell, opts.rows ≠ [] →
    setQueuePolicy name opts cell = input.setCellPolicy name opts cell

namespace QueueClient

/-- `apply_queue_plan`. -/
def applyQueuePlan (client : QueueClient input) (plan : QueuePlan) (cell : QueueCell) :
    Except ProvisionError QueueCell := do
  let cell ← match plan.createOptions with
    | none => pure cell
    | some opts => client.createQueue plan.queueName opts cell
  let cell ← if plan.repair then client.createQueue plan.queueName emptyOptions cell
    else pure cell
  match plan.policyOptions with
  | none => pure cell
  | some opts => client.setQueuePolicy plan.queueName opts cell

/-- `reconcile_queue`, with the plan it applies. -/
def reconcileQueue (client : QueueClient input) (declared : String × QueueOptions)
    (cell : QueueCell) : Except ProvisionError (QueueCell × QueuePlan) :=
  match input.planQueue declared.1 declared.2 cell with
  | .error e => .error e
  | .ok plan => (client.applyQueuePlan plan cell).map (fun cell => (cell, plan))

end QueueClient

/-! ### What reconciling a queue does -/

namespace PolicyInput

section

variable {input : PolicyInput} {client : QueueClient input} {name : String} {opts : QueueOptions}
  {cell cell' : QueueCell} {settings : QueueSettings} {plan : QueuePlan}

/-- A queue without a row is created with the options it is declared with. -/
theorem createQueue_absent (hchecked : CheckedOptions opts) (hcell : cell.settings = none) :
  client.createQueue name opts cell = .ok cell'
    ↔ ValidQueueName name ∧ ∃ settings,
      input.setQueuePolicy (mutableOptions opts) (.create .unpartitioned) = .ok settings
      ∧ cell' = ensureQueueTables { cell with settings := some settings }
  := by
  rw [client.createQueue_eq name opts cell hchecked.known, storageModeOf_checked hchecked,
    Except.bind_eq_ok]
  constructor
  · rintro ⟨created, hcreate, hset⟩
    obtain ⟨hname, -, rfl⟩ := createQueue_unpartitioned.mp hcreate
    use hname
    rw [hcell, Option.getD_none] at hset
    split at hset
    · rename_i hempty
      cases hset
      exact ⟨_, setQueuePolicy_nil hempty, rfl⟩
    · rename_i hsome
      rw [client.setQueuePolicy_eq name _ _ hsome] at hset
      obtain ⟨-, settings, settings', hsettings, hset, rfl⟩ := setCellPolicy_eq_ok.mp hset
      cases hsettings
      exact ⟨settings', hset, rfl⟩
  · rintro ⟨hname, settings, hset, rfl⟩
    refine ⟨_, createQueue_unpartitioned.mpr ⟨hname, by rw [hcell]; rfl, rfl⟩, ?_⟩
    rw [hcell, Option.getD_none]
    split
    · rename_i hempty
      cases (setQueuePolicy_nil hempty).symm.trans hset
      rfl
    · rename_i hsome
      rw [client.setQueuePolicy_eq name _ _ hsome]
      exact setCellPolicy_eq_ok.mpr ⟨hname, _, settings, rfl, hset, rfl⟩

/-- Repairing puts the tables of an unpartitioned queue back. -/
theorem createQueue_empty (hcell : cell.settings = some settings) :
  client.createQueue name emptyOptions cell = .ok cell'
    ↔ ValidQueueName name ∧ settings.storageMode = .unpartitioned
      ∧ cell' = ensureQueueTables cell
  := by
  have hcreate : client.createQueue name emptyOptions cell
      = input.createQueue name (.str "unpartitioned") cell := by
    rw [client.createQueue_eq name emptyOptions cell (fun _ ho => absurd ho List.not_mem_nil)]
    exact bind_pure (input.createQueue name (.str "unpartitioned") cell)
  obtain ⟨settings', tables⟩ := cell
  obtain rfl : settings' = some settings := hcell
  rw [hcreate, createQueue_unpartitioned]
  rfl

/-- The tables of a queue that has them all stay as they are. -/
theorem ensureQueueTables_complete (h : cell.Complete) :
  ensureQueueTables cell = cell
  := by
  obtain ⟨settings, tables⟩ := cell
  rw [ensureQueueTables]
  congr
  funext p
  by_cases hp : p ∈ queueTablePrefixes
  · have htable : tables p = true := h p hp
    simp [hp, htable]
  · simp [hp]

/-- Reconciling a queue without a row creates it. -/
theorem reconcileQueue_absent (hchecked : CheckedOptions opts) (hcell : cell.settings = none) :
  client.reconcileQueue (name, opts) cell = .ok (cell', plan)
    ↔ ValidQueueName name ∧ plan = ⟨name, some opts, false, none⟩ ∧ ∃ settings,
      input.setQueuePolicy (mutableOptions opts) (.create .unpartitioned) = .ok settings
      ∧ cell' = ensureQueueTables { cell with settings := some settings }
  := by
  have happly : client.applyQueuePlan ⟨name, some opts, false, none⟩ cell
      = client.createQueue name opts cell := by
    simp only [QueueClient.applyQueuePlan, Bind.bind, Except.bind, pure, Except.pure,
      Bool.false_eq_true, if_false]
    cases client.createQueue name opts cell <;> rfl
  rw [QueueClient.reconcileQueue, planQueue, hcell]
  simp only [happly]
  constructor
  · intro h
    obtain ⟨cell'', hcreate, heq⟩ := Except.map_eq_ok h
    cases heq
    obtain ⟨hname, hset⟩ := (createQueue_absent hchecked hcell).mp hcreate
    exact ⟨hname, rfl, hset⟩
  · rintro ⟨hname, rfl, hset⟩
    rw [(createQueue_absent hchecked hcell).mpr ⟨hname, hset⟩]
    rfl

/-- The policy after a queue with a row is reconciled. -/
def Repolicied (input : PolicyInput) (name : String) (opts : QueueOptions) (drifted : Bool)
    (settings settings' : QueueSettings) : Prop :=
  if drifted then ValidQueueName name
    ∧ input.setQueuePolicy (mutableOptions opts) settings = .ok settings'
  else settings' = settings

/-- The tables of a queue with a row are put back when one is missing. -/
theorem repair_eq_ok (hcell : cell.settings = some settings) :
  (if !(findMissingQueueTables name cell).isEmpty then
      client.createQueue name emptyOptions cell else .ok cell) = .ok cell'
    ↔ (¬ cell.Complete → ValidQueueName name ∧ settings.storageMode = .unpartitioned)
      ∧ cell' = ensureQueueTables cell
  := by
  by_cases hcomplete : cell.Complete
  · rw [findMissingQueueTables_eq_nil.mpr hcomplete, ensureQueueTables_complete hcomplete]
    simp [hcomplete, eq_comm]
  · have hmissing : (!(findMissingQueueTables name cell).isEmpty) = true := by
      rw [Bool.not_eq_true', List.isEmpty_eq_false_iff]
      exact mt findMissingQueueTables_eq_nil.mp hcomplete
    rw [if_pos hmissing, createQueue_empty hcell]
    simp [hcomplete, and_assoc]

theorem repolicied_eq_ok {drifted : Bool} (hcell : cell.settings = some settings)
    (hdrifted : input.checkMutableOptionsDrifted settings (mutableOptions opts).rows
      = .ok drifted) :
  (match if drifted then some (mutableOptions opts) else none with
    | none => Except.ok cell
    | some opts => client.setQueuePolicy name opts cell) = .ok cell'
    ↔ ∃ settings', Repolicied input name opts drifted settings settings'
      ∧ cell' = { cell with settings := some settings' }
  := by
  cases drifted with
  | false =>
      simp only [Repolicied, Bool.false_eq_true, if_false, exists_eq_left, ← hcell, Except.ok.injEq]
      exact eq_comm
  | true =>
      have hsome : (mutableOptions opts).rows ≠ [] := by
        intro hempty
        rw [hempty] at hdrifted
        cases hdrifted
      simp only [Repolicied, if_true]
      rw [client.setQueuePolicy_eq name _ cell hsome, setCellPolicy_eq_ok]
      simp [hcell, and_assoc]

theorem applyQueuePlan_planOf {drifted : Bool} (hcell : cell.settings = some settings)
    (hdrifted : input.checkMutableOptionsDrifted settings (mutableOptions opts).rows
      = .ok drifted) :
  client.applyQueuePlan (planOf name opts cell drifted) cell = .ok cell'
    ↔ (¬ cell.Complete → ValidQueueName name ∧ settings.storageMode = .unpartitioned)
      ∧ ∃ settings', Repolicied input name opts drifted settings settings'
        ∧ cell' = ensureQueueTables { cell with settings := some settings' }
  := by
  have hbind : client.applyQueuePlan (planOf name opts cell drifted) cell
      = (if !(findMissingQueueTables name cell).isEmpty then
          client.createQueue name emptyOptions cell else .ok cell).bind (fun cell =>
        match if drifted then some (mutableOptions opts) else none with
        | none => Except.ok cell
        | some opts => client.setQueuePolicy name opts cell) := by
    simp only [QueueClient.applyQueuePlan, planOf, Bind.bind, Except.bind, pure, Except.pure]
    split <;> simp only [*, if_true, Bool.false_eq_true, if_false]
  rw [hbind]
  cases hrepair : (if !(findMissingQueueTables name cell).isEmpty then
      client.createQueue name emptyOptions cell else .ok cell) with
  | error e =>
      simp only [Except.bind, reduceCtorEq, false_iff, not_and]
      intro hmode
      rw [(repair_eq_ok hcell).mpr ⟨hmode, rfl⟩] at hrepair
      cases hrepair
  | ok repaired =>
      obtain ⟨hmode, rfl⟩ := (repair_eq_ok hcell).mp hrepair
      have hsettings : (ensureQueueTables cell).settings = some settings := hcell
      rw [and_iff_right hmode]
      exact repolicied_eq_ok hsettings hdrifted

/-- Reconciling a queue with a row puts missing tables back and sets a policy that has
drifted. -/
theorem reconcileQueue_existing (hcell : cell.settings = some settings) :
  client.reconcileQueue (name, opts) cell = .ok (cell', plan)
    ↔ ∃ drifted settings',
      input.checkMutableOptionsDrifted settings (mutableOptions opts).rows = .ok drifted
      ∧ plan = planOf name opts cell drifted
      ∧ (¬ cell.Complete → ValidQueueName name ∧ settings.storageMode = .unpartitioned)
      ∧ Repolicied input name opts drifted settings settings'
      ∧ cell' = ensureQueueTables { cell with settings := some settings' }
  := by
  rw [QueueClient.reconcileQueue]
  constructor
  · intro h
    split at h
    · cases h
    · rename_i plan' hplan
      obtain ⟨drifted, hdrifted, rfl⟩ := (planQueue_existing hcell).mp hplan
      obtain ⟨cell'', happly, heq⟩ := Except.map_eq_ok h
      cases heq
      obtain ⟨hmode, settings', hpolicy, hcell'⟩ := (applyQueuePlan_planOf hcell hdrifted).mp happly
      exact ⟨drifted, settings', hdrifted, rfl, hmode, hpolicy, hcell'⟩
  · rintro ⟨drifted, settings', hdrifted, rfl, hmode, hpolicy, hcell'⟩
    rw [(planQueue_existing hcell).mpr ⟨drifted, hdrifted, rfl⟩]
    dsimp only
    rw [(applyQueuePlan_planOf hcell hdrifted).mpr ⟨hmode, settings', hpolicy, hcell'⟩]
    rfl

/-- A declared queue can be reconciled: one without a row can be created, and one with a row
can be repaired where a table is missing, compared with its row, and set where it drifted. -/
def Provisionable (input : PolicyInput) (name : String) (opts : QueueOptions)
    (cell : QueueCell) : Prop :=
  match cell.settings with
  | none => ValidQueueName name ∧ input.Accepts (mutableOptions opts)
  | some settings =>
      (¬ cell.Complete → ValidQueueName name ∧ settings.storageMode = .unpartitioned)
        ∧ (input.checkMutableOptionsDrifted settings (mutableOptions opts).rows = .ok false
          ∨ input.checkMutableOptionsDrifted settings (mutableOptions opts).rows = .ok true
            ∧ ValidQueueName name ∧ input.Accepts (mutableOptions opts))

theorem reconcileQueue_isOk_iff (hchecked : CheckedOptions opts) :
  (∃ out, client.reconcileQueue (name, opts) cell = .ok out) ↔ Provisionable input name opts cell
  := by
  cases hcell : cell.settings with
  | none =>
      simp only [Provisionable, hcell]
      constructor
      · rintro ⟨⟨cell', plan⟩, h⟩
        obtain ⟨hname, -, settings, hset, -⟩ := (reconcileQueue_absent hchecked hcell).mp h
        exact ⟨hname, setQueuePolicy_isOk_iff.mp ⟨settings, hset⟩⟩
      · rintro ⟨hname, haccepts⟩
        obtain ⟨settings, hset⟩ := setQueuePolicy_isOk_iff.mpr haccepts
        exact ⟨_, (reconcileQueue_absent hchecked hcell).mpr ⟨hname, rfl, settings, hset, rfl⟩⟩
  | some settings =>
      simp only [Provisionable, hcell]
      constructor
      · rintro ⟨⟨cell', plan⟩, h⟩
        obtain ⟨drifted, settings', hdrifted, -, hmode, hpolicy, -⟩ :=
          (reconcileQueue_existing hcell).mp h
        use hmode
        cases drifted with
        | false => exact .inl hdrifted
        | true =>
            have haccepts := setQueuePolicy_isOk_iff.mp ⟨settings', hpolicy.2⟩
            exact .inr ⟨hdrifted, hpolicy.1, haccepts⟩
      · rintro ⟨hmode, hdrifted | ⟨hdrifted, hname, haccepts⟩⟩
        · exact ⟨_, (reconcileQueue_existing hcell).mpr
            ⟨false, settings, hdrifted, rfl, hmode, rfl, rfl⟩⟩
        · obtain ⟨settings', hset⟩ := setQueuePolicy_isOk_iff.mpr haccepts
          exact ⟨_, (reconcileQueue_existing hcell).mpr
            ⟨true, settings', hdrifted, rfl, hmode, ⟨hname, hset⟩, rfl⟩⟩

/-- The declared options are stored as PostgreSQL reads them. -/
def Stores (input : PolicyInput) (opts : QueueOptions) (settings : QueueSettings) : Prop :=
  ∀ o ∈ (mutableOptions opts).rows, input.declaredValue o.1 o.2 = some (settings.policy o.1)

/-- What reconciling leaves of a declared queue: its row and all its tables. The row is as it
was when it had no drift, and has the declared options when it drifted or was not there. -/
def Leaves (input : PolicyInput) (q : String × QueueOptions) (cell cell' : QueueCell) : Prop :=
  ∃ settings', cell' = ensureQueueTables { cell with settings := some settings' }
    ∧ (cell.settings = some settings'
        ∧ input.checkMutableOptionsDrifted settings' (mutableOptions q.2).rows = .ok false
      ∨ Stores input q.2 settings' ∧ ∀ settings, cell.settings = some settings →
        input.checkMutableOptionsDrifted settings (mutableOptions q.2).rows = .ok true)

theorem Leaves.complete {q : String × QueueOptions} (h : Leaves input q cell cell') :
  cell'.settings ≠ none ∧ cell'.Complete
  := by
  obtain ⟨settings', rfl, -⟩ := h
  exact ⟨Option.some_ne_none _, complete_ensureQueueTables _⟩

theorem reconcileQueue_eq_ok (hchecked : CheckedOptions opts)
    (h : client.reconcileQueue (name, opts) cell = .ok (cell', plan)) :
  input.planQueue name opts cell = .ok plan ∧ Leaves input (name, opts) cell cell'
  := by
  cases hcell : cell.settings with
  | none =>
      obtain ⟨-, rfl, settings, hset, rfl⟩ := (reconcileQueue_absent hchecked hcell).mp h
      constructor
      · rw [planQueue, hcell]
      · use settings, rfl
        right
        use (setQueuePolicy_eq_ok hset).2.1
        intro settings' hsettings'
        rw [hcell] at hsettings'
        cases hsettings'
  | some settings =>
      obtain ⟨drifted, settings', hdrifted, rfl, -, hpolicy, rfl⟩ :=
        (reconcileQueue_existing hcell).mp h
      use (planQueue_existing hcell).mpr ⟨drifted, hdrifted, rfl⟩
      use settings', rfl
      cases drifted with
      | false =>
          obtain rfl : settings' = settings := hpolicy
          exact .inl ⟨hcell, hdrifted⟩
      | true =>
          right
          use (setQueuePolicy_eq_ok hpolicy.2).2.1
          intro settings'' hsettings''
          obtain rfl := Option.some.inj (hcell.symm.trans hsettings'')
          exact hdrifted

end

end PolicyInput

end DjangoAbsurd
