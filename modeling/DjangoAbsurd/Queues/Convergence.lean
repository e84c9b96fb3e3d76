import DjangoAbsurd.Queues.Provision

/-!
# Provisioning converges

The plan of a database says what provisioning it does. After it, planning finds nothing to do
and provisioning again does nothing, as long as the drift test can tell what PostgreSQL stored
from the declared options: `converges_iff` says when it can. It compares in Python, where a
number is no interval, a numeric string is no number, and two intervals may be the same
`timedelta`.
-/

namespace DjangoAbsurd

/-- Nothing to do. -/
def SyncResult.quiet : SyncResult := ⟨[], [], []⟩

/-- Provisioning does what is planned and stores the declared options, and then nothing is
planned and nothing is done. -/
def Converges {input : PolicyInput} (client : QueueClient input) (declared : DeclaredQueues)
    (db : QueueDatabase) : Prop :=
  ∃ db₁ db₂ result, client.provisionBackend declared db = .ok (db₁, result)
    ∧ input.planQueueSync declared db = .ok result
    ∧ (∀ q ∈ declared.rows, ∃ settings, (db₁.cell q.1).settings = some settings
      ∧ PolicyInput.Stores input q.2 settings)
    ∧ input.planQueueSync declared db₁ = .ok .quiet
    ∧ client.provisionBackend declared db₁ = .ok (db₂, .quiet)

/-- The schema takes the names and the values of the declared queues and can put back the
tables of those in the catalog, and the other queues of the catalog have their tables. -/
structure AcceptedQueues (input : PolicyInput) (declared : DeclaredQueues) (db : QueueDatabase) :
    Prop where
  names : ∀ q ∈ declared.rows, ValidQueueName q.1
  values : ∀ q ∈ declared.rows, input.Accepts (mutableOptions q.2)
  modes : ∀ q ∈ declared.rows, ∀ settings, (db.cell q.1).settings = some settings →
    ¬ (db.cell q.1).Complete → settings.storageMode = .unpartitioned
  others : ∀ queue, queue ∉ declared.rows.map Prod.fst → (db.cell queue).settings ≠ none →
    (db.cell queue).Complete

namespace PolicyInput

variable {input : PolicyInput} {settings : QueueSettings} {declared : DeclaredQueues}
  {db : QueueDatabase}

/-! ### The drift test -/

theorem checkMutableOptionsDrifted_eq_false :
    ∀ {opts : List (PolicyKey × PyValue)},
      input.checkMutableOptionsDrifted settings opts = .ok false
        ↔ ∀ o ∈ opts, input.drifts o.1 o.2 (settings.policy o.1) = .ok false
  | [] => by simp [checkMutableOptionsDrifted]
  | (k, v) :: opts => by
      rw [checkMutableOptionsDrifted, List.forall_mem_cons]
      cases h : input.drifts k v (settings.policy k) with
      | error e => simp
      | ok drifted =>
          cases drifted with
          | true => simp
          | false => simp [checkMutableOptionsDrifted_eq_false]

theorem checkMutableOptionsDrifted_isOk :
    ∀ {opts : List (PolicyKey × PyValue)},
      (∀ o ∈ opts, ∃ drifted, input.drifts o.1 o.2 (settings.policy o.1) = .ok drifted) →
        ∃ drifted, input.checkMutableOptionsDrifted settings opts = .ok drifted
  | [], _ => ⟨false, rfl⟩
  | (k, v) :: opts, h => by
      obtain ⟨hhead, htail⟩ := List.forall_mem_cons.mp h
      obtain ⟨drifted, hdrifted⟩ := hhead
      have hdrifted' : input.drifts k v (settings.policy k) = .ok drifted := hdrifted
      rw [checkMutableOptionsDrifted, hdrifted']
      cases drifted with
      | true => exact ⟨true, rfl⟩
      | false => exact checkMutableOptionsDrifted_isOk htail

/-- A string compares equal to the interval PostgreSQL reads from it, and nothing else that
PostgreSQL reads an interval from can be compared with one. -/
theorem drifts_cleanupTtl_iff {v : PyValue} {i : Interval}
    (h : input.declaredValue .cleanupTtl v = some i) :
  input.drifts .cleanupTtl v i = .ok false ↔ ∃ s, v = .str s
  := by
  cases v with
  | str s =>
      have hread : input.toInterval s = some i := h
      rw [drifts_cleanupTtl, parseInterval, hread]
      simp [Except.map]
  | none => cases h
  | object description => cases h
  | bool b => simp [parseInterval, Except.map]
  | int n => simp [parseInterval, Except.map]
  | float d => simp [parseInterval, Except.map]
  | list items => simp [parseInterval, Except.map]
  | tuple items => simp [parseInterval, Except.map]
  | dict members => simp [parseInterval, Except.map]

/-- A string that is an interval is compared as its `timedelta`. -/
theorem drifts_cleanupTtl_str {s : String} {i stored : Interval}
    (h : input.declaredValue .cleanupTtl (.str s) = some i) :
  input.drifts .cleanupTtl (.str s) stored = .ok false
    ↔ input.timedelta i = input.timedelta stored
  := by
  have hread : input.toInterval s = some i := h
  rw [drifts_cleanupTtl, parseInterval, hread]
  simp [Except.map]

theorem drifts_cleanupTtl_isOk {s : String} {i : Interval}
    (h : input.declaredValue .cleanupTtl (.str s) = some i) (stored : Interval) :
  ∃ drifted, input.drifts .cleanupTtl (.str s) stored = .ok drifted
  := by
  have hread : input.toInterval s = some i := h
  rw [drifts_cleanupTtl, parseInterval, hread]
  exact ⟨_, rfl⟩

theorem drifts_cleanupLimit_iff {v : PyValue} {n : ℤ} :
  input.drifts .cleanupLimit v n = .ok false ↔ input.equalsInteger v n = true
  := by
  simp

/-- The declared options compare equal, in Python, to what PostgreSQL reads from them: the time
to live is a string, and the limit equals the integer that is read. -/
structure Comparable (input : PolicyInput) (opts : QueueOptions) : Prop where
  cleanupTtl : ∀ v, (PolicyKey.cleanupTtl, v) ∈ (mutableOptions opts).rows → ∃ s, v = .str s
  cleanupLimit : ∀ v (n : ℤ), (PolicyKey.cleanupLimit, v) ∈ (mutableOptions opts).rows →
    input.declaredValue .cleanupLimit v = some n → input.equalsInteger v n = true

section

variable {opts : QueueOptions}

theorem comparable_iff (hchecked : CheckedOptions opts)
    (haccepts : input.Accepts (mutableOptions opts)) :
  Comparable input opts
    ↔ ∀ o ∈ (mutableOptions opts).rows, ∀ x, input.declaredValue o.1 o.2 = some x →
      input.drifts o.1 o.2 x = .ok false
  := by
  constructor
  · rintro hcomparable ⟨k, v⟩ ho x hx
    rcases hchecked.cleanup k v ho with rfl | rfl
    · exact (drifts_cleanupTtl_iff hx).mpr (hcomparable.cleanupTtl v ho)
    · exact drifts_cleanupLimit_iff.mpr (hcomparable.cleanupLimit v x ho hx)
  · intro h
    constructor
    · intro v ho
      obtain ⟨i, hi, -⟩ := haccepts _ ho
      exact (drifts_cleanupTtl_iff hi).mp (h _ ho i hi)
    · intro v n ho hn
      exact drifts_cleanupLimit_iff.mp (h _ ho n hn)

/-- The row compares equal, in Python, to the declared options: it has the limit, and a time to
live that is the same `timedelta`. -/
structure Matches (input : PolicyInput) (opts : QueueOptions) (settings : QueueSettings) :
    Prop where
  cleanupTtl : ∀ v (i : Interval), (PolicyKey.cleanupTtl, v) ∈ (mutableOptions opts).rows →
    input.declaredValue .cleanupTtl v = some i →
      input.timedelta i = input.timedelta (settings.policy .cleanupTtl)
  cleanupLimit : ∀ v, (PolicyKey.cleanupLimit, v) ∈ (mutableOptions opts).rows →
    input.equalsInteger v (settings.policy .cleanupLimit) = true

theorem drifted_eq_false_iff (hchecked : CheckedOptions opts)
    (haccepts : input.Accepts (mutableOptions opts)) (hcomparable : Comparable input opts) :
  input.checkMutableOptionsDrifted settings (mutableOptions opts).rows = .ok false
    ↔ Matches input opts settings
  := by
  rw [checkMutableOptionsDrifted_eq_false]
  constructor
  · intro h
    constructor
    · intro v i ho hi
      obtain ⟨s, rfl⟩ := hcomparable.cleanupTtl v ho
      exact (drifts_cleanupTtl_str hi).mp (h _ ho)
    · intro v ho
      exact drifts_cleanupLimit_iff.mp (h _ ho)
  · rintro hmatches ⟨k, v⟩ ho
    rcases hchecked.cleanup k v ho with rfl | rfl
    · obtain ⟨i, hi, -⟩ := haccepts _ ho
      obtain ⟨s, rfl⟩ := hcomparable.cleanupTtl v ho
      exact (drifts_cleanupTtl_str hi).mpr (hmatches.cleanupTtl _ i ho hi)
    · exact drifts_cleanupLimit_iff.mpr (hmatches.cleanupLimit v ho)

/-- Options that compare equal to what PostgreSQL reads do not drift from it. -/
theorem drifted_eq_false_of_stores (hchecked : CheckedOptions opts)
    (haccepts : input.Accepts (mutableOptions opts)) (hcomparable : Comparable input opts)
    (hstores : Stores input opts settings) :
  input.checkMutableOptionsDrifted settings (mutableOptions opts).rows = .ok false
  := by
  apply checkMutableOptionsDrifted_eq_false.mpr
  intro o ho
  exact (comparable_iff hchecked haccepts).mp hcomparable o ho _ (hstores o ho)

/-- Options that compare equal to what PostgreSQL reads can be compared with any row. -/
theorem drifted_isOk (hchecked : CheckedOptions opts)
    (haccepts : input.Accepts (mutableOptions opts)) (hcomparable : Comparable input opts) :
  ∃ drifted, input.checkMutableOptionsDrifted settings (mutableOptions opts).rows = .ok drifted
  := by
  apply checkMutableOptionsDrifted_isOk
  rintro ⟨k, v⟩ ho
  rcases hchecked.cleanup k v ho with rfl | rfl
  · obtain ⟨i, hi, -⟩ := haccepts _ ho
    obtain ⟨s, rfl⟩ := hcomparable.cleanupTtl v ho
    exact drifts_cleanupTtl_isOk hi _
  · exact ⟨_, drifts_cleanupLimit input v (settings.policy .cleanupLimit)⟩

end

/-! ### Nothing to do -/

theorem summarizeQueuePlans_eq_quiet {plans : List QueuePlan} :
  summarizeQueuePlans plans = .quiet
    ↔ ∀ plan ∈ plans, plan.createOptions = none ∧ plan.policyOptions = none
      ∧ plan.repair = false
  := by
  rw [summarizeQueuePlans, SyncResult.quiet]
  simp only [SyncResult.mk.injEq, List.map_eq_nil_iff, List.filter_eq_nil_iff,
    Bool.not_eq_true, Option.isSome_eq_false_iff, Option.isNone_iff_eq_none]
  constructor
  · rintro ⟨hcreate, hpolicy, hrepair⟩ plan hplan
    exact ⟨hcreate plan hplan, hpolicy plan hplan, hrepair plan hplan⟩
  · intro h
    exact ⟨fun plan hplan => (h plan hplan).1, fun plan hplan => (h plan hplan).2.1,
      fun plan hplan => (h plan hplan).2.2⟩

/-- Nothing is planned for queues that have their rows and tables exactly when none has
drifted. -/
theorem planQueueSync_quiet_iff (hinstalled : db.installed = true)
    (hrows : ∀ q ∈ declared.rows, (db.cell q.1).settings ≠ none ∧ (db.cell q.1).Complete) :
  input.planQueueSync declared db = .ok .quiet
    ↔ ∀ q ∈ declared.rows, ∀ settings, (db.cell q.1).settings = some settings →
      input.checkMutableOptionsDrifted settings (mutableOptions q.2).rows = .ok false
  := by
  rw [planQueueSync, if_pos hinstalled]
  constructor
  · intro h q hq settings hsettings
    obtain ⟨plans, hplans, hquiet⟩ := Except.map_eq_ok h
    obtain ⟨plan, hplan, hplanned⟩ := Except.exists_of_mapM hplans hq
    obtain ⟨-, hpolicy, -⟩ := summarizeQueuePlans_eq_quiet.mp hquiet plan hplan
    obtain ⟨drifted, hdrifted, rfl⟩ := (planQueue_existing hsettings).mp hplanned
    cases drifted with
    | false => exact hdrifted
    | true => cases hpolicy
  · intro h
    have hplans : input.planQueues declared db
        = .ok (declared.rows.map (fun q => planOf q.1 q.2 (db.cell q.1) false)) := by
      apply Except.mapM_of_map_eq
      rw [List.map_map]
      apply List.map_congr_left
      intro q hq
      obtain ⟨settings, hsettings⟩ := Option.ne_none_iff_exists'.mp (hrows q hq).1
      exact (planQueue_existing hsettings).mpr ⟨false, h q hq settings hsettings, rfl⟩
    rw [hplans]
    apply congrArg Except.ok
    apply summarizeQueuePlans_eq_quiet.mpr
    intro plan hplan
    obtain ⟨q, hq, rfl⟩ := List.mem_map.mp hplan
    refine ⟨rfl, rfl, ?_⟩
    rw [planOf, findMissingQueueTables_eq_nil.mpr (hrows q hq).2]
    rfl

end PolicyInput

/-! ### Convergence -/

/-- A row that compares equal to the declared options stores what PostgreSQL reads from them. -/
def Unmasked (input : PolicyInput) (declared : DeclaredQueues) (db : QueueDatabase) : Prop :=
  ∀ q ∈ declared.rows, ∀ settings, (db.cell q.1).settings = some settings →
    PolicyInput.Matches input q.2 settings → PolicyInput.Stores input q.2 settings

section

variable {input : PolicyInput} {client : QueueClient input} {texts : PolicyTexts}
  {declared : DeclaredQueues} {db db₁ : QueueDatabase} {result : SyncResult}

/-- Queues whose options can be compared with any row can be provisioned. -/
theorem provisionable_of_comparable (hchecked : CheckedQueues texts declared)
    (haccepted : AcceptedQueues input declared db)
    (hcomparable : ∀ q ∈ declared.rows, PolicyInput.Comparable input q.2) :
  ∀ q ∈ declared.rows, PolicyInput.Provisionable input q.1 q.2 (db.cell q.1)
  := by
  intro q hq
  have hvalues := haccepted.values q hq
  have hname := haccepted.names q hq
  cases hcell : (db.cell q.1).settings with
  | none =>
      simp only [PolicyInput.Provisionable, hcell]
      exact ⟨hname, hvalues⟩
  | some settings =>
      simp only [PolicyInput.Provisionable, hcell]
      constructor
      · intro hmissing
        exact ⟨hname, haccepted.modes q hq settings hcell hmissing⟩
      · obtain ⟨drifted, hdrifted⟩ : ∃ drifted, input.checkMutableOptionsDrifted settings
            (mutableOptions q.2).rows = .ok drifted :=
          PolicyInput.drifted_isOk (checked_of_validateQueuePolicy (hchecked q hq)) hvalues
            (hcomparable q hq)
        cases drifted with
        | false => exact .inl hdrifted
        | true => exact .inr ⟨hdrifted, hname, hvalues⟩

/-- Provisioning stores the declared options when no row masks them. -/
theorem stores_of_unmasked (hchecked : CheckedQueues texts declared)
    (haccepted : AcceptedQueues input declared db)
    (hcomparable : ∀ q ∈ declared.rows, PolicyInput.Comparable input q.2)
    (hunmasked : Unmasked input declared db)
    (hprovision : client.provisionBackend declared db = .ok (db₁, result)) :
  ∀ q ∈ declared.rows, ∃ settings, (db₁.cell q.1).settings = some settings
    ∧ PolicyInput.Stores input q.2 settings
  := by
  obtain ⟨-, -, -, hleaves, -⟩ := PolicyInput.provisionBackend_eq_ok hchecked hprovision
  intro q hq
  obtain ⟨settings, hcell, ⟨hkept, hdrifted⟩ | ⟨hstored, -⟩⟩ := hleaves q hq
  · have hmatches := (PolicyInput.drifted_eq_false_iff
      (checked_of_validateQueuePolicy (hchecked q hq)) (haccepted.values q hq)
      (hcomparable q hq)).mp hdrifted
    use settings
    rw [hcell]
    exact ⟨rfl, hunmasked q hq settings hkept hmatches⟩
  · use settings
    rw [hcell]
    exact ⟨rfl, hstored⟩

/-- Provisioning twice without drift in between does nothing the second time. -/
theorem provisionBackend_again (hchecked : CheckedQueues texts declared)
    (haccepted : AcceptedQueues input declared db)
    (hprovision : client.provisionBackend declared db = .ok (db₁, result))
    (hquiet : input.planQueueSync declared db₁ = .ok .quiet) :
  ∃ db₂, client.provisionBackend declared db₁ = .ok (db₂, .quiet)
  := by
  obtain ⟨-, hinstalled₁, hframe, hleaves, -⟩ :=
    PolicyInput.provisionBackend_eq_ok hchecked hprovision
  have hcomplete : ∀ q ∈ declared.rows, (db₁.cell q.1).settings ≠ none ∧ (db₁.cell q.1).Complete :=
    fun q hq => (hleaves q hq).complete
  have hdrifted := (PolicyInput.planQueueSync_quiet_iff hinstalled₁ hcomplete).mp hquiet
  obtain ⟨⟨db₂, result₂⟩, hagain⟩ : ∃ out, client.provisionBackend declared db₁ = .ok out := by
    apply (PolicyInput.provisionBackend_isOk_iff hchecked hinstalled₁).mpr
    constructor
    · intro queue hqueue hrow
      rw [hframe queue hqueue] at hrow ⊢
      exact haccepted.others queue hqueue hrow
    · intro q hq
      obtain ⟨settings, hsettings⟩ := Option.ne_none_iff_exists'.mp (hcomplete q hq).1
      simp only [PolicyInput.Provisionable, hsettings]
      exact ⟨fun hmissing => absurd (hcomplete q hq).2 hmissing,
        .inl (hdrifted q hq settings hsettings)⟩
  obtain ⟨-, -, -, -, hplan⟩ := PolicyInput.provisionBackend_eq_ok hchecked hagain
  obtain rfl : result₂ = .quiet := Except.ok.inj (hplan.symm.trans hquiet)
  exact ⟨db₂, hagain⟩

end

/-- Provisioning converges exactly when every declared option compares equal to what
PostgreSQL reads from it, and no row with another value compares equal to the declared one. -/
theorem converges_iff {input : PolicyInput} (client : QueueClient input) {texts : PolicyTexts}
    {declared : DeclaredQueues} {db : QueueDatabase} (hchecked : CheckedQueues texts declared)
    (hinstalled : db.installed = true) (haccepted : AcceptedQueues input declared db) :
  Converges client declared db
    ↔ (∀ q ∈ declared.rows, PolicyInput.Comparable input q.2) ∧ Unmasked input declared db
  := by
  have hoptions : ∀ q ∈ declared.rows, CheckedOptions q.2 := fun q hq =>
    checked_of_validateQueuePolicy (hchecked q hq)
  constructor
  · rintro ⟨db₁, db₂, result, hprovision, -, hstores, hquiet, -⟩
    obtain ⟨-, hinstalled₁, -, hleaves, -⟩ := PolicyInput.provisionBackend_eq_ok hchecked hprovision
    have hdrifted := (PolicyInput.planQueueSync_quiet_iff hinstalled₁
      (fun q hq => (hleaves q hq).complete)).mp hquiet
    have hcomparable : ∀ q ∈ declared.rows, PolicyInput.Comparable input q.2 := by
      intro q hq
      obtain ⟨settings, hsettings, hstored⟩ := hstores q hq
      apply (PolicyInput.comparable_iff (hoptions q hq) (haccepted.values q hq)).mpr
      intro o ho x hx
      obtain rfl := Option.some.inj ((hstored o ho).symm.trans hx)
      exact PolicyInput.checkMutableOptionsDrifted_eq_false.mp
        (hdrifted q hq settings hsettings) o ho
    use hcomparable
    intro q hq settings hsettings hmatches
    have hsame := (PolicyInput.drifted_eq_false_iff (hoptions q hq) (haccepted.values q hq)
      (hcomparable q hq)).mpr hmatches
    obtain ⟨settings₁, hsettings₁, hstored⟩ := hstores q hq
    obtain ⟨settings', hcell, ⟨hkept, -⟩ | ⟨-, hall⟩⟩ := hleaves q hq
    · rw [hcell] at hsettings₁
      obtain rfl := Option.some.inj (hsettings.symm.trans hkept)
      obtain rfl := Option.some.inj hsettings₁
      exact hstored
    · rw [hall settings hsettings] at hsame
      cases hsame
  · rintro ⟨hcomparable, hunmasked⟩
    obtain ⟨⟨db₁, result⟩, hprovision⟩ :=
      (PolicyInput.provisionBackend_isOk_iff hchecked hinstalled).mpr
        ⟨haccepted.others, provisionable_of_comparable hchecked haccepted hcomparable⟩
    obtain ⟨-, hinstalled₁, -, hleaves, hplan⟩ :=
      PolicyInput.provisionBackend_eq_ok hchecked hprovision
    have hstores := stores_of_unmasked hchecked haccepted hcomparable hunmasked hprovision
    have hquiet : input.planQueueSync declared db₁ = .ok .quiet := by
      apply (PolicyInput.planQueueSync_quiet_iff hinstalled₁
        (fun q hq => (hleaves q hq).complete)).mpr
      intro q hq settings hsettings
      obtain ⟨settings', hsettings', hstored⟩ := hstores q hq
      obtain rfl := Option.some.inj (hsettings.symm.trans hsettings')
      exact PolicyInput.drifted_eq_false_of_stores (hoptions q hq) (haccepted.values q hq)
        (hcomparable q hq) hstored
    obtain ⟨db₂, hagain⟩ := provisionBackend_again hchecked haccepted hprovision hquiet
    exact ⟨db₁, db₂, result, hprovision, hplan, hstores, hquiet, hagain⟩

/-- The queue `default`, declared with a time to live of one month. -/
def declaredMonth : DeclaredQueues :=
  ⟨[("default", ⟨[("cleanup_ttl", .str "1 month")], List.nodup_singleton _⟩)],
    List.nodup_singleton _⟩

theorem declaredMonth_checked (texts : PolicyTexts) :
  CheckedQueues texts declaredMonth
  := by
  intro q hq
  obtain rfl := List.mem_singleton.mp hq
  rfl

/-- A catalog without a queue. -/
def freshCatalog : QueueDatabase := ⟨true, .empty _, fun _ _ => false, fun _ => none⟩

/-- A catalog with the queue `default`, which has the time to live it was created with, thirty
days, and all its tables. -/
def defaultCatalog : QueueDatabase :=
  freshCatalog.setCell "default" ⟨some (.create .unpartitioned), fun _ => true⟩

theorem declaredMonth_accepted {db : QueueDatabase}
    (hothers : ∀ queue, queue ≠ "default" → (db.cell queue).settings = none)
    (hcomplete : (db.cell "default").settings ≠ none → (db.cell "default").Complete) :
  AcceptedQueues plainInput declaredMonth db
  := by
  constructor
  · intro q hq
    obtain rfl := List.mem_singleton.mp hq
    constructor <;> decide
  · intro q hq o ho
    obtain rfl := List.mem_singleton.mp hq
    obtain rfl := List.mem_singleton.mp ho
    exact ⟨Interval.mk 1 0 0, rfl, by decide⟩
  · intro q hq settings hsettings hmissing
    obtain rfl := List.mem_singleton.mp hq
    exact absurd (hcomplete (hsettings ▸ Option.some_ne_none _)) hmissing
  · intro queue hqueue hrow
    exact absurd (hothers queue (mt List.mem_singleton.mpr hqueue)) hrow

/-- Provisioning an empty catalog converges. -/
theorem converges_iff_fresh :
  Converges (plainClient plainInput) declaredMonth freshCatalog
  := by
  apply (converges_iff (plainClient plainInput)
    (declaredMonth_checked ⟨fun _ => "", fun _ => "", fun _ => ""⟩) rfl
    (declaredMonth_accepted (fun _ _ => rfl) (fun h => absurd rfl h))).mpr
  constructor
  · intro q hq
    obtain rfl := List.mem_singleton.mp hq
    constructor
    · intro v ho
      obtain ⟨-, rfl⟩ := Prod.mk.inj (List.mem_singleton.mp ho)
      exact ⟨"1 month", rfl⟩
    · intro v n ho
      cases List.mem_singleton.mp ho
  · intro q _ settings hsettings
    cases hsettings

/-- One month and thirty days are the same `timedelta`: the row of the queue is never set to
what is declared. -/
theorem same_timedelta_never_stored :
  ¬ ∀ (input : PolicyInput) (client : QueueClient input) (texts : PolicyTexts)
      (declared : DeclaredQueues) (db : QueueDatabase), CheckedQueues texts declared →
      db.installed = true → AcceptedQueues input declared db → Converges client declared db
  := by
  intro h
  have hcell : defaultCatalog.cell "default" = ⟨some (.create .unpartitioned), fun _ => true⟩ :=
    QueueDatabase.cell_setCell_self _ _ _
  have hchecked := declaredMonth_checked ⟨fun _ => "", fun _ => "", fun _ => ""⟩
  have haccepted : AcceptedQueues plainInput declaredMonth defaultCatalog := by
    apply declaredMonth_accepted
    · intro queue hqueue
      have hframe : defaultCatalog.cell queue = freshCatalog.cell queue :=
        QueueDatabase.cell_setCell_of_ne _ _ _ _ hqueue
      rw [hframe]
      rfl
    · intro _ p _
      rw [hcell]
  obtain ⟨db₁, db₂, result, hprovision, -, hstores, -⟩ :=
    h plainInput (plainClient plainInput) _ declaredMonth defaultCatalog hchecked rfl haccepted
  obtain ⟨-, -, -, hleaves, -⟩ := PolicyInput.provisionBackend_eq_ok hchecked hprovision
  obtain ⟨settings, hcell₁, hrow⟩ := hleaves _ (List.mem_singleton_self _)
  obtain ⟨settings₁, hsettings₁, hstored⟩ := hstores _ (List.mem_singleton_self _)
  rw [hcell₁] at hsettings₁
  obtain rfl := Option.some.inj hsettings₁
  rw [hcell] at hrow
  rcases hrow with ⟨hkept, -⟩ | ⟨-, hall⟩
  · obtain rfl := Option.some.inj hkept
    have hmonth : (some (Interval.mk 1 0 0)) = some (Interval.mk 0 30 0) :=
      hstored _ (List.mem_singleton_self _)
    revert hmonth
    decide
  · have hdrifted := hall _ rfl
    cases hdrifted

end DjangoAbsurd
