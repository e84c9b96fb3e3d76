import DjangoAbsurd.Queues.Plan
import DjangoAbsurd.Library.Loops
import Mathlib.Data.String.Basic

/-!
# Clearing the queues after a test

`clearProvisionedQueues` goes through the queues of the catalog in the order of their names
and drops each, or truncates its tables, and raises the first error. `clearQueues` is the
form post-test cleanup uses: it suppresses the errors of a database without the schema, or
with a part of it.

A statement runs on its own, so the queues cleared before an error stay cleared. A table is
the relation of its name, with the rows a query of it returns; no table of the schema refers
to another by a foreign key.
-/

namespace DjangoAbsurd

/-- Why clearing fails. -/
inductive FlushError where
  | operationalError
  | programmingError
  | improperlyConfigured
  | schemaNotInstalled
  | otherDatabaseError
  deriving DecidableEq, Repr

/-- The errors `clear_queues` suppresses. -/
def FlushError.suppressed : FlushError → Bool
  | .operationalError | .programmingError | .improperlyConfigured | .schemaNotInstalled => true
  | .otherDatabaseError => false

/-- The schema: the queues of its catalog, and the rows of its tables by name. -/
structure QueueSchema (ρ : Type) where
  queues : List String
  tables : String → Option (List ρ)

/-- Which relations there are decides what `to_regclass` says of a text. -/
abbrev Regclass := (String → Bool) → String → Except FlushError Bool

namespace QueueSchema

variable {ρ : Type}

/-- The relation exists. -/
def hasTable (s : QueueSchema ρ) (name : String) : Bool := (s.tables name).isSome

/-- The named tables without rows. -/
def emptied (names : List String) (s : QueueSchema ρ) : QueueSchema ρ where
  queues := s.queues
  tables name := if name ∈ names then (s.tables name).map (fun _ => []) else s.tables name

/-- `TRUNCATE … CASCADE`. -/
def truncate (names : List String) (s : QueueSchema ρ) : Except FlushError (QueueSchema ρ) :=
  if names.all s.hasTable = true then .ok (s.emptied names) else .error .programmingError

/-- `absurd.drop_queue`. -/
def dropQueue (queue : String) (s : QueueSchema ρ) : QueueSchema ρ :=
  if queue ∈ s.queues then
    { queues := s.queues.filter (· ≠ queue)
      tables := fun name =>
        if name ∈ allTablePrefixes.map (queueTable · queue) then none else s.tables name }
  else s

end QueueSchema

section

variable {ρ : Type} (regclass : Regclass)

/-- The tables `truncate_queue_tables` names, by whether the queue is partitioned. -/
def truncatedTables (queue : String) (partitioned : Bool) : List String :=
  let tables := queueTablePrefixes.map (queueTable · queue)
  if partitioned then tables ++ [queueTable "i" queue] else tables

/-- `truncate_queue_tables`. -/
def truncateQueueTables (queue : String) (s : QueueSchema ρ) :
    Except FlushError (QueueSchema ρ) := do
  let partitioned ← regclass s.hasTable ("absurd." ++ queueTable "i" queue)
  s.truncate (truncatedTables queue partitioned)

/-- What the loop of `clear_provisioned_queues` does to a queue. -/
def clearQueue (dropSchema : Bool) (queue : String) (s : QueueSchema ρ) :
    Except FlushError (QueueSchema ρ) :=
  if dropSchema then .ok (s.dropQueue queue) else truncateQueueTables regclass queue s

/-- `list_provisioned_queues`, of a schema. -/
def listProvisionedQueues (s : QueueSchema ρ) : List String := s.queues.mergeSort (· ≤ ·)

/-- `clear_provisioned_queues`; there may be no schema. -/
def clearProvisionedQueues (dropSchema : Bool) :
    Option (QueueSchema ρ) → Option (QueueSchema ρ) × Except FlushError (List String)
  | none => (none, .error .schemaNotInstalled)
  | some s =>
      let names := listProvisionedQueues s
      let cleared := runUntilError (clearQueue regclass dropSchema) names s
      (some cleared.1, cleared.2.map (fun _ => names))

/-- `clear_queues`. -/
def clearQueues (dropSchema : Bool) (db : Option (QueueSchema ρ)) :
    Option (QueueSchema ρ) × Except FlushError Unit :=
  match clearProvisionedQueues regclass dropSchema db with
  | (db', .ok _) => (db', .ok ())
  | (db', .error e) => (db', if e.suppressed = true then .ok () else .error e)

end

/-! ### The names of the tables -/

theorem mem_truncatedTables {queue name : String} {partitioned : Bool} :
  name ∈ truncatedTables queue partitioned
    ↔ ∃ p ∈ allTablePrefixes, queueTable p queue = name ∧ (p = "i" → partitioned = true)
  := by
  cases partitioned <;> simp [truncatedTables, allTablePrefixes, queueTablePrefixes, eq_comm]

/-- Truncating the tables of a queue names no table of another, and that of a partitioned
queue when it was found. -/
theorem queueTable_mem_truncatedTables {p queue queue' : String} {partitioned : Bool}
    (hp : p ∈ allTablePrefixes) :
  queueTable p queue ∈ truncatedTables queue' partitioned
    ↔ queue' = queue ∧ (p = "i" → partitioned = true)
  := by
  rw [mem_truncatedTables]
  constructor
  · rintro ⟨p', hp', heq, hi⟩
    obtain ⟨rfl, rfl⟩ := queueTable_inj hp' hp heq
    exact ⟨rfl, hi⟩
  · rintro ⟨rfl, hi⟩
    exact ⟨p, hp, rfl, hi⟩

/-! ### What the statements leave -/

namespace QueueSchema

variable {ρ : Type}

/-- The tables every queue has, in the schema. -/
def Complete (s : QueueSchema ρ) (queue : String) : Prop :=
  ∀ p ∈ queueTablePrefixes, s.hasTable (queueTable p queue) = true

instance (s : QueueSchema ρ) (queue : String) : Decidable (s.Complete queue) :=
  inferInstanceAs (Decidable (∀ p ∈ queueTablePrefixes, s.hasTable (queueTable p queue) = true))

/-- No table of the queue has a row. -/
def HoldsNoRows (s : QueueSchema ρ) (queue : String) : Prop :=
  ∀ p ∈ allTablePrefixes, ∀ rows, s.tables (queueTable p queue) = some rows → rows = []

theorem hasTable_emptied (s : QueueSchema ρ) (names : List String) :
  (s.emptied names).hasTable = s.hasTable
  := by
  funext name
  rw [hasTable, emptied]
  simp only
  split
  · rw [Option.isSome_map, hasTable]
  · rfl

/-- What truncating the tables of several queues one after the other leaves of a table. -/
theorem tables_foldl_emptied (names : String → List String) (queues : List String)
    (s : QueueSchema ρ) (name : String) :
  (queues.foldl (fun s queue => s.emptied (names queue)) s).tables name
    = if ∃ queue ∈ queues, name ∈ names queue then (s.tables name).map (fun _ => [])
      else s.tables name
  := by
  induction queues generalizing s with
  | nil => simp
  | cons queue queues ih =>
      rw [List.foldl_cons, ih]
      simp only [emptied, List.exists_mem_cons_iff]
      by_cases hqueue : name ∈ names queue <;> simp [hqueue, Function.comp_def]

end QueueSchema

section

variable {ρ : Type} (regclass : Regclass) (s : QueueSchema ρ)

/-- What `to_regclass` says of the table of a partitioned queue. -/
def probe (queue : String) : Except FlushError Bool :=
  regclass s.hasTable ("absurd." ++ queueTable "i" queue)

/-- Why the tables of a queue cannot be truncated: the probe fails, or one of them is
missing. -/
def blockage (queue : String) : Option FlushError :=
  match probe regclass s queue with
  | .error e => some e
  | .ok partitioned =>
      if (truncatedTables queue partitioned).all s.hasTable = true then none
      else some .programmingError

/-- The tables truncated with a queue. -/
def reachedTables (queue : String) : List String :=
  truncatedTables queue ((probe regclass s queue).toOption.getD false)

/-- The queues truncated before the first that cannot be. -/
def reachedQueues : List String :=
  (listProvisionedQueues s).takeWhile (fun queue => (blockage regclass s queue).isNone)

theorem truncateQueueTables_of_hasTable {s' : QueueSchema ρ} (h : s'.hasTable = s.hasTable)
    (queue : String) :
  truncateQueueTables regclass queue s'
    = (blockage regclass s queue).elim (.ok (s'.emptied (reachedTables regclass s queue))) .error
  := by
  rw [truncateQueueTables, blockage, reachedTables, probe, h]
  cases regclass s.hasTable ("absurd." ++ queueTable "i" queue) with
  | error e => rfl
  | ok partitioned =>
      simp only [Bind.bind, Except.bind, QueueSchema.truncate, h, Except.toOption, Option.getD_some]
      split <;> rfl

/-- Truncating goes through the queues before the first that cannot be truncated. -/
theorem clearQueues_truncate :
  clearQueues regclass false (some s)
    = (some ((reachedQueues regclass s).foldl
        (fun s' queue => s'.emptied (reachedTables regclass s queue)) s),
      ((listProvisionedQueues s).findSome? (blockage regclass s)).elim (.ok ())
        (fun e => if e.suppressed = true then .ok () else .error e))
  := by
  have hrun := runUntilError_eq (clearQueue regclass false)
    (fun s' queue => s'.emptied (reachedTables regclass s queue))
    (blockage regclass s) (fun s' => s'.hasTable = s.hasTable)
    (by
      intro s' queue hs' hblockage
      simp [clearQueue, truncateQueueTables_of_hasTable regclass s hs', hblockage])
    (by
      intro s' queue e hs' hblockage
      simp [clearQueue, truncateQueueTables_of_hasTable regclass s hs', hblockage])
    (by
      intro s' queue hs' _
      rw [QueueSchema.hasTable_emptied, hs'])
    (listProvisionedQueues s) rfl
  rw [clearQueues, clearProvisionedQueues]
  simp only [hrun, reachedQueues]
  cases (listProvisionedQueues s).findSome? (blockage regclass s) <;> rfl

/-! ### Which queues are cleared -/

theorem mem_reachedQueues {queue : String} :
  queue ∈ reachedQueues regclass s
    ↔ queue ∈ s.queues ∧ ∀ p ∈ s.queues, p ≤ queue → blockage regclass s p = none
  := by
  have hsorted : (listProvisionedQueues s).Pairwise (· ≤ ·) := List.pairwise_mergeSort' (· ≤ ·) _
  rw [reachedQueues, List.mem_takeWhile_of_sorted hsorted]
  simp [listProvisionedQueues]

/-- `clear_queues` lets an error out: that of the first queue whose tables cannot be truncated
is none it suppresses. -/
def Escapes : Prop :=
  ∃ queue ∈ s.queues, (∃ e, blockage regclass s queue = some e ∧ e.suppressed = false)
    ∧ ∀ p ∈ s.queues, p < queue → blockage regclass s p = none

theorem escapes_iff :
  Escapes regclass s ↔ (clearQueues regclass false (some s)).2 ≠ .ok ()
  := by
  have hsorted : (listProvisionedQueues s).Pairwise (· ≤ ·) := List.pairwise_mergeSort' (· ≤ ·) _
  have hfirst : ∀ e, (listProvisionedQueues s).findSome? (blockage regclass s) = some e
      ↔ ∃ queue ∈ s.queues, blockage regclass s queue = some e
        ∧ ∀ p ∈ s.queues, p < queue → blockage regclass s p = none := by
    intro e
    rw [List.findSome?_of_sorted hsorted]
    simp [listProvisionedQueues]
  rw [clearQueues_truncate]
  constructor
  · rintro ⟨queue, hqueue, ⟨e, he, hescapes⟩, hbelow⟩
    rw [(hfirst e).mpr ⟨queue, hqueue, he, hbelow⟩]
    simp [hescapes]
  · intro h
    cases hfound : (listProvisionedQueues s).findSome? (blockage regclass s) with
    | none => simp [hfound] at h
    | some e =>
        obtain ⟨queue, hqueue, he, hbelow⟩ := (hfirst e).mp hfound
        simp only [hfound, Option.elim_some] at h
        refine ⟨queue, hqueue, ⟨e, he, ?_⟩, hbelow⟩
        by_contra hsuppressed
        rw [Bool.not_eq_false] at hsuppressed
        rw [if_pos hsuppressed] at h
        exact h rfl

/-- No queue up to this one stops the loop, and the table of a partitioned queue is found
when it holds rows. -/
def Reached (queue : String) : Prop :=
  (∀ p ∈ s.queues, p ≤ queue → blockage regclass s p = none)
    ∧ ∀ rows, s.tables (queueTable "i" queue) = some rows → rows ≠ [] →
      (probe regclass s queue).toOption.getD false = true

/-- What the loop leaves of a table of a queue. -/
theorem tables_reached {p : String} (hp : p ∈ allTablePrefixes) (queue : String) :
  ((reachedQueues regclass s).foldl
      (fun s' queue => s'.emptied (reachedTables regclass s queue)) s).tables (queueTable p queue)
    = if queue ∈ reachedQueues regclass s
        ∧ (p = "i" → (probe regclass s queue).toOption.getD false = true) then
        (s.tables (queueTable p queue)).map (fun _ => [])
      else s.tables (queueTable p queue)
  := by
  rw [QueueSchema.tables_foldl_emptied]
  apply if_congr _ rfl rfl
  simp only [reachedTables, queueTable_mem_truncatedTables hp]
  constructor
  · rintro ⟨queue', hreached, rfl, hi⟩
    exact ⟨hreached, hi⟩
  · rintro ⟨hreached, hi⟩
    exact ⟨queue, hreached, rfl, hi⟩

/-- The loop leaves a queue of the catalog without rows when it had none or was reached. -/
theorem holdsNoRows_reached_iff {queue : String} (hqueue : queue ∈ s.queues) :
  ((reachedQueues regclass s).foldl
      (fun s' queue => s'.emptied (reachedTables regclass s queue)) s).HoldsNoRows queue
    ↔ s.HoldsNoRows queue ∨ Reached regclass s queue
  := by
  have hi : "i" ∈ allTablePrefixes := List.mem_append_right _ List.mem_cons_self
  constructor
  · intro h
    by_cases hreached : queue ∈ reachedQueues regclass s
    · right
      refine ⟨((mem_reachedQueues regclass s).mp hreached).2, ?_⟩
      intro rows hrows hne
      by_contra hprobe
      have hleft := tables_reached regclass s hi queue
      rw [if_neg (by simpa [hreached] using hprobe), hrows] at hleft
      exact hne (h "i" hi rows hleft)
    · left
      intro p hp rows hrows
      have hleft := tables_reached regclass s hp queue
      rw [if_neg (by simp [hreached]), hrows] at hleft
      exact h p hp rows hleft
  · intro h p hp rows hrows
    rw [tables_reached regclass s hp queue] at hrows
    split at hrows
    · obtain ⟨_, -, rfl⟩ := Option.map_eq_some_iff.mp hrows
      rfl
    · rename_i hkept
      rcases h with h | ⟨hbelow, hfound⟩
      · exact h p hp rows hrows
      · have hreached := (mem_reachedQueues regclass s).mpr ⟨hqueue, hbelow⟩
        rw [not_and, Classical.not_imp] at hkept
        obtain ⟨rfl, hprobe⟩ := hkept hreached
        by_contra hne
        exact hprobe (hfound rows hrows hne)

/-- After `clear_queues` returns, every queue with all its tables holds no rows. -/
def ClearsComplete : Prop :=
  ∀ s', clearQueues regclass false (some s) = (some s', .ok ()) →
    ∀ queue ∈ s.queues, s.Complete queue → s'.HoldsNoRows queue

/-- Post-test cleanup clears the queues with all their tables exactly when each holds no rows
already or no queue up to it stops the loop, unless the error is let out. -/
theorem clearsComplete_iff :
  ClearsComplete regclass s
    ↔ Escapes regclass s
      ∨ ∀ queue ∈ s.queues, s.Complete queue →
        s.HoldsNoRows queue ∨ Reached regclass s queue
  := by
  have hrun := clearQueues_truncate regclass s
  rw [escapes_iff]
  constructor
  · intro h
    by_cases hok : (clearQueues regclass false (some s)).2 = .ok ()
    · right
      intro queue hqueue hcomplete
      rw [← holdsNoRows_reached_iff regclass s hqueue]
      apply h _ _ queue hqueue hcomplete
      rw [hrun] at hok ⊢
      exact Prod.ext rfl hok
    · exact .inl hok
  · rintro (hescapes | hall) s' hreturns queue hqueue hcomplete
    · rw [hreturns] at hescapes
      exact absurd rfl hescapes
    · have hstate := congrArg Prod.fst (hrun.symm.trans hreturns)
      rw [← Option.some.inj hstate, holdsNoRows_reached_iff regclass s hqueue]
      exact hall queue hqueue hcomplete

end

/-- `to_regclass` on texts that need no folding: the relation named after `absurd.`. -/
def plainRegclass : Regclass := fun hasTable name => .ok (hasTable (String.ofList (name.toList.drop 7)))

/-- Two queues; `a` has lost its table of tasks, `b` holds a task. -/
def brokenFirst : QueueSchema Unit where
  queues := ["a", "b"]
  tables name :=
    if name = "t_b" then some [()]
    else if name ∈ ["r_a", "c_a", "e_a", "w_a", "r_b", "c_b", "e_b", "w_b"] then some []
    else none

/-- The queue after the broken one keeps its rows. -/
theorem brokenFirst_keeps :
  ¬ ClearsComplete plainRegclass brokenFirst
  := by
  intro h
  have hblockage : blockage plainRegclass brokenFirst "a" = some .programmingError := rfl
  have hnames : listProvisionedQueues brokenFirst = ["a", "b"] := by
    rw [listProvisionedQueues]
    apply List.mergeSort_of_pairwise
    decide
  have hrun := clearQueues_truncate plainRegclass brokenFirst
  rw [reachedQueues, hnames] at hrun
  simp only [List.takeWhile_cons, List.findSome?_cons, hblockage] at hrun
  have hcomplete : brokenFirst.Complete "b" := by decide
  have hrows := h brokenFirst hrun "b" (by decide) hcomplete "t" (by decide) [()] rfl
  cases hrows

end DjangoAbsurd
