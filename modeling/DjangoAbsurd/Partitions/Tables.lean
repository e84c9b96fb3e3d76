import DjangoAbsurd.Partitions.Identifiers
import DjangoAbsurd.Partitions.Weeks
import DjangoAbsurd.Queues.Plan

/-!
# Partition tables

The tables of tasks, runs, checkpoints and waits of a partitioned queue have a partition for each
week of a window around now, made by `absurd.ensure_partitions`. A partition is only made when no
relation has its name, so what keeps two of them from meeting is that partitions of one table have
one name only when they are of one week (`Child.OfWeek.eq_of_meets`).
-/

namespace DjangoAbsurd.Partitions

open Keyed (Table Edit)

/-! ### The schema -/

/-- The tables of a queue that are partitioned. -/
inductive Family where
  | tasks
  | runs
  | checkpoints
  | waits
  deriving DecidableEq, Repr

def Family.letter : Family → String
  | tasks => "t"
  | runs => "r"
  | checkpoints => "c"
  | waits => "w"

/-- The tables in the order in which they are named. -/
def families : List Family := [.tasks, .runs, .checkpoints, .waits]

theorem mem_families (f : Family) : f ∈ families
  := by
  cases f <;> decide

def parentTable (f : Family) (queueName : String) : String := queueTable f.letter queueName

def defaultTable (f : Family) (queueName : String) : String := parentTable f queueName ++ "_d"

def weekTable (f : Family) (queueName : String) (weekStart : ℤ) : String :=
  parentTable f queueName ++ "_" ++ partitionWeekTag weekStart

/-- The keys of a partition: those of a range, or those no other partition takes. -/
inductive Bound where
  | default
  | range (lower upper : Uuid)

/-- The key is in the range. -/
def Bound.Holds : Bound → Uuid → Prop
  | default, _ => False
  | range lower upper, id => lower ≤ id ∧ id < upper

instance : ∀ (b : Bound) (id : Uuid), Decidable (b.Holds id)
  | .default, _ => inferInstanceAs (Decidable False)
  | .range lower upper, id => inferInstanceAs (Decidable (lower ≤ id ∧ id < upper))

/-- The range overlaps another. -/
def Bound.Meets : Bound → Uuid → Uuid → Prop
  | default, _, _ => False
  | range lower upper, lower', upper' => lower < upper' ∧ lower' < upper

instance : ∀ (b : Bound) (lower upper : Uuid), Decidable (b.Meets lower upper)
  | .default, _, _ => inferInstanceAs (Decidable False)
  | .range lower upper, lower', upper' =>
      inferInstanceAs (Decidable (lower < upper' ∧ lower' < upper))

def Bound.isDefault : Bound → Bool
  | default => true
  | range _ _ => false

theorem Bound.isDefault_of_holds {b : Bound} {id : Uuid} (h : b.Holds id) :
  b.isDefault = false
  := by
  cases b with
  | default => cases h
  | range lower upper => rfl

theorem Bound.isDefault_of_meets {b : Bound} {lower upper : Uuid} (h : b.Meets lower upper) :
  b.isDefault = false
  := by
  cases b with
  | default => cases h
  | range lower' upper' => rfl

/-- A partition that is attached to its table, with the keys of its rows. -/
structure Child where
  relname : String
  inhparent : String
  bound : Bound
  rows : List Uuid

/-- The relations of the schema: partitioned tables, partitions, tables that were partitions, with
the keys of their rows, and all others. -/
structure Schema where
  parents : List String
  attached : Table Child.relname
  detached : Table (Prod.fst : String × List Uuid → String)
  others : List String

namespace Schema

/-- A relation has the name. -/
def Has (s : Schema) (name : String) : Prop :=
  name ∈ s.parents ∨ name ∈ s.attached.rows.map Child.relname
    ∨ name ∈ s.detached.rows.map Prod.fst ∨ name ∈ s.others

instance (s : Schema) (name : String) : Decidable (s.Has name) :=
  inferInstanceAs (Decidable (_ ∨ _ ∨ _ ∨ _))

/-- An empty partition is attached. -/
def attach (s : Schema) (name parent : String) (bound : Bound) : Schema :=
  { s with attached := s.attached.put ⟨name, parent, bound, []⟩ }

end Schema

/-- Why a statement is refused. -/
inductive Refusal where
  | queueName (e : ProvisionError)
  | unknownQueue (queueName : String)
  | outOfRange (ts : ℤ)
  | notPartitioned (parent : String)
  | emptyRange (name : String)
  | overlap (name : String)
  | secondDefault (name : String)
  | defaultHoldsRows (name : String)
  | defaultNotEmpty (name : String)
  | modeMismatch (queueName : String)

namespace Schema

/-- `create table if not exists .. partition of ..`. -/
def createPartition (s : Schema) (name parent : String) (bound : Bound) :
    Except Refusal Schema :=
  if s.Has name then .ok s
  else if parent ∉ s.parents then .error (.notPartitioned parent)
  else
    match bound with
    | .default =>
        if s.attached.rows.any (fun c => c.inhparent = parent && c.bound.isDefault) then
          .error (.secondDefault name)
        else .ok (s.attach name parent .default)
    | .range lower upper =>
        if ¬ lower < upper then .error (.emptyRange name)
        else if s.attached.rows.any
            (fun c => c.inhparent = parent && c.bound.Meets lower upper) then
          .error (.overlap name)
        else if s.attached.rows.any (fun c => c.inhparent = parent && c.bound.isDefault
            && c.rows.any (fun id => lower ≤ id && id < upper)) then
          .error (.defaultHoldsRows name)
        else .ok (s.attach name parent (.range lower upper))

/-- The partition the rows of a key are in. -/
def route (s : Schema) (parent : String) (id : Uuid) : Option Child :=
  (s.attached.rows.find? (fun c => c.inhparent = parent && c.bound.Holds id)).or
    (s.attached.rows.find? (fun c => c.inhparent = parent && c.bound.isDefault))

end Schema

/-! ### Provisioning -/

/-- A row of `absurd.queues`, as far as it is about partitions; intervals are in microseconds. -/
structure QueueRow where
  queueName : String
  partitioned : Bool
  defaultPartition : Bool
  partitionLookahead : ℤ
  partitionLookback : ℤ
  detachEmpty : Bool
  detachMinAge : ℤ
  lookahead_nonneg : 0 ≤ partitionLookahead
  lookback_nonneg : 0 ≤ partitionLookback
  minAge_nonneg : 0 ≤ detachMinAge

/-- The floor of a moment, or the exception it raises. -/
def floorOrRefuse (ts : ℤ) : Except Refusal Uuid :=
  match uuidv7Floor ts with
  | some id => .ok id
  | none => .error (.outOfRange ts)

/-- The default partitions of a queue. -/
def ensureDefaults (q : QueueRow) (s : Schema) : Except Refusal Schema :=
  if q.defaultPartition then
    families.foldlM (fun s f =>
      s.createPartition (defaultTable f q.queueName) (parentTable f q.queueName) .default) s
  else .ok s

/-- The partitions of a week of a queue. -/
def ensureWeek (q : QueueRow) (weekStart : ℤ) (s : Schema) : Except Refusal Schema := do
  let lower ← floorOrRefuse weekStart
  let upper ← floorOrRefuse (weekStart + week)
  families.foldlM (fun s f =>
    s.createPartition (weekTable f q.queueName weekStart) (parentTable f q.queueName)
      (.range lower upper)) s

/-- The loop over the weeks, with so many rounds at most. -/
def ensureWeeks (q : QueueRow) (windowEnd : ℤ) : ℕ → ℤ → Schema → Except Refusal Schema
  | 0, _, s => .ok s
  | rounds + 1, weekStart, s =>
      if weekStart ≤ windowEnd then do
        let s ← ensureWeek q weekStart s
        ensureWeeks q windowEnd rounds (weekStart + week) s
      else .ok s

def QueueRow.windowStart (q : QueueRow) (now : ℤ) : ℤ :=
  weekBucketUtc (now - q.partitionLookback)

def QueueRow.windowEnd (q : QueueRow) (now : ℤ) : ℤ :=
  weekBucketUtc (now + q.partitionLookahead)

/-- The weeks of the window. -/
def QueueRow.rounds (q : QueueRow) (now : ℤ) : ℕ :=
  ((q.windowEnd now - q.windowStart now) / week + 1).toNat

/-- What `absurd.ensure_partitions` does for a queue. -/
def ensureQueue (now : ℤ) (s : Schema) (q : QueueRow) : Except Refusal Schema := do
  let s ← ensureDefaults q s
  ensureWeeks q (q.windowEnd now) (q.rounds now) (q.windowStart now) s

/-- The queues a maintenance function is about. -/
def selected (queues : List QueueRow) (queueName : Option String) : List QueueRow :=
  queues.filter (fun q => q.partitioned && queueName.all (q.queueName = ·))

/-- The checks of a maintenance function that is given the name of a queue. -/
def checkQueue (queues : List QueueRow) : Option String → Except Refusal Unit
  | none => .ok ()
  | some queueName =>
      match validateQueueName queueName with
      | .error e => .error (.queueName e)
      | .ok () =>
          if queues.any (·.queueName = queueName) then .ok () else .error (.unknownQueue queueName)

/-- `absurd.ensure_partitions`; the queues are in the order of their names. -/
def ensurePartitions (now : ℤ) (queues : List QueueRow) (queueName : Option String)
    (s : Schema) : Except Refusal Schema := do
  checkQueue queues queueName
  (selected queues queueName).foldlM (ensureQueue now) s

end DjangoAbsurd.Partitions
