import DjangoAbsurd.Library.Machine
import DjangoAbsurd.Partitions.Provisioning
import Mathlib.Data.List.Sort

/-!
# Detaching

`absurd.schedule_detach_jobs` plans for the oldest empty partition of each table, once it has ended
long enough ago, a job that detaches it and a job that drops it. Both run later, when the partition
need not be empty any more: `Machine` below lets anything happen in between.
-/

namespace DjangoAbsurd.Partitions

open Keyed (Table Edit)

/-! ### Candidates -/

/-- A row of `absurd.list_detach_candidates`, with the end of the partition. -/
structure Candidate where
  queueName : String
  parent : String
  partition : String
  upperTs : ℤ

/-- The end of a partition, as its bound gives it. -/
def Bound.upperTs : Bound → Option ℤ
  | default => none
  | range _ upper => uuidv7Timestamp upper

/-- The partition is a candidate. -/
def candidate? (now : ℤ) (q : QueueRow) (parent : String) (c : Child) : Option Candidate :=
  match c.bound.upperTs with
  | none => none
  | some upperTs =>
      if now - q.detachMinAge ≤ upperTs then none
      else if c.rows ≠ [] then none
      else some ⟨q.queueName, parent, c.relname, upperTs⟩

/-- `absurd.list_detach_candidates`. -/
def listDetachCandidates (now : ℤ) (queues : List QueueRow) (queueName : Option String)
    (s : Schema) : Except Refusal (List Candidate) := do
  checkQueue queues queueName
  .ok (((selected queues queueName).filter (·.detachEmpty)).flatMap (fun q =>
    families.flatMap (fun f =>
      (s.attached.rows.filter (fun c => c.inhparent = parentTable f q.queueName)).filterMap
        (candidate? now q (parentTable f q.queueName)))))

/-! ### Jobs -/

/-- `md5`, whose texts are of hexadecimal digits. -/
structure Md5 where
  hash : String → String
  hex : ∀ s, (hash s).toList.all "0123456789abcdef".toList.contains = true

/-- `substr(md5(s), 1, n)`. -/
def Md5.front (d : Md5) (s : String) (n : ℕ) : String := String.ofList ((d.hash s).toList.take n)

/-- `text like pattern`. -/
def like : List Char → List Char → Bool
  | [], text => text.isEmpty
  | '%' :: pattern, text => text.tails.any (like pattern)
  | '_' :: pattern, _ :: text => like pattern text
  | '\\' :: c :: pattern, c' :: text => c = c' && like pattern text
  | c :: pattern, c' :: text => c = c' && like pattern text
  | _ :: _, [] => false

/-- What a job runs: a detach statement, or a call of `absurd.drop_detached_partition`. -/
inductive Command where
  | detach (parent partition : String) (concurrently : Bool)
  | drop (partition unscheduleJobName : String)
  deriving DecidableEq

/-- A row of `cron.job`. -/
structure MaintenanceJob where
  jobname : String
  command : Command
  deriving DecidableEq

abbrev Jobs := Table MaintenanceJob.jobname

def detachHead : String := "absurd_detach_run_"

def dropHead : String := "absurd_drop_run_"

/-- What the names of the jobs of a partition have in common. -/
def jobSuffix (d : Md5) (scope parent partition : String) : String :=
  scope ++ "_" ++ d.front parent 8 ++ "_" ++ d.front (parent ++ ":" ++ partition) 12

/-- A job has a name of the pattern. -/
def Jobs.like (jobs : Jobs) (pattern : String) : Bool :=
  jobs.rows.any (fun j => Partitions.like pattern.toList j.jobname.toList)

/-- A detach or drop job of the table is there. -/
def Jobs.busy (jobs : Jobs) (parentKey : String) : Bool :=
  jobs.like (detachHead ++ "%_" ++ parentKey ++ "_%")
    || jobs.like (dropHead ++ "%_" ++ parentKey ++ "_%")

/-- The job of a partition is there, under this or another scope. -/
def Jobs.planned (jobs : Jobs) (head suffix candidateKey : String) : Bool :=
  jobs.rows.any (fun j => j.jobname = head ++ suffix) || jobs.like (head ++ "%_" ++ candidateKey)

def detachJob (suffix parent partition : String) (concurrently : Bool) : MaintenanceJob :=
  ⟨detachHead ++ suffix, .detach parent partition concurrently⟩

def dropJob (suffix partition : String) : MaintenanceJob :=
  ⟨dropHead ++ suffix, .drop partition (dropHead ++ suffix)⟩

/-- The loop of `absurd.schedule_detach_jobs`. -/
def scheduleCandidate (d : Md5) (scope : String) (s : Schema) (jobs : Jobs) (c : Candidate) :
    Jobs :=
  if jobs.busy (d.front c.parent 8) then jobs
  else
    let suffix := jobSuffix d scope c.parent c.partition
    let candidateKey := d.front (c.parent ++ ":" ++ c.partition) 12
    let hasDefault := s.attached.rows.any (fun c' => c'.inhparent = c.parent && c'.bound.isDefault)
    let jobs :=
      if jobs.planned detachHead suffix candidateKey then jobs
      else jobs.put (detachJob suffix c.parent c.partition !hasDefault)
    if jobs.planned dropHead suffix candidateKey then jobs
    else jobs.put (dropJob suffix c.partition)

/-- The first candidate ends earlier than the second, or has the smaller name. -/
def Candidate.before (c c' : Candidate) : Bool :=
  c.upperTs < c'.upperTs || (c.upperTs = c'.upperTs && c.partition < c'.partition)

/-- The candidate that comes first. -/
def oldest : List Candidate → Option Candidate
  | [] => none
  | c :: cs => some (cs.foldl (fun best c => if c.before best then c else best) c)

/-- The candidates of `rn = 1`, in the order of queues and tables. -/
def ranked (queues : List QueueRow) (cs : List Candidate) : List Candidate :=
  queues.flatMap (fun q =>
    [Family.checkpoints, .runs, .tasks, .waits].filterMap (fun f =>
      oldest (cs.filter (fun c => c.parent = parentTable f q.queueName))))

/-- `absurd.schedule_detach_jobs`, where `pg_cron` is installed. -/
def scheduleDetachJobs (d : Md5) (now : ℤ) (queues : List QueueRow) (queueName : Option String)
    (s : Schema) (jobs : Jobs) : Except Refusal Jobs := do
  let scope := queueName.elim "all" (d.front · 12)
  let cs ← listDetachCandidates now queues queueName s
  .ok ((ranked queues cs).foldl (scheduleCandidate d scope s) jobs)

/-! ### Running the jobs -/

namespace Schema

/-- `alter table .. detach partition ..`, which fails for what is no partition of the table. -/
def detachPartition (s : Schema) (parent partition : String) : Option Schema :=
  match s.attached.get? partition with
  | none => none
  | some c =>
      if c.inhparent = parent then
        some { s with
          attached := s.attached.delete (·.relname = partition)
          detached := s.detached.put (partition, c.rows) }
      else none

/-- `drop table if exists`: a partitioned table is dropped with its partitions. -/
def dropTable (s : Schema) (name : String) : Schema where
  parents := s.parents.filter (· ≠ name)
  attached := s.attached.delete (fun c => c.relname = name || c.inhparent = name)
  detached := s.detached.delete (·.1 = name)
  others := s.others.filter (· ≠ name)

end Schema

/-- `cron.unschedule` for the jobs of a name. -/
def Jobs.unschedule (jobs : Jobs) (jobname : String) : Jobs := jobs.delete (·.jobname = jobname)

/-- The name of the detach job, derived from that of the drop job. -/
def detachJobName (unscheduleJobName : String) : Option String :=
  if like (dropHead ++ "%").toList unscheduleJobName.toList then
    some (detachHead ++ String.ofList (unscheduleJobName.toList.drop dropHead.length))
  else none

/-- `absurd.drop_detached_partition`, when it is given a table and the name of a job. -/
def dropDetachedPartition (s : Schema) (jobs : Jobs) (partition unscheduleJobName : String) :
    Schema × Jobs :=
  let unscheduled := ((detachJobName unscheduleJobName).elim jobs jobs.unschedule).unschedule
    unscheduleJobName
  if ¬ s.Has partition then (s, unscheduled)
  else if s.attached.rows.any (·.relname = partition) then (s, jobs)
  else (s.dropTable partition, unscheduled)

/-! ### The machine -/

/-- A moment UUIDv7 keys can be drawn at. -/
structure Moment where
  ts : ℤ
  past : 0 ≤ epochMs ts
  future : epochMs ts ≤ maxEpochMs

/-- The moment identifiers are drawn at. -/
def Server.drawMoment (server : Server) (clock now : Moment) : Moment :=
  if server.uuidv7.isSome then clock else now

theorem Server.drawMoment_ts (server : Server) (clock now : Moment) :
  (server.drawMoment clock now).ts = server.moment clock.ts now.ts
  := by
  rw [Server.drawMoment, Server.moment]
  split <;> rfl

/-- Identifiers are not drawn before `absurd.current_time()`: where the server draws them itself,
`absurd.fake_now` is not ahead of its clock. -/
def Server.KeepsUp (server : Server) (clock now : Moment) : Prop :=
  now.ts ≤ (server.drawMoment clock now).ts

instance (server : Server) (clock now : Moment) : Decidable (server.KeepsUp clock now) :=
  inferInstanceAs (Decidable (now.ts ≤ (server.drawMoment clock now).ts))

/-- The schema, the rows of `absurd.queues` by their names, the jobs, and the time. -/
structure World where
  schema : Schema
  queues : List QueueRow
  jobs : Jobs
  now : Moment

/-- What happens to the tables: functions of the schema are called, jobs run or are unscheduled,
other relations are created, rows are inserted at a moment of the server's clock and deleted, and
time passes. -/
inductive Action where
  | tick (later : Moment)
  | createRelation (name : String)
  | createQueue (queueName : String) (partitioned : Bool)
  | setQueuePolicy (q : QueueRow)
  | ensurePartitions (queueName : Option String)
  | insert (f : Family) (queueName : String) (clock : Moment) (id : Uuid)
  | delete (relname : String) (ids : List Uuid)
  | scheduleDetachJobs (queueName : Option String)
  | runJob (jobname : String)
  | unschedule (jobname : String)

namespace Schema

/-- `create .. if not exists` of another relation than a partition. -/
def createOther (s : Schema) (name : String) : Schema :=
  if s.Has name then s else { s with others := name :: s.others }

def createParent (s : Schema) (name : String) : Schema :=
  if s.Has name then s else { s with parents := name :: s.parents }

/-- The tables and indexes of `absurd.ensure_queue_tables` without the partitions. -/
def createQueueTables (s : Schema) (queueName : String) (partitioned : Bool) : Schema :=
  let s := families.foldl (fun s f =>
    if partitioned then s.createParent (parentTable f queueName)
    else s.createOther (parentTable f queueName)) s
  let tables := ("e_" ++ queueName) :: if partitioned then ["i_" ++ queueName] else []
  let indexes := ["r_" ++ queueName ++ "_sai", "r_" ++ queueName ++ "_ti",
    "r_" ++ queueName ++ "_cei", "w_" ++ queueName ++ "_eni", "w_" ++ queueName ++ "_ti",
    "e_" ++ queueName ++ "_eai"] ++ if partitioned then ["i_" ++ queueName ++ "_ti"] else []
  (tables ++ indexes).foldl createOther s

/-- The default partition of a table is detached and dropped, when it has no rows. -/
def disableDefault (queueName : String) (s : Schema) (f : Family) : Except Refusal Schema :=
  match s.attached.get? (defaultTable f queueName) with
  | none => .ok s
  | some c =>
      if c.inhparent ≠ parentTable f queueName then .ok s
      else if c.rows ≠ [] then .error (.defaultNotEmpty c.relname)
      else .ok { s with attached := s.attached.delete (·.relname = defaultTable f queueName) }

/-- A row is inserted through its table. -/
def insertRow (s : Schema) (parent : String) (id : Uuid) : Option Schema :=
  (s.route parent id).map (fun c =>
    { s with
      attached := s.attached.update (·.relname = c.relname)
        ⟨fun c => { c with rows := id :: c.rows }, fun _ => rfl⟩ })

/-- Rows of a partition are deleted. -/
def deleteRows (s : Schema) (relname : String) (ids : List Uuid) : Schema :=
  { s with
    attached := s.attached.update (·.relname = relname)
      ⟨fun c => { c with rows := c.rows.filter (fun id => decide (id ∉ ids)) },
        fun _ => rfl⟩ }

end Schema

/-- The row `absurd.create_queue` inserts. -/
def QueueRow.initial (queueName : String) (partitioned : Bool) : QueueRow where
  queueName := queueName
  partitioned := partitioned
  defaultPartition := true
  partitionLookahead := 28 * day
  partitionLookback := day
  detachEmpty := false
  detachMinAge := 30 * day
  lookahead_nonneg := by decide
  lookback_nonneg := by decide
  minAge_nonneg := by decide

/-- The row is inserted, unless there is one of the name. -/
def insertQueue (queueName : String) (partitioned : Bool) (queues : List QueueRow) :
    List QueueRow :=
  if queues.any (·.queueName = queueName) then queues
  else queues.orderedInsert (·.queueName ≤ ·.queueName) (.initial queueName partitioned)

/-- `absurd.create_queue`. -/
def createQueue (now : ℤ) (queueName : String) (partitioned : Bool) (queues : List QueueRow)
    (s : Schema) : Except Refusal (List QueueRow × Schema) :=
  match validateQueueName queueName with
  | .error e => .error (.queueName e)
  | .ok () =>
      let queues := insertQueue queueName partitioned queues
      if queues.any (fun q => q.queueName = queueName && q.partitioned != partitioned) then
        .error (.modeMismatch queueName)
      else if partitioned then
        (ensurePartitions now queues (some queueName)
          (s.createQueueTables queueName partitioned)).map (queues, ·)
      else .ok (queues, s.createQueueTables queueName partitioned)

/-- `absurd.set_queue_policy`, with the row it leaves. -/
def setQueuePolicy (now : ℤ) (q : QueueRow) (queues : List QueueRow) (s : Schema) :
    Except Refusal (List QueueRow × Schema) :=
  match queues.find? (·.queueName = q.queueName) with
  | none => .error (.unknownQueue q.queueName)
  | some previous =>
      let queues := queues.map (fun q' =>
        if q'.queueName = q.queueName then { q with partitioned := q'.partitioned } else q')
      if previous.partitioned && previous.defaultPartition != q.defaultPartition then
        (if q.defaultPartition then ensurePartitions now queues (some q.queueName) s
          else families.foldlM (Schema.disableDefault q.queueName) s).map (queues, ·)
      else .ok (queues, s)

/-- The partition key of a new row. The keys of tasks and runs are drawn when they are inserted;
checkpoints and waits are inserted with the key of their task or run. -/
def keyOf (server : Server) (clock now : ℤ) (f : Family) (id : Uuid) : Uuid :=
  match f with
  | .tasks | .runs => portableUuidv7 server clock now id
  | .checkpoints | .waits => id

/-- A job runs its command. -/
def World.runCommand (w : World) : Command → Option World
  | .detach parent partition _ =>
      (w.schema.detachPartition parent partition).map (fun s => { w with schema := s })
  | .drop partition unscheduleJobName =>
      let r := dropDetachedPartition w.schema w.jobs partition unscheduleJobName
      some { w with schema := r.1, jobs := r.2 }

/-- A step; `none` when a statement fails. Time passes forward, and identifiers are not drawn behind
it. -/
def World.step (server : Server) (d : Md5) (w : World) : Action → Option World
  | .tick later => if w.now.ts ≤ later.ts then some { w with now := later } else none
  | .createRelation name => some { w with schema := w.schema.createOther name }
  | .createQueue queueName partitioned =>
      (createQueue w.now.ts queueName partitioned w.queues w.schema).toOption.map
        (fun r => { w with queues := r.1, schema := r.2 })
  | .setQueuePolicy q =>
      (setQueuePolicy w.now.ts q w.queues w.schema).toOption.map
        (fun r => { w with queues := r.1, schema := r.2 })
  | .ensurePartitions queueName =>
      (Partitions.ensurePartitions w.now.ts w.queues queueName w.schema).toOption.map
        (fun s => { w with schema := s })
  | .insert f queueName clock id =>
      if server.KeepsUp clock w.now then
        (w.schema.insertRow (parentTable f queueName) (keyOf server clock.ts w.now.ts f id)).map
          (fun s => { w with schema := s })
      else none
  | .delete relname ids => some { w with schema := w.schema.deleteRows relname ids }
  | .scheduleDetachJobs queueName =>
      (Partitions.scheduleDetachJobs d w.now.ts w.queues queueName w.schema w.jobs).toOption.map
        (fun jobs => { w with jobs := jobs })
  | .runJob jobname => (w.jobs.get? jobname).bind (fun j => w.runCommand j.command)
  | .unschedule jobname => some { w with jobs := w.jobs.unschedule jobname }

def machine (server : Server) (d : Md5) : Machine World Action := ⟨World.step server d⟩

/-- Nothing is there yet. -/
def World.initial (now : Moment) : World :=
  ⟨⟨[], .empty _, .empty _, []⟩, [], .empty _, now⟩

end DjangoAbsurd.Partitions
