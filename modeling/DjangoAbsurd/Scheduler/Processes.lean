import DjangoAbsurd.Engine.Keys
import DjangoAbsurd.Library.Spans
import DjangoAbsurd.Scheduler.Loop
import DjangoAbsurd.Spawning

/-!
# Many processes of the beat scheduler

Nothing keeps two processes from running `run_beat` with one `SCHEDULE`, and a process may be
killed and started again at any moment, with any clock. A `BeatWorld` has the tables of the
queues, the processes with their entries and what they have spawned; `beatMachine` lets the
processes, and whoever else calls the engine, go on one step at a time.

The processes have the keys in common and nothing else: a slot is spawned once because the
key of its text is the same in every process, and it is not taken for another slot because
the text tells the schedule and the slot.
-/

namespace DjangoAbsurd

open Engine

/-! ### The key of a scheduled call -/

/-- The text `derive_idempotency_key` hashes. -/
def keyText (k : KeyFormat) (schedule : Schedule) (due : Time) : String :=
  schedule.backend ++ "|" ++ schedule.name ++ "|" ++ schedule.cron ++ "|" ++ k.isoSeconds due

theorem deriveIdempotencyKey_eq (k : KeyFormat) (schedule : Schedule) (due : Time) :
  deriveIdempotencyKey k schedule due
    = "cron:" ++ String.ofList ((k.sha256 (keyText k schedule due)).toList.take 24)
  := rfl

/-- The task of a schedule carries the key that is bound to it. -/
theorem layer_scheduledTask {p : Project} {schedule : Schedule} {key : String} {t : Task}
    (h : scheduledTask p schedule key = .ok t) :
  t.layer .idempotencyKey = some (.str key)
  := by
  rw [scheduledTask] at h
  split at h
  · cases h
  · split at h
    · cases h
    · split at h
      · cases h
      · rename_i bound hbound
        cases h
        obtain ⟨-, hlayer⟩ := bind_eq_ok hbound
        rw [hlayer]
        rfl

/-- The call of a schedule is executed with its key, or with the key of a wrapper. -/
theorem key_beatCall {p : Project} {sdk : Sdk} {schedule : Schedule} {key : String}
    {call : SpawnCall} (hkey : key ≠ "") (h : beatCall p sdk schedule key = some call) :
  ∃ deferred, textMember call.optionsJson "idempotency_key" = some (spawnedKey deferred key)
  := by
  obtain ⟨t, ht, hcall⟩ := Option.bind_eq_some_iff.mp h
  use t.runAfter.isSome
  apply key_enqueueCall (layer_scheduledTask (Except.toOption_eq_some.mp ht)) _ hcall
  apply sdk.normalize_key
  intro hempty
  rw [spawnedKey] at hempty
  split at hempty
  · exact hkey (String.append_eq_empty_iff.mp hempty).1
  · exact hkey hempty

/-! ### The machine of the processes -/

/-- What the processes of the beat scheduler have in common. -/
structure BeatSetup where
  project : Project
  keys : KeyFormat
  sdk : Sdk
  pg : Postgres
  croniter : Croniter
  schedules : List Schedule
  cleanupCron : Option String

/-- A process waits for its next pass, or passes over its entries at a reading. -/
inductive BeatProcess where
  | waiting (entries : List BeatEntry)
  | passing (current : Time) (done todo : List BeatEntry)

/-- The entries of a process. -/
def BeatProcess.entries : BeatProcess → List BeatEntry
  | .waiting entries => entries
  | .passing _ done todo => done ++ todo

/-- A task a process has spawned, or has been given for its key. -/
structure BeatSpawn where
  schedule : Schedule
  due : Time
  call : SpawnCall
  spawned : Spawned

/-- The key of the call. -/
def BeatSpawn.key (f : BeatSpawn) : Option String :=
  textMember f.call.optionsJson "idempotency_key"

/-- The tables of the queues, the processes, and what they spawned, the last first. -/
structure BeatWorld where
  queues : String → Option QueueState
  processes : ℕ → Option BeatProcess
  spawns : List BeatSpawn

/-- No queue is provisioned and no process runs. -/
def BeatWorld.empty : BeatWorld := ⟨fun _ => none, fun _ => none, []⟩

/-- The tables of a queue change. -/
def BeatWorld.setQueue (w : BeatWorld) (queue : String) (s : QueueState) : BeatWorld :=
  { w with queues := Function.update w.queues queue (some s) }

@[simp]
theorem queues_setQueue (w : BeatWorld) (queue : String) (s : QueueState) :
  (w.setQueue queue s).queues = Function.update w.queues queue (some s)
  := rfl

/-- A process goes on, or is gone. -/
def BeatWorld.setProcess (w : BeatWorld) (n : ℕ) (process : Option BeatProcess) : BeatWorld :=
  { w with processes := Function.update w.processes n process }

/-- What happens next: a process starts, and one that runs under its number is gone; it
stops or is killed; it wakes for a pass; it visits the next entry of its pass, with the
database reached or not; a queue is provisioned; or anyone calls the engine. -/
inductive BeatLabel where
  | start (n : ℕ) (moment : Time)
  | stop (n : ℕ)
  | wake (n : ℕ) (current : Time)
  | visit (n : ℕ) (now : Time) (reached : Bool)
  | provision (queue : String) (storage : StorageMode)
  | call (queue : String) (l : Label)

namespace BeatSetup

variable (setup : BeatSetup)

/-- What an entry that is fired does to the queues. The deletions of `fire_cleanup` are calls
of the engine of their own. -/
def fire (w : BeatWorld) (now due : Time) : BeatJob → BeatWorld
  | .cleanup => w
  | .schedule s =>
      match beatCall setup.project setup.sdk s (deriveIdempotencyKey setup.keys s due) with
      | none => w
      | some call =>
          match w.queues call.queue with
          | none => w
          | some q =>
              match call.execute setup.pg q now with
              | .error _ => w
              | .ok (q', spawned) =>
                  { w.setQueue call.queue q' with spawns := ⟨s, due, call, spawned⟩ :: w.spawns }

/-- The entry after a pass at a reading; `none` when the loop raises. -/
def next (current : Time) (e : BeatEntry) : Option BeatEntry :=
  if e.nextAt ≤ current then
    (getNextDatetime setup.croniter e.cron current).toOption.map ({ e with nextAt := · })
  else some e

/-- The process after a visit. -/
def visited (current : Time) (done : List BeatEntry) (e : BeatEntry) (todo : List BeatEntry) :
    Option BeatProcess :=
  (setup.next current e).map (fun e' =>
    match todo with
    | [] => .waiting (done ++ [e'])
    | _ => .passing current (done ++ [e']) todo)

/-- The process after its start: it ends at once when there are no entries, or when building
them raises. -/
def started (moment : Time) : Option BeatProcess :=
  ((buildBeatEntries setup.croniter setup.schedules setup.cleanupCron moment).toOption.filter
    (fun entries => !entries.isEmpty)).map .waiting

/-- One step. -/
def step (w : BeatWorld) : BeatLabel → Option BeatWorld
  | .start n moment => some (w.setProcess n (setup.started moment))
  | .stop n => some (w.setProcess n none)
  | .wake n current =>
      match w.processes n with
      | some (.waiting entries) => some (w.setProcess n (some (.passing current [] entries)))
      | _ => none
  | .visit n now reached =>
      match w.processes n with
      | some (.passing current done (e :: todo)) =>
          let w' := if e.nextAt ≤ current ∧ reached then setup.fire w now e.nextAt e.fire else w
          some (w'.setProcess n (setup.visited current done e todo))
      | _ => none
  | .provision queue storage =>
      match w.queues queue with
      | none => some (w.setQueue queue (.create storage))
      | some _ => none
  | .call queue l =>
      match w.queues queue with
      | none => none
      | some q => (Engine.step setup.pg q l).map (w.setQueue queue)

/-- The machine of the processes. -/
def beatMachine : Machine BeatWorld BeatLabel := ⟨setup.step⟩

end BeatSetup

/-! ### A pass visits every entry -/

section

variable {setup : BeatSetup} {w w' : BeatWorld}

@[simp]
theorem processes_fire (w : BeatWorld) (now due : Time) (job : BeatJob) :
  (setup.fire w now due job).processes = w.processes
  := by
  cases job with
  | cleanup => rfl
  | schedule s =>
      rw [BeatSetup.fire]
      split
      · rfl
      · split
        · rfl
        · split <;> rfl

/-- A process that passes over its entries visits the next one. -/
theorem step_visit (setup : BeatSetup) (now : Time) {n : ℕ} {current : Time} {done todo : List BeatEntry}
    {e : BeatEntry} (hprocess : w.processes n = some (.passing current done (e :: todo))) :
  ∃ w', setup.step w (.visit n now true) = some w'
    ∧ w'.processes n = setup.visited current done e todo
  := by
  rw [BeatSetup.step, hprocess]
  refine ⟨_, rfl, ?_⟩
  apply Function.update_self

/-- The entries after a pass, one by one. -/
theorem beatPass_cons (tick : Tick) (k : ℕ) (e : BeatEntry) (es : List BeatEntry) :
  (beatPass setup.croniter tick k (e :: es)).2.toOption
    = (setup.next tick.current e).bind (fun e' =>
        (beatPass setup.croniter tick (k + 1) es).2.toOption.map (e' :: ·))
  := by
  have hcons : ∀ (e' : BeatEntry) (after : Except CronError (List BeatEntry)),
      (after.map (e' :: ·)).toOption = after.toOption.map (e' :: ·) := by
    intro e' after
    cases after <;> rfl
  rw [beatPass, BeatSetup.next]
  split
  · cases getNextDatetime setup.croniter e.cron tick.current with
    | error err => rfl
    | ok nextAt => apply hcons
  · apply hcons

/-- Without interruption, the visits of a process lead where the pass of the loop leads. -/
theorem run_pass (now : Time) {tick : Tick} {n k : ℕ} {done : List BeatEntry} {e : BeatEntry}
    {todo : List BeatEntry}
    (hprocess : w.processes n = some (.passing tick.current done (e :: todo))) :
  ∃ visits w', setup.beatMachine.run w visits = some w' ∧ (∀ l ∈ visits, l = .visit n now true)
    ∧ w'.processes n = (beatPass setup.croniter tick k (e :: todo)).2.toOption.map
      (fun entries => .waiting (done ++ entries))
  := by
  induction todo generalizing w k done e with
  | nil =>
      obtain ⟨w', hs, hprocess'⟩ := step_visit setup now hprocess
      use [.visit n now true], w', Machine.run_cons.mpr ⟨w', hs, rfl⟩
      constructor
      · exact fun l hl => List.mem_singleton.mp hl
      · rw [hprocess', beatPass_cons, BeatSetup.visited]
        cases setup.next tick.current e <;> rfl
  | cons e₁ todo ih =>
      obtain ⟨w₁, hs, hprocess'⟩ := step_visit setup now hprocess
      rw [BeatSetup.visited] at hprocess'
      rw [beatPass_cons]
      cases hnext : setup.next tick.current e with
      | none =>
          rw [hnext] at hprocess'
          use [.visit n now true], w₁, Machine.run_cons.mpr ⟨w₁, hs, rfl⟩
          exact ⟨fun l hl => List.mem_singleton.mp hl, hprocess'⟩
      | some e' =>
          rw [hnext] at hprocess'
          obtain ⟨visits, w', hrun, hvisits, hafter⟩ := ih (k := k + 1) hprocess'
          use .visit n now true :: visits, w', Machine.run_cons.mpr ⟨w₁, hs, hrun⟩
          constructor
          · rw [List.forall_mem_cons]
            exact ⟨rfl, hvisits⟩
          · rw [hafter]
            cases (beatPass setup.croniter tick (k + 1) (e₁ :: todo)).2.toOption <;> simp

/-! ### What the processes spawned -/

/-- The task a process was given has the key of the call. -/
def BeatWorld.Recorded (w : BeatWorld) (f : BeatSpawn) : Prop :=
  ∃ s key, w.queues f.call.queue = some s ∧ f.key = some key ∧ s.life.Holds key f.spawned.taskId

/-- The step does not clean up a task a process was given. -/
def BeatLabel.Spares (w : BeatWorld) : BeatLabel → Prop
  | .call queue l => ∀ f ∈ w.spawns, f.call.queue = queue → Engine.Spares f.spawned.taskId l
  | _ => True

/-- Every task a process was given has its key, and a key creates a task once in a queue. -/
structure BeatWorld.Sound (w : BeatWorld) : Prop where
  queues : ∀ queue s, w.queues queue = some s → KeyedQueue s
  recorded : ∀ f ∈ w.spawns, w.Recorded f
  once : w.spawns.Pairwise (fun f g =>
    f.call.queue = g.call.queue → f.key = g.key → f.spawned.created = false)

@[simp]
theorem processes_setProcess (w : BeatWorld) (n : ℕ) (process : Option BeatProcess) :
  (w.setProcess n process).processes = Function.update w.processes n process
  := rfl

theorem BeatWorld.Sound.setProcess (h : w.Sound) (n : ℕ) (process : Option BeatProcess) :
  (w.setProcess n process).Sound
  := ⟨h.queues, h.recorded, h.once⟩

/-- A queue goes on to tables whose keys are sound and that have every task a process was
given in it. -/
theorem BeatWorld.Sound.setQueue (h : w.Sound) {queue : String} {s : QueueState}
    (hs : KeyedQueue s)
    (hkept : ∀ f ∈ w.spawns, f.call.queue = queue → ∀ key s₀, w.queues queue = some s₀ →
      s₀.life.Holds key f.spawned.taskId → s.life.Holds key f.spawned.taskId) :
  (w.setQueue queue s).Sound
  := by
  constructor
  · intro queue' s' hs'
    rw [queues_setQueue, Function.update_apply] at hs'
    split at hs'
    · obtain rfl := Option.some.inj hs'
      exact hs
    · exact h.queues queue' s' hs'
  · intro f hf
    obtain ⟨s₀, key, hs₀, hkey, hholds⟩ := h.recorded f hf
    by_cases hqueue : f.call.queue = queue
    · use s, key
      rw [hqueue] at hs₀
      rw [queues_setQueue, hqueue, Function.update_self]
      exact ⟨rfl, hkey, hkept f hf hqueue key s₀ hs₀ hholds⟩
    · use s₀, key
      rw [queues_setQueue, Function.update_of_ne hqueue]
      exact ⟨hs₀, hkey, hholds⟩
  · exact h.once

/-- A call of the engine that spares the tasks the processes were given. -/
theorem BeatWorld.Sound.call (h : w.Sound) {queue : String} {l : Label} {s s' : QueueState}
    (hq : w.queues queue = some s) (hs : Engine.step setup.pg s l = some s')
    (hspares : ∀ f ∈ w.spawns, f.call.queue = queue → Engine.Spares f.spawned.taskId l) :
  (w.setQueue queue s').Sound
  := by
  have hkeyed := h.queues queue s hq
  apply h.setQueue (hkeyed.step hs)
  intro f hf hqueue key s₀ hs₀ hholds
  obtain rfl := Option.some.inj (hq.symm.trans hs₀)
  exact holds_step hkeyed hholds (hspares f hf hqueue) hs

/-- An entry that is fired does nothing to the queues, or its call is executed. -/
theorem fire_cases (setup : BeatSetup) (w : BeatWorld) (now due : Time) (job : BeatJob) :
  setup.fire w now due job = w ∨ ∃ schedule call s s' spawned, job = .schedule schedule
    ∧ beatCall setup.project setup.sdk schedule (deriveIdempotencyKey setup.keys schedule due)
      = some call
    ∧ w.queues call.queue = some s ∧ call.execute setup.pg s now = .ok (s', spawned)
    ∧ setup.fire w now due job
      = { w.setQueue call.queue s' with spawns := ⟨schedule, due, call, spawned⟩ :: w.spawns }
  := by
  cases job with
  | cleanup => exact .inl rfl
  | schedule schedule =>
      rw [BeatSetup.fire]
      split
      · exact .inl rfl
      · rename_i call hcall
        split
        · exact .inl rfl
        · rename_i s hs
          split
          · exact .inl rfl
          · rename_i s' spawned hexecute
            exact .inr ⟨schedule, call, s, s', spawned, rfl, hcall, hs, hexecute, rfl⟩

/-- An entry that is fired is given the task that has its key. -/
theorem BeatWorld.Sound.fire (h : w.Sound) (now due : Time) (job : BeatJob) :
  (setup.fire w now due job).Sound
  := by
  rcases fire_cases setup w now due job with
    hsame | ⟨schedule, call, s, s', spawned, rfl, hcall, hqueue, hexecute, hfire⟩
  · rwa [hsame]
  · rw [hfire]
    obtain ⟨deferred, hkey⟩ := key_beatCall (deriveIdempotencyKey_ne_empty _ _ _) hcall
    have hkeyed := h.queues call.queue s hqueue
    obtain ⟨hholds, hcreated⟩ := spawnTask_keyed hkeyed hkey hexecute
    have hstep : Engine.step setup.pg s (.spawn now call.name call.params call.optionsJson)
        = some s' := congrArg (fun x => (Except.map Prod.fst x).toOption) hexecute
    have hcalled := h.call hqueue hstep (fun _ _ _ => trivial)
    constructor
    · exact hcalled.queues
    · intro f hf
      rcases List.mem_cons.mp hf with rfl | hf
      · refine ⟨s', _, ?_, hkey, hholds⟩
        apply Function.update_self
      · exact hcalled.recorded f hf
    · rw [List.pairwise_cons]
      use fun g hg hsame hsameKey => ?_, h.once
      obtain ⟨s₀, key, hs₀, hkey₀, hholds₀⟩ := h.recorded g hg
      obtain rfl := Option.some.inj (hqueue.symm.trans ((congrArg w.queues hsame).trans hs₀))
      have hsameKey' : some (spawnedKey deferred (deriveIdempotencyKey setup.keys schedule due))
          = some key := hkey.symm.trans (hsameKey.trans hkey₀)
      rw [Option.some.inj hsameKey'] at hcreated
      by_contra hnew
      exact hcreated.mp (by simpa using hnew) _ hholds₀

/-- A step that cleans up no task a process was given keeps the world sound. -/
theorem BeatWorld.Sound.step (h : w.Sound) {l : BeatLabel} (hspares : l.Spares w)
    (hs : setup.step w l = some w') :
  w'.Sound
  := by
  cases l with
  | start n moment | stop n =>
      obtain rfl := Option.some.inj hs
      exact h.setProcess n _
  | wake n current =>
      rw [BeatSetup.step] at hs
      split at hs
      · obtain rfl := Option.some.inj hs
        exact h.setProcess n _
      · cases hs
  | visit n now reached =>
      rw [BeatSetup.step] at hs
      split at hs
      · obtain rfl := Option.some.inj hs
        apply BeatWorld.Sound.setProcess
        split
        · apply h.fire
        · exact h
      · cases hs
  | provision queue storage =>
      rw [BeatSetup.step] at hs
      split at hs
      · rename_i hnone
        obtain rfl := Option.some.inj hs
        apply h.setQueue (KeyedQueue.create storage)
        intro f hf hqueue key s₀ hs₀
        rw [hnone] at hs₀
        cases hs₀
      · cases hs
  | call queue l =>
      rw [BeatSetup.step] at hs
      split at hs
      · cases hs
      · rename_i s hq
        obtain ⟨s', hs', rfl⟩ := Option.map_eq_some_iff.mp hs
        exact h.call hq hs' hspares

theorem sound_empty :
  BeatWorld.empty.Sound
  := by
  constructor
  · intro queue s hs
    cases hs
  · exact fun f hf => absurd hf List.not_mem_nil
  · exact List.Pairwise.nil

/-! ### What the entries fire -/

/-- An entry that fires a schedule has its cron, and is next due at a whole second. -/
def BeatEntry.Scheduled (schedules : List Schedule) (e : BeatEntry) : Prop :=
  ∀ s, e.fire = .schedule s → s ∈ schedules ∧ e.cron = s.cron ∧ 1000000 ∣ e.nextAt

/-- The entries of the processes are of the schedules, and so is what they spawned. -/
structure BeatWorld.OfSchedules (setup : BeatSetup) (w : BeatWorld) : Prop where
  entries : ∀ n process, w.processes n = some process →
    ∀ e ∈ process.entries, e.Scheduled setup.schedules
  spawns : ∀ f ∈ w.spawns, f.schedule ∈ setup.schedules ∧ 1000000 ∣ f.due
    ∧ beatCall setup.project setup.sdk f.schedule
      (deriveIdempotencyKey setup.keys f.schedule f.due) = some f.call

/-- The slots of every schedule are whole seconds. -/
def BeatSetup.WholeSeconds (setup : BeatSetup) : Prop :=
  ∀ s ∈ setup.schedules, ∀ t due,
    getNextDatetime setup.croniter s.cron t = .ok due → 1000000 ∣ due

/-- The entries a process starts with are of the schedules. -/
theorem scheduled_started (hseconds : setup.WholeSeconds) {moment : Time}
    {process : BeatProcess} (h : setup.started moment = some process) :
  ∀ e ∈ process.entries, e.Scheduled setup.schedules
  := by
  obtain ⟨entries, hentries, rfl⟩ := Option.map_eq_some_iff.mp h
  have hbuilt := Except.toOption_eq_some.mp (Option.filter_eq_some_iff.mp hentries).1
  intro e he s hfire
  obtain ⟨job, hjob, hnext⟩ := Except.exists_of_mem_mapM hbuilt he
  obtain ⟨due, hdue, rfl⟩ := Except.map_eq_ok hnext
  rw [beatJobs, List.mem_append] at hjob
  rcases hjob with hschedule | hcleanup
  · obtain ⟨s', hs', rfl⟩ := List.mem_map.mp hschedule
    cases hfire
    exact ⟨hs', rfl, hseconds s hs' moment due hdue⟩
  · obtain ⟨cron, -, rfl⟩ := List.mem_map.mp hcleanup
    cases hfire

/-- An entry of a schedule stays one. -/
theorem BeatEntry.Scheduled.next (hseconds : setup.WholeSeconds) {current : Time}
    {e e' : BeatEntry} (h : e.Scheduled setup.schedules) (hnext : setup.next current e = some e') :
  e'.Scheduled setup.schedules
  := by
  rw [BeatSetup.next] at hnext
  split at hnext
  · obtain ⟨due, hdue, rfl⟩ := Option.map_eq_some_iff.mp hnext
    intro s hfire
    obtain ⟨hs, hcron, -⟩ := h s hfire
    use hs, hcron
    rw [Except.toOption_eq_some, hcron] at hdue
    exact hseconds s hs current due hdue
  · obtain rfl := Option.some.inj hnext
    exact h

theorem BeatWorld.OfSchedules.setProcess (h : w.OfSchedules setup) (n : ℕ)
    {process : Option BeatProcess}
    (hprocess : ∀ started, process = some started →
      ∀ e ∈ started.entries, e.Scheduled setup.schedules) :
  (w.setProcess n process).OfSchedules setup
  := by
  constructor
  · intro n' process' hprocess'
    rw [processes_setProcess, Function.update_apply] at hprocess'
    split at hprocess'
    · exact hprocess process' hprocess'
    · exact h.entries n' process' hprocess'
  · exact h.spawns

theorem BeatWorld.OfSchedules.fire (h : w.OfSchedules setup) (now : Time) {e : BeatEntry}
    (he : e.Scheduled setup.schedules) :
  (setup.fire w now e.nextAt e.fire).OfSchedules setup
  := by
  constructor
  · rw [processes_fire]
    exact h.entries
  · rcases fire_cases setup w now e.nextAt e.fire with
      hsame | ⟨schedule, call, s, s', spawned, hfire, hcall, -, -, hfired⟩
    · rw [hsame]
      exact h.spawns
    · rw [hfired, List.forall_mem_cons]
      obtain ⟨hschedule, -, hwhole⟩ := he schedule hfire
      exact ⟨⟨hschedule, hwhole, hcall⟩, h.spawns⟩

/-- The processes and what they spawned are of the schedules after every step. -/
theorem BeatWorld.OfSchedules.step (hseconds : setup.WholeSeconds) (h : w.OfSchedules setup)
    {l : BeatLabel} (hs : setup.step w l = some w') :
  w'.OfSchedules setup
  := by
  cases l with
  | start n moment =>
      obtain rfl := Option.some.inj hs
      apply h.setProcess n
      exact fun started hstarted => scheduled_started hseconds hstarted
  | stop n =>
      obtain rfl := Option.some.inj hs
      apply h.setProcess n
      intro started hstarted
      cases hstarted
  | wake n current =>
      rw [BeatSetup.step] at hs
      split at hs
      · rename_i entries hprocess
        obtain rfl := Option.some.inj hs
        apply h.setProcess n
        intro started hstarted
        obtain rfl := Option.some.inj hstarted
        exact h.entries n (.waiting entries) hprocess
      · cases hs
  | visit n now reached =>
      rw [BeatSetup.step] at hs
      split at hs
      · rename_i current done e todo hprocess
        obtain rfl := Option.some.inj hs
        have hentries := h.entries n _ hprocess
        have he : e.Scheduled setup.schedules :=
          hentries e (List.mem_append_right _ List.mem_cons_self)
        have hfired : (if e.nextAt ≤ current ∧ reached then setup.fire w now e.nextAt e.fire
            else w).OfSchedules setup := by
          split
          · exact h.fire now he
          · exact h
        apply hfired.setProcess n
        intro process hvisited
        obtain ⟨e', hnext, rfl⟩ := Option.map_eq_some_iff.mp hvisited
        have hafter : ∀ x ∈ done ++ [e'] ++ todo, x.Scheduled setup.schedules := by
          intro x hx
          rw [List.append_assoc, List.mem_append, List.mem_append, List.mem_singleton] at hx
          rcases hx with hx | rfl | hx
          · exact hentries x (List.mem_append_left _ hx)
          · exact he.next hseconds hnext
          · exact hentries x (List.mem_append_right _ (List.mem_cons_of_mem _ hx))
        cases todo with
        | nil => simpa [BeatProcess.entries] using hafter
        | cons e₁ todo => exact hafter
      · cases hs
  | provision queue storage =>
      rw [BeatSetup.step] at hs
      split at hs
      · obtain rfl := Option.some.inj hs
        exact ⟨h.entries, h.spawns⟩
      · cases hs
  | call queue l =>
      rw [BeatSetup.step] at hs
      split at hs
      · cases hs
      · obtain ⟨s', -, rfl⟩ := Option.map_eq_some_iff.mp hs
        exact ⟨h.entries, h.spawns⟩

theorem ofSchedules_empty (setup : BeatSetup) :
  BeatWorld.empty.OfSchedules setup
  := by
  constructor
  · intro n process hprocess
    cases hprocess
  · exact fun f hf => absurd hf List.not_mem_nil

end

/-! ### What a key tells -/

/-- The texts of the slots that are spawned are those of one instant and have no bar, and no
two texts that are hashed collide. -/
structure KeyFormat.Tells (k : KeyFormat) (spawns : List BeatSpawn) : Prop where
  iso : ∀ f ∈ spawns, ∀ g ∈ spawns, 1000000 ∣ f.due → 1000000 ∣ g.due →
    k.isoSeconds f.due = k.isoSeconds g.due → f.due = g.due
  plain : ∀ f ∈ spawns, '|' ∉ (k.isoSeconds f.due).toList
  length : ∀ f ∈ spawns, (k.sha256 (keyText k f.schedule f.due)).length = 64
  collisionFree : ∀ f ∈ spawns, ∀ g ∈ spawns,
    (k.sha256 (keyText k f.schedule f.due)).toList.take 24
      = (k.sha256 (keyText k g.schedule g.due)).toList.take 24 →
    keyText k f.schedule f.due = keyText k g.schedule g.due

/-- The text of a key of one backend tells the name, the cron and the text of the slot, when
the crons and the texts of the slots have no bar. -/
theorem keyText_inj {k : KeyFormat} {s s' : Schedule} {due due' : Time}
    (hbackend : s.backend = s'.backend) (hcron : '|' ∉ s.cron.toList)
    (hcron' : '|' ∉ s'.cron.toList) (hiso : '|' ∉ (k.isoSeconds due).toList)
    (hiso' : '|' ∉ (k.isoSeconds due').toList) (h : keyText k s due = keyText k s' due') :
  s.name = s'.name ∧ s.cron = s'.cron ∧ k.isoSeconds due = k.isoSeconds due'
  := by
  have hsplit : ∀ (s : Schedule) (due : Time), (keyText k s due).toList
      = ((s.backend ++ "|").toList ++ s.name.toList ++ '|' :: s.cron.toList)
        ++ '|' :: (k.isoSeconds due).toList := by
    intro s due
    simp [keyText]
  have hlist := congrArg String.toList h
  rw [hsplit, hsplit] at hlist
  obtain ⟨hfront, hdue⟩ := List.append_cons_inj_of_last hiso hiso' hlist
  obtain ⟨hname, hcrons⟩ := List.append_cons_inj_of_last hcron hcron' hfront
  rw [hbackend] at hname
  exact ⟨String.toList_inj.mp (List.append_cancel_left hname), String.toList_inj.mp hcrons,
    String.toList_inj.mp hdue⟩

/-- Two spawned keys are of one scheduled key. -/
theorem spawnedKey_deriveIdempotencyKey_inj {k : KeyFormat} {s s' : Schedule} {due due' : Time}
    {deferred deferred' : Bool} (hlength : (k.sha256 (keyText k s due)).length = 64)
    (hlength' : (k.sha256 (keyText k s' due')).length = 64)
    (h : spawnedKey deferred (deriveIdempotencyKey k s due)
      = spawnedKey deferred' (deriveIdempotencyKey k s' due')) :
  (k.sha256 (keyText k s due)).toList.take 24 = (k.sha256 (keyText k s' due')).toList.take 24
  := by
  have hlong : ∀ {s : Schedule} {due : Time}, (k.sha256 (keyText k s due)).length = 64 →
      (deriveIdempotencyKey k s due).length = 29 := by
    intro s due hlength
    rw [← String.length_toList] at hlength ⊢
    simp only [deriveIdempotencyKey_eq, String.toList_append, String.toList_ofList,
      List.length_append, List.length_take, hlength]
    rfl
  have hshort : ∀ {key key' : String}, key.length = 29 → key'.length = 29 →
      key ≠ key' ++ deferNameSuffix := by
    intro key key' hkey hkey' heq
    rw [heq, String.length_append, hkey'] at hkey
    cases hkey
  have hsame := ((spawnedKey_injective_iff deferred deferred' _ _).mpr
    ⟨fun hcollides => hshort (hlong hlength) (hlong hlength') hcollides.2.2,
      fun hcollides => hshort (hlong hlength') (hlong hlength) hcollides.2.2⟩ h).2
  rw [deriveIdempotencyKey_eq, deriveIdempotencyKey_eq] at hsame
  have hlist := congrArg String.toList hsame
  rw [String.toList_append, String.toList_append] at hlist
  have htail := List.append_cancel_left hlist
  rwa [String.toList_ofList, String.toList_ofList] at htail

/-! ### A slot is spawned once -/

section

variable {setup : BeatSetup} {w : BeatWorld}

/-- Calls of one key are for one slot of one schedule. -/
theorem slot_of_key {backend : String} {scheduleMap : List (String × ScheduleSpec)}
    (hschedules : setup.schedules = getSettingsSchedules backend scheduleMap)
    (hnames : (scheduleMap.map Prod.fst).Nodup)
    (hcrons : ∀ s ∈ setup.schedules, '|' ∉ s.cron.toList) (htells : setup.keys.Tells w.spawns)
    (h : w.OfSchedules setup) {f g : BeatSpawn} (hf : f ∈ w.spawns) (hg : g ∈ w.spawns)
    (hkey : f.key = g.key) :
  f.schedule = g.schedule ∧ f.due = g.due
  := by
  obtain ⟨hfs, hfdue, hfcall⟩ := h.spawns f hf
  obtain ⟨hgs, hgdue, hgcall⟩ := h.spawns g hg
  obtain ⟨deferred, hfkey⟩ := key_beatCall (deriveIdempotencyKey_ne_empty _ _ _) hfcall
  obtain ⟨deferred', hgkey⟩ := key_beatCall (deriveIdempotencyKey_ne_empty _ _ _) hgcall
  have hsame := Option.some.inj (hfkey.symm.trans (hkey.trans hgkey))
  have htext := htells.collisionFree f hf g hg
    (spawnedKey_deriveIdempotencyKey_inj (htells.length f hf) (htells.length g hg) hsame)
  rw [hschedules] at hfs hgs
  obtain ⟨entry, hentry, hfe⟩ := List.mem_map.mp hfs
  obtain ⟨entry', hentry', hge⟩ := List.mem_map.mp hgs
  have hbackend : f.schedule.backend = g.schedule.backend := by rw [← hfe, ← hge]
  obtain ⟨hname, -, hiso⟩ := keyText_inj hbackend (hcrons _ (hschedules ▸ hfs))
    (hcrons _ (hschedules ▸ hgs)) (htells.plain f hf) (htells.plain g hg) htext
  constructor
  · rw [← hfe, ← hge] at hname ⊢
    have hentries : entry = entry' := List.inj_on_of_nodup_map hnames hentry hentry' hname
    rw [hentries]
  · exact htells.iso f hf g hg hfdue hgdue hiso

/-- What is spawned for one slot of one schedule is spawned with one call. -/
theorem call_of_slot {backend : String} {scheduleMap : List (String × ScheduleSpec)}
    (hschedules : setup.schedules = getSettingsSchedules backend scheduleMap)
    (hnames : (scheduleMap.map Prod.fst).Nodup) (h : w.OfSchedules setup) {f g : BeatSpawn}
    (hf : f ∈ w.spawns) (hg : g ∈ w.spawns) (hname : f.schedule.name = g.schedule.name)
    (hdue : f.due = g.due) :
  f.call = g.call
  := by
  obtain ⟨hfs, -, hfcall⟩ := h.spawns f hf
  obtain ⟨hgs, -, hgcall⟩ := h.spawns g hg
  rw [hschedules] at hfs hgs
  obtain ⟨entry, hentry, hfe⟩ := List.mem_map.mp hfs
  obtain ⟨entry', hentry', hge⟩ := List.mem_map.mp hgs
  rw [← hfe, ← hge] at hname
  have hentries : entry = entry' := List.inj_on_of_nodup_map hnames hentry hentry' hname
  have hschedule : f.schedule = g.schedule := by rw [← hfe, ← hge, hentries]
  rw [hschedule, hdue] at hfcall
  exact Option.some.inj (hfcall.symm.trans hgcall)

/-- Calls that were given one task of one queue have one key. -/
theorem key_of_taskId (h : w.Sound) {f g : BeatSpawn} (hf : f ∈ w.spawns) (hg : g ∈ w.spawns)
    (hqueue : f.call.queue = g.call.queue) (hid : f.spawned.taskId = g.spawned.taskId) :
  f.key = g.key
  := by
  obtain ⟨s, key, hs, hfkey, t, ht, htid, htkey⟩ := h.recorded f hf
  obtain ⟨s', key', hs', hgkey, t', ht', htid', htkey'⟩ := h.recorded g hg
  rw [hqueue] at hs
  obtain rfl := Option.some.inj (hs.symm.trans hs')
  obtain rfl := Keyed.Table.eq_of_key_eq ht ht' (htid.trans (hid.trans htid'.symm))
  rw [hfkey, hgkey, ← htkey, ← htkey']

/-- Of a list whose elements are related in order, unrelated ones are one at most. -/
theorem length_filter_le_one {α : Type} {R : α → α → Prop} {p : α → Bool} {xs : List α}
    (h : xs.Pairwise R) (hp : ∀ x ∈ xs, ∀ y ∈ xs, p x = true → p y = true → ¬ R x y) :
  (xs.filter p).length ≤ 1
  := by
  have hpairs := h.filter p
  have hmem : ∀ x ∈ xs.filter p, x ∈ xs ∧ p x = true := fun x hx => List.mem_filter.mp hx
  cases hlist : xs.filter p with
  | nil => exact Nat.zero_le 1
  | cons x rest =>
      cases rest with
      | nil => exact le_rfl
      | cons y rest =>
          rw [hlist] at hpairs hmem
          obtain ⟨hx, hpx⟩ := hmem x List.mem_cons_self
          obtain ⟨hy, hpy⟩ := hmem y (List.mem_cons_of_mem x List.mem_cons_self)
          exact absurd ((List.pairwise_cons.mp hpairs).1 y List.mem_cons_self) (hp x hx y hy hpx hpy)

/-- Take any number of processes with one `SCHEDULE`, started, killed and started again in
any order and with any readings, and any calls of the engine that clean up no task they were
given. For every schedule and every slot one task is created at most, and calls are given one
task of a queue only for one slot of one schedule. -/
theorem beat_spawns_once (setup : BeatSetup) {backend : String}
    {scheduleMap : List (String × ScheduleSpec)}
    (hschedules : setup.schedules = getSettingsSchedules backend scheduleMap)
    (hnames : (scheduleMap.map Prod.fst).Nodup)
    (hcrons : ∀ s ∈ setup.schedules, '|' ∉ s.cron.toList) (hseconds : setup.WholeSeconds)
    {ls : List BeatLabel} {w : BeatWorld} (hrun : setup.beatMachine.run .empty ls = some w)
    (hspared : setup.beatMachine.Along (fun w l => l.Spares w) .empty ls)
    (htells : setup.keys.Tells w.spawns) :
  (∀ name slot, (w.spawns.filter (fun f =>
      f.schedule.name = name ∧ f.due = slot ∧ f.spawned.created = true)).length ≤ 1)
    ∧ ∀ f ∈ w.spawns, ∀ g ∈ w.spawns, f.call.queue = g.call.queue →
      f.spawned.taskId = g.spawned.taskId → f.schedule = g.schedule ∧ f.due = g.due
  := by
  obtain ⟨hsound, hof⟩ := Machine.invariant_along
    (I := fun w => w.Sound ∧ w.OfSchedules setup)
    (fun w l w' hspares hI hs => ⟨hI.1.step hspares hs, hI.2.step hseconds hs⟩) hspared
    ⟨sound_empty, ofSchedules_empty setup⟩ hrun
  constructor
  · intro name slot
    apply length_filter_le_one hsound.once
    intro f hf g hg hfslot hgslot hagain
    simp only [decide_eq_true_eq] at hfslot hgslot
    obtain ⟨hfname, hfdue, hcreated⟩ := hfslot
    obtain ⟨hgname, hgdue, -⟩ := hgslot
    have hcall := call_of_slot hschedules hnames hof hf hg (hfname.trans hgname.symm)
      (hfdue.trans hgdue.symm)
    rw [hagain (congrArg SpawnCall.queue hcall)] at hcreated
    · cases hcreated
    · rw [BeatSpawn.key, BeatSpawn.key, hcall]
  · intro f hf g hg hqueue hid
    exact slot_of_key hschedules hnames hcrons htells hof hf hg
      (key_of_taskId hsound hf hg hqueue hid)

end

/-! ### Two processes that fire one slot -/

/-- The schedule of `tasks.add`, every minute. -/
def nightlyMap : List (String × ScheduleSpec) :=
  [("nightly", ⟨"tasks.add", "* * * * *", none, [], []⟩)]

/-- The text of the first minute. -/
def minuteText : String := "1970-01-01T00:01:00+00:00"

/-- The SHA-256 of `absurd|nightly|* * * * *|1970-01-01T00:01:00+00:00`. -/
def nightlyHash : String := "629fd7fc3098338575f074d62f7b500e3532021b65ea7545aac79e01d2d0a9ce"

/-- Processes with the schedule. -/
def nightlySetup : BeatSetup where
  project := twoBackends (addTask .absurdTask "absurd")
  keys := ⟨fun _ => minuteText, fun _ => nightlyHash⟩
  sdk := plainSdk
  pg := plainPostgres
  croniter := minuteCroniter
  schedules := getSettingsSchedules "absurd" nightlyMap
  cleanupCron := none

/-- Both processes start, wake after the first minute and fire its slot. -/
def nightlyLabels : List BeatLabel :=
  [.provision "default" .unpartitioned, .start 0 0, .start 1 0, .wake 0 90000000,
    .wake 1 90000000, .visit 0 90000000 true, .visit 1 90000000 true]

theorem run_nightly :
  ∃ w s call created known, nightlySetup.beatMachine.run .empty nightlyLabels = some w
    ∧ w.spawns = [⟨s, 60000000, call, known⟩, ⟨s, 60000000, call, created⟩]
    ∧ created.created = true
  := ⟨_, _, _, _, _, rfl, rfl, rfl⟩

/-- Both processes are given one task, which the first of them created. -/
theorem beat_spawns_once_nightly :
  ∃ w, nightlySetup.beatMachine.run .empty nightlyLabels = some w ∧ w.spawns.length = 2
    ∧ (w.spawns.filter (fun f =>
      f.schedule.name = "nightly" ∧ f.due = 60000000 ∧ f.spawned.created = true)).length ≤ 1
  := by
  obtain ⟨w, s, call, created, known, hrun, hspawns, -⟩ := run_nightly
  have hdue : ∀ f ∈ w.spawns, f.schedule = s ∧ f.due = 60000000 := by
    intro f hf
    rw [hspawns, List.mem_cons, List.mem_singleton] at hf
    rcases hf with rfl | rfl <;> exact ⟨rfl, rfl⟩
  have hschedules : nightlySetup.schedules = getSettingsSchedules "absurd" nightlyMap := rfl
  use w, hrun, by rw [hspawns]; rfl
  apply (beat_spawns_once nightlySetup hschedules _ _ _ hrun _ _).1
  · exact List.nodup_singleton _
  · intro s hs
    obtain rfl := List.mem_singleton.mp hs
    decide
  · intro s hs t due hnext
    obtain rfl := List.mem_singleton.mp hs
    obtain rfl := Except.ok.inj (hnext.symm.trans (minuteCroniter_next t).1)
    apply Dvd.dvd.mul_left
    exact ⟨60, rfl⟩
  · apply Machine.along_of_forall
    intro w l hl
    simp only [nightlyLabels, List.mem_cons, List.not_mem_nil, or_false] at hl
    rcases hl with rfl | rfl | rfl | rfl | rfl | rfl | rfl
    all_goals trivial
  · constructor
    · intro f hf g hg _ _ _
      rw [(hdue f hf).2, (hdue g hg).2]
    · have hplain : '|' ∉ minuteText.toList := by decide
      exact fun f _ => hplain
    · have hlength : nightlyHash.length = 64 := by decide
      exact fun f _ => hlength
    · intro f hf g hg _
      rw [(hdue f hf).1, (hdue f hf).2, (hdue g hg).1, (hdue g hg).2]

end DjangoAbsurd
