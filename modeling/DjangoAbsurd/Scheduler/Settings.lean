import DjangoAbsurd.Scheduler.Beat
import DjangoAbsurd.Scheduler.Cron

/-!
# The `SCHEDULE` setting, checked and loaded

The system check reads `OPTIONS["SCHEDULE"]` as it is written and reports what it objects
to. The beat scheduler reads the same mapping when it starts, entry by entry, and raises at
the first entry it cannot read. A task is enqueued onto the queue of its entry, or onto its
own queue when the entry names none.

A mapping is a dictionary here.
-/

namespace DjangoAbsurd

/-- The schedulers of a backend. -/
inductive SchedulerKind where
  | beat
  | pgCron
  deriving DecidableEq, Repr

/-- The entries of `OPTIONS` that schedules are read from, where they are set. -/
structure AbsurdOptions where
  queues : Option PyValue
  schedule : Option PyValue

/-- `get_declared_queues`. `backendQueues` are the queues of the backend itself. -/
def getDeclaredQueues (options : AbsurdOptions) (backendQueues : List String) : List PyKey :=
  match options.queues with
  | some (.dict members) => members.map Prod.fst
  | some _ => []
  | none => backendQueues.map .str

/-- What Python does with the values of a setting. `importString` raises with a text, or
gives a task or something that is no task. `list` and `dict` take what they make, and refuse
`None`. -/
structure Interpreter (p : Project) where
  importString : PyValue → Except String (Option Task)
  importString_iff : ∀ value t, importString value = .ok (some t) ↔
    ∃ path, value = .str path ∧ p.importString path = some t
  repr : PyValue → String
  keyRepr : PyKey → String
  list : PyValue → Option (List PyValue)
  list_list : ∀ items, list (.list items) = some items
  list_none : list .none = none
  dict : PyValue → Option (List (PyKey × PyValue))
  dict_dict : ∀ members, dict (.dict members) = some members
  dict_none : dict .none = none

/-- `CheckMessage`. -/
structure CheckMessage where
  msg : String
  hint : String
  id : String
  deriving DecidableEq, Repr

/-! ### The check -/

/-- `VALID_SCHEDULE_KEYS`. -/
def validScheduleKeys : List String := ["task", "cron", "queue", "args", "kwargs"]

/-- `E007_MSG`. -/
def e007Msg : String := "django-absurd: invalid SCHEDULE entry."

/-- `E007_HINT_IMPORT`. -/
def e007HintImport : String :=
  "Ensure the task path is importable and points to a @task-decorated function."

/-- `E007_HINT_NOT_TASK`. -/
def e007HintNotTask : String := "The path must point to a Django @task-decorated callable."

/-- `E007_HINT_CRON`. -/
def e007HintCron : String := "Provide a valid cron expression (e.g. '0 2 * * *')."

/-- `E007_HINT_PG_CRON_CRON_PRESENT`. -/
def e007HintPgCronCronPresent : String :=
  "Set cron to a non-empty schedule string; the pg_cron app checks its grammar."

/-- `E007_HINT_UNKNOWN_KEY`. -/
def e007HintUnknownKey : String :=
  "Remove unknown keys; valid keys are: task, cron, queue, args, kwargs."

/-- `E007_HINT_SERIALIZE`. -/
def e007HintSerialize : String := "Ensure args and kwargs contain only JSON-serializable values."

/-- `E007_HINT_SHAPE`. -/
def e007HintShape : String :=
  "args must be a JSON array (list); kwargs must be a JSON object (dict)."

/-- `E007_HINT_QUEUE`. -/
def e007HintQueue : String :=
  "Declare the queue under OPTIONS['QUEUES'] or correct the queue name."

section Check

variable {p : Project} (i : Interpreter p) (c : Croniter)

/-- An `absurd.E007` about the schedule `name`. -/
def e007 (name : PyKey) (text hint : String) : CheckMessage where
  msg := e007Msg ++ " Schedule " ++ i.keyRepr name ++ text
  hint
  id := "absurd.E007"

/-- The key of an entry that is not valid. -/
def unknownKeyErrors (name : PyKey) (members : List (PyKey × PyValue)) : List CheckMessage :=
  (members.filter (fun m => m.1 ∉ validScheduleKeys.map PyKey.str)).map
    (fun m => e007 i name (": unknown key " ++ i.keyRepr m.1 ++ ".") e007HintUnknownKey)

/-- `validate_task_path` of the task of an entry. -/
def taskErrors (name : PyKey) (task : PyValue) : List CheckMessage :=
  match i.importString task with
  | .error exc =>
      [e007 i name (": task " ++ i.repr task ++ " could not be imported: " ++ exc)
        e007HintImport]
  | .ok none => [e007 i name (": " ++ i.repr task ++ " is not a Django task.") e007HintNotTask]
  | .ok (some _) => []

/-- The check of the cron of an entry. The grammar of pg_cron is checked elsewhere. -/
def cronErrors (scheduler : SchedulerKind) (name : PyKey) (cron : PyValue) : List CheckMessage :=
  match scheduler with
  | .beat =>
      if isValidBeatCron c cron then []
      else [e007 i name (": invalid cron expression " ++ i.repr cron ++ ".") e007HintCron]
  | .pgCron =>
      match cron with
      | .str s =>
          if isBlank s then
            [e007 i name ": cron must be a non-empty string." e007HintPgCronCronPresent]
          else []
      | _ => [e007 i name ": cron must be a non-empty string." e007HintPgCronCronPresent]

/-- `validate_args_is_list`. -/
def argsIsList : PyValue → Bool
  | .list _ => true
  | _ => false

/-- `validate_kwargs_is_dict`. -/
def kwargsIsDict : PyValue → Bool
  | .dict _ => true
  | _ => false

/-- A check of a field that looks at the value only when there is one that is not `None`. -/
def fieldErrors (name : PyKey) (members : List (PyKey × PyValue)) (field : String)
    (accepts : PyValue → Bool) (text hint : String) : List CheckMessage :=
  match getItem? members field with
  | none | some .none => []
  | some value => if accepts value then [] else [e007 i name (": " ++ text) hint]

/-- The check of the queue of an entry. -/
def queueErrors (declared : List PyKey) (name : PyKey) (queue : Option PyValue) :
    List CheckMessage :=
  match queue with
  | none | some .none => []
  | some value =>
      let undeclared :=
        [e007 i name (": queue " ++ i.repr value ++ " is not declared.") e007HintQueue]
      match value with
      | .str s => if PyKey.str s ∈ declared then [] else undeclared
      | _ => undeclared

/-- `validate_schedule`. -/
def validateSchedule (declared : List PyKey) (scheduler : SchedulerKind) (name : PyKey)
    (spec : PyValue) : List CheckMessage :=
  match spec with
  | .dict members =>
      unknownKeyErrors i name members
        ++ taskErrors i name ((getItem? members "task").getD (.str ""))
        ++ cronErrors i c scheduler name ((getItem? members "cron").getD (.str ""))
        ++ fieldErrors i name members "args" (fun v => (dumps v).isSome)
          "args is not JSON-serializable." e007HintSerialize
        ++ fieldErrors i name members "args" argsIsList
          "args must be a JSON array (list)." e007HintShape
        ++ fieldErrors i name members "kwargs" (fun v => (dumps v).isSome)
          "kwargs is not JSON-serializable." e007HintSerialize
        ++ fieldErrors i name members "kwargs" kwargsIsDict
          "kwargs must be a JSON object (dict)." e007HintShape
        ++ queueErrors i declared name (getItem? members "queue")
  | _ =>
      [e007 i name " must be a mapping."
        "Set the schedule entry to a dict with task, cron, and optional queue/args/kwargs."]

/-- `check_absurd_schedule_config`, of one backend. -/
def checkAbsurdScheduleConfig (scheduler : SchedulerKind) (options : AbsurdOptions)
    (backendQueues : List String) : List CheckMessage :=
  match options.schedule.getD (.dict []) with
  | .dict entries =>
      entries.flatMap (fun entry =>
        validateSchedule i c (getDeclaredQueues options backendQueues) scheduler entry.1 entry.2)
  | _ =>
      [{ msg := e007Msg ++ " OPTIONS[\"SCHEDULE\"] must be a mapping of name -> spec."
         hint := "Set SCHEDULE to a dict mapping schedule names to spec dicts."
         id := "absurd.E007" }]

end Check

/-! ### The loader -/

/-- `Schedule`, with the values of the setting as they are. -/
structure LoadedSchedule where
  name : PyKey
  task : PyValue
  cron : PyValue
  queue : Option PyValue
  args : List PyValue
  kwargs : List (PyKey × PyValue)
  backend : String

section Load

variable {p : Project} (i : Interpreter p)

/-- The schedule of an entry, unless reading it raises. -/
def loadSchedule (backend : String) (name : PyKey) (spec : PyValue) : Option LoadedSchedule :=
  match spec with
  | .dict members => do
      let task ← getItem? members "task"
      let cron ← getItem? members "cron"
      let args ← i.list ((getItem? members "args").getD (.list []))
      let kwargs ← i.dict ((getItem? members "kwargs").getD (.dict []))
      some {
        name
        task
        cron
        queue := (getItem? members "queue").filter PyValue.truthy
        args
        kwargs
        backend }
  | _ => none

/-- `get_settings_schedules`, on the setting as it is written. -/
def loadSettingsSchedules (backend : String) (schedule : Option PyValue) :
    Option (List LoadedSchedule) :=
  match schedule.getD (.dict []) with
  | .dict entries => entries.mapM (fun entry => loadSchedule i backend entry.1 entry.2)
  | _ => none

/-- The queue of the task a value names. -/
def ownQueue (task : PyValue) : Option PyValue :=
  match i.importString task with
  | .ok (some t) => some (.str t.queueName)
  | _ => none

/-- The queue `spawn_scheduled` enqueues onto. -/
def LoadedSchedule.effectiveQueue (s : LoadedSchedule) : Option PyValue :=
  s.queue.or (ownQueue i s.task)

end Load

/-! ### What the check reports -/

section Reports

variable {p : Project} {i : Interpreter p} {c : Croniter}

theorem taskErrors_eq_nil_iff {name : PyKey} {task : PyValue} :
  taskErrors i name task = [] ↔ ∃ t, i.importString task = .ok (some t)
  := by
  rw [taskErrors]
  split <;> simp_all

theorem cronErrors_beat_eq_nil_iff {name : PyKey} {cron : PyValue} :
  cronErrors i c .beat name cron = [] ↔ isValidBeatCron c cron = true
  := by
  rw [cronErrors]
  split <;> simp_all

theorem fieldErrors_eq_nil_iff {name : PyKey} {members : List (PyKey × PyValue)}
    {field text hint : String} {accepts : PyValue → Bool} :
  fieldErrors i name members field accepts text hint = []
    ↔ ∀ value, getItem? members field = some value → value ≠ .none → accepts value = true
  := by
  rw [fieldErrors]
  split
  · simp_all
  · simp_all
  · split <;> simp_all

theorem queueErrors_eq_nil_iff {declared : List PyKey} {name : PyKey} {queue : Option PyValue} :
  queueErrors i declared name queue = []
    ↔ ∀ value, queue = some value → value ≠ .none →
      ∃ s, value = .str s ∧ PyKey.str s ∈ declared
  := by
  cases queue with
  | none => simp [queueErrors]
  | some value => cases value <;> simp [queueErrors]

/-- The check is silent about a dictionary when it is about each of its parts. -/
theorem validateSchedule_eq_nil_iff {declared : List PyKey} {name : PyKey}
    {members : List (PyKey × PyValue)} :
  validateSchedule i c declared .beat name (.dict members) = []
    ↔ unknownKeyErrors i name members = []
      ∧ (∃ t, i.importString ((getItem? members "task").getD (.str "")) = .ok (some t))
      ∧ isValidBeatCron c ((getItem? members "cron").getD (.str "")) = true
      ∧ (∀ value, getItem? members "args" = some value → value ≠ .none →
        (dumps value).isSome = true ∧ argsIsList value = true)
      ∧ (∀ value, getItem? members "kwargs" = some value → value ≠ .none →
        (dumps value).isSome = true ∧ kwargsIsDict value = true)
      ∧ (∀ value, getItem? members "queue" = some value → value ≠ .none →
        ∃ s, value = .str s ∧ PyKey.str s ∈ declared)
  := by
  simp only [validateSchedule, List.append_eq_nil_iff, taskErrors_eq_nil_iff,
    cronErrors_beat_eq_nil_iff, fieldErrors_eq_nil_iff, queueErrors_eq_nil_iff]
  grind

/-- The check is silent about a setting when it is a dictionary and the check is silent about
each entry. -/
theorem checkAbsurdScheduleConfig_eq_nil_iff {scheduler : SchedulerKind}
    {options : AbsurdOptions} {backendQueues : List String} :
  checkAbsurdScheduleConfig i c scheduler options backendQueues = []
    ↔ ∃ entries, options.schedule.getD (.dict []) = .dict entries
      ∧ ∀ entry ∈ entries, validateSchedule i c (getDeclaredQueues options backendQueues)
        scheduler entry.1 entry.2 = []
  := by
  rw [checkAbsurdScheduleConfig]
  split <;> simp_all

end Reports

/-! ### What the loader makes of a checked setting -/

section Ready

variable {p : Project} {i : Interpreter p} {c : Croniter}

/-- A schedule is enqueued onto a declared queue. -/
def LoadedSchedule.Declared (i : Interpreter p) (declared : List PyKey) (s : LoadedSchedule) :
    Prop :=
  ∃ queue, s.effectiveQueue i = some (.str queue) ∧ PyKey.str queue ∈ declared

/-- The setting is loaded, and every schedule of it is enqueued onto a declared queue. -/
def SchedulesReady (i : Interpreter p) (declared : List PyKey) (backend : String)
    (schedule : Option PyValue) : Prop :=
  ∃ schedules, loadSettingsSchedules i backend schedule = some schedules
    ∧ ∀ s ∈ schedules, s.Declared i declared

/-- The arguments of an entry are not written as `None`, and a task whose entry names no
queue has a declared queue of its own. -/
def EntryReady (i : Interpreter p) (declared : List PyKey) (spec : PyValue) : Prop :=
  ∀ members, spec = .dict members →
    getItem? members "args" ≠ some .none
      ∧ getItem? members "kwargs" ≠ some .none
      ∧ ((getItem? members "queue").filter PyValue.truthy = none →
        ∃ task t, getItem? members "task" = some task ∧ i.importString task = .ok (some t)
          ∧ PyKey.str t.queueName ∈ declared)

/-- A field the check was silent about is read unless it is `None`. -/
theorem list_isSome_iff {members : List (PyKey × PyValue)}
    (h : ∀ value, getItem? members "args" = some value → value ≠ .none →
      (dumps value).isSome = true ∧ argsIsList value = true) :
  (∃ args, i.list ((getItem? members "args").getD (.list [])) = some args)
    ↔ getItem? members "args" ≠ some .none
  := by
  cases hitem : getItem? members "args" with
  | none => simp [i.list_list]
  | some value =>
      by_cases hnone : value = .none
      · simp [hnone, i.list_none]
      · have hlist := (h value hitem hnone).2
        cases value <;> simp_all [argsIsList, i.list_list]

theorem dict_isSome_iff {members : List (PyKey × PyValue)}
    (h : ∀ value, getItem? members "kwargs" = some value → value ≠ .none →
      (dumps value).isSome = true ∧ kwargsIsDict value = true) :
  (∃ kwargs, i.dict ((getItem? members "kwargs").getD (.dict [])) = some kwargs)
    ↔ getItem? members "kwargs" ≠ some .none
  := by
  cases hitem : getItem? members "kwargs" with
  | none => simp [i.dict_dict]
  | some value =>
      by_cases hnone : value = .none
      · simp [hnone, i.dict_none]
      · have hdict := (h value hitem hnone).2
        cases value <;> simp_all [kwargsIsDict, i.dict_dict]

/-- The queue of a checked entry is a declared one unless it counts as no queue. -/
theorem declared_of_filter {declared : List PyKey} {queue : Option PyValue} {value : PyValue}
    (h : ∀ value, queue = some value → value ≠ .none →
      ∃ s, value = .str s ∧ PyKey.str s ∈ declared)
    (hvalue : queue.filter PyValue.truthy = some value) :
  ∃ s, value = .str s ∧ PyKey.str s ∈ declared
  := by
  obtain ⟨hqueue, htruthy⟩ := Option.filter_eq_some_iff.mp hvalue
  apply h value hqueue
  rintro rfl
  cases htruthy

/-- An entry the check was silent about is loaded and enqueued onto a declared queue exactly
when its arguments are not written as `None` and, where it names no queue, its task has a
declared queue. -/
theorem loadSchedule_ready_iff {declared : List PyKey} {backend : String} {name : PyKey}
    {members : List (PyKey × PyValue)} (hcron : c.isValid "" = false)
    (himport : p.importString "" = none)
    (hchecked : validateSchedule i c declared .beat name (.dict members) = []) :
  (∃ s, loadSchedule i backend name (.dict members) = some s ∧ s.Declared i declared)
    ↔ EntryReady i declared (.dict members)
  := by
  obtain ⟨-, ⟨t, ht⟩, hvalid, hargs, hkwargs, hqueue⟩ := validateSchedule_eq_nil_iff.mp hchecked
  obtain ⟨task, htask⟩ : ∃ task, getItem? members "task" = some task := by
    apply Option.ne_none_iff_exists'.mp
    intro hnone
    rw [hnone] at ht
    obtain ⟨path, hpath, hfound⟩ := (i.importString_iff _ _).mp ht
    cases hpath
    rw [himport] at hfound
    cases hfound
  obtain ⟨cron, hcron⟩ : ∃ cron, getItem? members "cron" = some cron := by
    apply Option.ne_none_iff_exists'.mp
    intro hnone
    rw [hnone] at hvalid
    simp [isValidBeatCron, hcron] at hvalid
  rw [htask, Option.getD_some] at ht
  constructor
  · rintro ⟨s, hload, queue, heffective, hmem⟩ members' heq
    cases heq
    simp only [loadSchedule, htask, hcron, Option.bind_eq_bind, Option.bind_some,
      Option.bind_eq_some_iff] at hload
    obtain ⟨args, hlist, kwargs, hdict, hload⟩ := hload
    cases hload
    use (list_isSome_iff hargs).mp ⟨args, hlist⟩, (dict_isSome_iff hkwargs).mp ⟨kwargs, hdict⟩
    intro hnone
    rw [LoadedSchedule.effectiveQueue, hnone, Option.none_or, ownQueue, ht] at heffective
    cases heffective
    exact ⟨task, t, htask, ht, hmem⟩
  · intro hready
    obtain ⟨hargsNone, hkwargsNone, hown⟩ := hready members rfl
    obtain ⟨args, hlist⟩ := (list_isSome_iff (i := i) hargs).mpr hargsNone
    obtain ⟨kwargs, hdict⟩ := (dict_isSome_iff (i := i) hkwargs).mpr hkwargsNone
    simp only [loadSchedule, htask, hcron, hlist, hdict, Option.bind_eq_bind, Option.bind_some,
      Option.some.injEq, exists_eq_left', LoadedSchedule.Declared, LoadedSchedule.effectiveQueue]
    cases hfilter : (getItem? members "queue").filter PyValue.truthy with
    | none =>
        obtain ⟨task', t', htask', ht', hmem⟩ := hown hfilter
        cases htask.symm.trans htask'
        rw [Option.none_or, ownQueue, ht']
        exact ⟨t'.queueName, rfl, hmem⟩
    | some value =>
        obtain ⟨queue, rfl, hmem⟩ := declared_of_filter hqueue hfilter
        exact ⟨queue, rfl, hmem⟩

/-- A list is loaded when every entry is; what holds of what each gives holds of all. -/
theorem mapM_all_iff {α β : Type} {f : α → Option β} {P : β → Prop} (xs : List α) :
  (∃ ys, xs.mapM f = some ys ∧ ∀ y ∈ ys, P y) ↔ ∀ x ∈ xs, ∃ y, f x = some y ∧ P y
  := by
  induction xs with
  | nil => simp
  | cons x xs ih =>
      rw [List.forall_mem_cons, ← ih]
      simp only [List.mapM_cons, Option.pure_def, Option.bind_eq_bind, Option.bind_eq_some_iff,
        Option.some.injEq]
      constructor
      · rintro ⟨_, ⟨y, hy, ys, hys, rfl⟩, hall⟩
        obtain ⟨hP, hall⟩ := List.forall_mem_cons.mp hall
        exact ⟨⟨y, hy, hP⟩, ys, hys, hall⟩
      · rintro ⟨⟨y, hy, hP⟩, ys, hys, hall⟩
        exact ⟨y :: ys, ⟨y, hy, ys, hys, rfl⟩, List.forall_mem_cons.mpr ⟨hP, hall⟩⟩

/-- A setting the check was silent about is loaded, and all its schedules are enqueued onto
declared queues, exactly when no entry writes its arguments as `None` and every entry without
a queue names a task whose own queue is declared. -/
theorem schedulesReady_iff (i : Interpreter p) (c : Croniter) (options : AbsurdOptions)
    (backendQueues : List String) (backend : String) (hcron : c.isValid "" = false)
    (himport : p.importString "" = none)
    (hchecked : checkAbsurdScheduleConfig i c .beat options backendQueues = []) :
  SchedulesReady i (getDeclaredQueues options backendQueues) backend options.schedule
    ↔ ∀ entries, options.schedule.getD (.dict []) = .dict entries →
      ∀ entry ∈ entries, EntryReady i (getDeclaredQueues options backendQueues) entry.2
  := by
  obtain ⟨entries, hentries, hchecked⟩ := checkAbsurdScheduleConfig_eq_nil_iff.mp hchecked
  have hload : loadSettingsSchedules i backend options.schedule
      = entries.mapM (fun entry => loadSchedule i backend entry.1 entry.2) := by
    rw [loadSettingsSchedules, hentries]
  rw [SchedulesReady, hload, mapM_all_iff, hentries]
  simp only [PyValue.dict.injEq, forall_eq']
  apply forall₂_congr
  intro entry hentry
  have hsilent := hchecked entry hentry
  cases hspec : entry.2 with
  | dict members =>
      rw [hspec] at hsilent
      exact loadSchedule_ready_iff hcron himport hsilent
  | _ =>
      rw [hspec] at hsilent
      cases hsilent

end Ready

/-! ### A setting that passes the check and cannot be loaded -/

/-- `list` of a list, a tuple and a text, and `dict` of a dictionary and of an empty list. -/
def plainInterpreter (p : Project) : Interpreter p where
  importString
    | .str path =>
        match p.importString path with
        | some t => .ok (some t)
        | none => .error "ImportError()"
    | _ => .error "AttributeError()"
  importString_iff := by
    intro value t
    cases value with
    | str path => cases h : p.importString path <;> simp [h]
    | _ => simp
  repr
    | .str s => "\x27" ++ s ++ "\x27"
    | _ => "..."
  keyRepr
    | .str s => "\x27" ++ s ++ "\x27"
    | .scalar text => text
    | .object description => description
  list
    | .list items => some items
    | .tuple items => some items
    | .str s => some (s.toList.map (fun c => .str (String.singleton c)))
    | _ => none
  list_list _ := rfl
  list_none := rfl
  dict
    | .dict members => some members
    | .list [] => some []
    | _ => none
  dict_dict _ := rfl
  dict_none := rfl

/-- `nightly`, every night at two, with its arguments as given. -/
def nightlySetting (args : PyValue) : AbsurdOptions where
  queues := none
  schedule := some (.dict [(.str "nightly", .dict [
    (.str "task", .str "tasks.add"),
    (.str "cron", .str "0 2 * * *"),
    (.str "args", args)])])

/-- The entry is checked without a complaint, whatever its arguments are, when they are a
list or `None`. -/
theorem nightlySetting_checked (args : PyValue)
    (hargs : args ≠ .none → (dumps args).isSome = true ∧ argsIsList args = true) :
  checkAbsurdScheduleConfig
      (plainInterpreter (twoBackends (addTask .absurdTask "absurd"))) plainCroniter .beat
      (nightlySetting args) ["default"]
    = []
  := by
  apply checkAbsurdScheduleConfig_eq_nil_iff.mpr
  refine ⟨_, rfl, ?_⟩
  simp only [List.mem_singleton, forall_eq]
  apply validateSchedule_eq_nil_iff.mpr
  have hcron : isValidBeatCron plainCroniter (.str "0 2 * * *") = true := by decide
  use rfl, ⟨addTask .absurdTask "absurd", rfl⟩, hcron
  use fun value hvalue hnone => by cases hvalue; exact hargs hnone
  use fun value hvalue => by cases hvalue
  intro value hvalue
  cases hvalue

/-- A nightly entry with a list of arguments. -/
theorem schedulesReady_nightly :
  checkAbsurdScheduleConfig
      (plainInterpreter (twoBackends (addTask .absurdTask "absurd"))) plainCroniter .beat
      (nightlySetting (.list [.int 1])) ["default"] = []
    ∧ SchedulesReady (plainInterpreter (twoBackends (addTask .absurdTask "absurd")))
      (getDeclaredQueues (nightlySetting (.list [.int 1])) ["default"]) "absurd"
      (nightlySetting (.list [.int 1])).schedule
  := by
  have hchecked := nightlySetting_checked (.list [.int 1]) (fun _ => ⟨rfl, rfl⟩)
  use hchecked
  apply (schedulesReady_iff _ plainCroniter _ _ "absurd" (by decide) (by decide) hchecked).mpr
  intro entries hentries entry hentry
  cases hentries
  obtain rfl := List.mem_singleton.mp hentry
  intro members hmembers
  cases hmembers
  use by simp [getItem?], by simp [getItem?]
  intro _
  exact ⟨_, _, rfl, rfl, by decide⟩

/-- A nightly entry with `None` for its arguments passes the check and cannot be loaded. -/
theorem none_args_not_loaded :
  ¬ ∀ (p : Project) (i : Interpreter p) (c : Croniter) (options : AbsurdOptions)
      (backendQueues : List String) (backend : String),
      c.isValid "" = false → p.importString "" = none →
      checkAbsurdScheduleConfig i c .beat options backendQueues = [] →
      SchedulesReady i (getDeclaredQueues options backendQueues) backend options.schedule
  := by
  intro h
  have hchecked := nightlySetting_checked .none (fun hnone => absurd rfl hnone)
  obtain ⟨schedules, hload, -⟩ := h _ _ plainCroniter _ _ "absurd" (by decide) (by decide) hchecked
  cases hload

end DjangoAbsurd
