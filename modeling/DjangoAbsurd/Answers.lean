import DjangoAbsurd.Library.Links
import DjangoAbsurd.Results

/-!
# What `get_result` answers

`get_result` returns a result, or raises `TaskResultDoesNotExist`, or `ImproperlyConfigured`
for a task path that no longer imports. It goes from a completed wrapper to the id in its
payload, and what it answers is decided where that way ends: `documented_iff` says when the
answer is one of these three, and `readBack_iff` when the id an enqueue has returned gives a
result.
-/

namespace DjangoAbsurd

open Engine

/-! ### The way from an id -/

section

variable (p : Project) (py : PythonLower) (b : Backend) (db : Database)

/-- The row `get_result` reads for an id, and its last run. -/
def readFound (registry : Registry) (resultId : String) : Option (TaskRow × Option RunRow) :=
  match decodeResultId resultId with
  | .error _ => none
  | .ok (queue, taskId) =>
      if queue ∈ b.queues then
        match (fetchTaskAndRun py p.ids registry db queue taskId resultId).1 with
        | .error _ => none
        | .ok (task, run, _) => some (task, run)
      else none

/-- The row `get_result` reads for an id. -/
def readRow (registry : Registry) (resultId : String) : Option TaskRow :=
  (readFound p py b db registry resultId).map Prod.fst

/-- The models that are built to read an id. -/
def readModels (resultId : String) : List (EntitySpec × String) :=
  match decodeResultId resultId with
  | .error _ => []
  | .ok (queue, _) => [(tasksSpec, queue), (runsSpec, queue)]

/-- The registry after models are built. -/
def buildModels (registry : Registry) (models : List (EntitySpec × String)) : Registry :=
  Memo.calls (registryKey py) queueTableModel registry models

/-- The id a completed wrapper sends `get_result` on to, and the registry it is read with. -/
def redirect : Registry × String → Option (Registry × String)
  | (registry, resultId) =>
      (readRow p py b db registry resultId).bind (fun task =>
        if isCompletedWrapper task then
          some (buildModels py registry (readModels resultId), payloadText p task)
        else none)

end

section

variable {p : Project} {py : PythonLower} {b : Backend} {backend : String} {db : Database}
  {registry : Registry} {resultId : String}

/-- A row that is read is fetched, with its last run, from a queue the backend takes. -/
theorem readFound_eq_some {t : TaskRow} {run : Option RunRow} :
  readFound p py b db registry resultId = some (t, run)
    ↔ ∃ queue taskId workerIds, decodeResultId resultId = .ok (queue, taskId)
      ∧ queue ∈ b.queues
      ∧ fetchTaskAndRun py p.ids registry db queue taskId resultId
        = (.ok (t, run, workerIds), buildModels py registry (readModels resultId))
  := by
  constructor
  · intro h
    rw [readFound] at h
    split at h
    · cases h
    · rename_i queue taskId hdecode
      obtain ⟨hqueue, h⟩ := Option.ite_none_right_eq_some.mp h
      split at h
      · cases h
      · rename_i task run' workerIds hfetch
        obtain ⟨rfl, rfl⟩ := Prod.mk.inj (Option.some.inj h)
        refine ⟨queue, taskId, workerIds, hdecode, hqueue, Prod.ext hfetch ?_⟩
        rw [readModels, hdecode]
        rfl
  · rintro ⟨queue, taskId, workerIds, hdecode, hqueue, hfetch⟩
    rw [readFound, hdecode]
    simp only [hqueue, if_true, hfetch]

theorem readRow_eq_some {t : TaskRow} :
  readRow p py b db registry resultId = some t
    ↔ ∃ run, readFound p py b db registry resultId = some (t, run)
  := by
  rw [readRow, Option.map_eq_some_iff]
  constructor
  · rintro ⟨⟨_, run⟩, hfound, rfl⟩
    exact ⟨run, hfound⟩
  · rintro ⟨run, hfound⟩
    exact ⟨(t, run), hfound, rfl⟩

theorem readRow_eq_none :
  readRow p py b db registry resultId = none ↔ readFound p py b db registry resultId = none
  := by
  rw [readRow, Option.map_eq_none_iff]

/-- An id `get_result` goes on from. -/
theorem getResult_of_redirect (n : ℕ) (a a' : Registry × String)
    (h : redirect p py b db a = some a') :
  getResult p py b backend db (n + 1) a.1 a.2 = getResult p py b backend db n a'.1 a'.2
  := by
  obtain ⟨registry, resultId⟩ := a
  obtain ⟨task, htask, hnext⟩ := Option.bind_eq_some_iff.mp h
  obtain ⟨hcompleted, ⟨⟩⟩ := Option.ite_none_right_eq_some.mp hnext
  obtain ⟨run, hfound⟩ := readRow_eq_some.mp htask
  obtain ⟨queue, taskId, workerIds, hdecode, hqueue, hfetch⟩ := readFound_eq_some.mp hfound
  rw [getResult, hdecode]
  simp only [hqueue, not_true, if_false, hfetch, hcompleted, if_true]

/-- An id `get_result` answers for without going on. -/
theorem getResult_of_end (n : ℕ) (a : Registry × String) (h : redirect p py b db a = none) :
  getResult p py b backend db (n + 1) a.1 a.2 = getResult p py b backend db 1 a.1 a.2
  := by
  obtain ⟨registry, resultId⟩ := a
  rw [getResult, getResult]
  cases hdecode : decodeResultId resultId with
  | error e => rfl
  | ok parts =>
      obtain ⟨queue, taskId⟩ := parts
      simp only
      split
      · rfl
      · rename_i hqueue
        rw [not_not] at hqueue
        cases hfound : readFound p py b db registry resultId with
        | none =>
            rw [readFound, hdecode] at hfound
            simp only [hqueue, if_true] at hfound
            split
            · rfl
            · rename_i hfetch
              rw [hfetch] at hfound
              cases hfound
        | some found =>
            obtain ⟨task, run⟩ := found
            obtain ⟨queue', taskId', workerIds, hdecode', -, hfetch⟩ :=
              readFound_eq_some.mp hfound
            rw [hdecode] at hdecode'
            cases hdecode'
            have hopen : isCompletedWrapper task = false := by
              rw [redirect, readRow_eq_some.mpr ⟨run, hfound⟩, Option.bind_some] at h
              simpa using h
            simp only [hfetch, hopen, Bool.false_eq_true, if_false]

/-- Deep enough, `get_result` answers where the way from the id ends. -/
theorem getResult_of_endsIn (backend : String) {n depth : ℕ} {a : Registry × String}
    (h : Links.EndsIn (redirect p py b db) n (registry, resultId) a) (hdepth : n < depth) :
  getResult p py b backend db depth registry resultId = getResult p py b backend db 1 a.1 a.2
  := by
  let run : ℕ → Registry × String → Except ResultError TaskResult × Registry :=
    fun n a => getResult p py b backend db n a.1 a.2
  have hlink : ∀ n a a', redirect p py b db a = some a' → run (n + 1) a = run n a' :=
    fun n a a' h => getResult_of_redirect n a a' h
  have hend : ∀ n a, redirect p py b db a = none → run (n + 1) a = run 1 a :=
    fun n a h => getResult_of_end n a h
  exact Links.run_of_endsIn hlink hend h hdepth

/-- An id `get_result` answers a result for. -/
theorem getResult_of_found (backend : String) {t : TaskRow} {run : Option RunRow} (n : ℕ)
    (a : Registry × String) (h : redirect p py b db a = none)
    (hfound : readFound p py b db a.1 a.2 = some (t, run)) :
  ∃ workerIds, (getResult p py b backend db (n + 1) a.1 a.2).1
    = buildTaskResult p backend a.2 t run workerIds
  := by
  obtain ⟨registry, resultId⟩ := a
  obtain ⟨queue, taskId, workerIds, hdecode, hqueue, hfetch⟩ := readFound_eq_some.mp hfound
  have hopen : isCompletedWrapper t = false := by
    rw [redirect, readRow_eq_some.mpr ⟨run, hfound⟩, Option.bind_some] at h
    simpa using h
  use workerIds
  rw [getResult, hdecode]
  simp only [hqueue, not_true, if_false, hfetch, hopen, Bool.false_eq_true]

/-- Without a row, the id names no queue the backend takes, or the read fails. -/
theorem getResult_of_not_found (backend : String) (n : ℕ)
    (hrow : readFound p py b db registry resultId = none) :
  ((∀ queue taskId, decodeResultId resultId = .ok (queue, taskId) → queue ∉ b.queues)
      ∧ (getResult p py b backend db (n + 1) registry resultId).1
        = .error (.taskResultDoesNotExist resultId))
    ∨ ∃ queue taskId e, decodeResultId resultId = .ok (queue, taskId) ∧ queue ∈ b.queues
      ∧ (fetchTaskAndRun py p.ids registry db queue taskId resultId).1 = .error e
      ∧ (getResult p py b backend db (n + 1) registry resultId).1 = .error e
  := by
  rw [getResult]
  cases hdecode : decodeResultId resultId with
  | error e =>
      rw [decodeResultId] at hdecode
      split at hdecode
      · cases hdecode
        left
        use fun _ _ h => by cases h
      · cases hdecode
  | ok parts =>
      obtain ⟨queue, taskId⟩ := parts
      by_cases hqueue : queue ∈ b.queues
      · rw [readFound, hdecode] at hrow
        simp only [hqueue, if_true] at hrow
        right
        split at hrow
        · rename_i e hfetch
          refine ⟨queue, taskId, e, rfl, hqueue, hfetch, ?_⟩
          simp only [hqueue, not_true, if_false]
          generalize fetchTaskAndRun py p.ids registry db queue taskId resultId = fetched at hfetch ⊢
          obtain ⟨outcome, registry'⟩ := fetched
          obtain rfl : outcome = _ := hfetch
          rfl
        · cases hrow
      · left
        simp only [hqueue, not_false_eq_true, if_true, and_true]
        rintro _ _ ⟨⟩
        exact hqueue

/-- Where the way ends, Python's recursion does not. -/
theorem ne_recursionError_of_end (backend : String) {a : Registry × String}
    (hend : redirect p py b db a = none) :
  (getResult p py b backend db 1 a.1 a.2).1 ≠ .error .recursionError
  := by
  cases hfound : readFound p py b db a.1 a.2 with
  | none =>
      rcases getResult_of_not_found backend 0 hfound with
        ⟨-, hanswer⟩ | ⟨_, _, e, -, -, hfetch, hanswer⟩
      · rw [hanswer]
        rintro ⟨⟩
      · rw [hanswer]
        rintro ⟨⟩
        change readTaskAndRun p.ids _ _ _ _ = .error .recursionError at hfetch
        rw [readTaskAndRun] at hfetch
        split at hfetch
        · cases hfetch
        · split at hfetch
          · cases hfetch
          · split at hfetch <;> cases hfetch
  | some found =>
      obtain ⟨row, run⟩ := found
      obtain ⟨workerIds, hanswer⟩ := getResult_of_found backend 0 a hend hfound
      obtain ⟨queue, taskId, -, hdecode, -, -⟩ := readFound_eq_some.mp hfound
      rw [hanswer]
      intro hcut
      rcases error_of_buildTaskResult hdecode hcut with h | h | h | h | ⟨-, -, message, h⟩ <;>
        cases h

end

/-- An answer that is not the end of Python's recursion is given where the way from the id
ends, within the depth the recursion may reach. -/
theorem answer_iff (p : Project) (py : PythonLower) (b : Backend) (backend : String)
    (db : Database) {P : Except ResultError TaskResult → Prop} (hcut : ¬ P (.error .recursionError))
    (depth : ℕ) (registry : Registry) (resultId : String) :
  P (getResult p py b backend db depth registry resultId).1
    ↔ ∃ n a, n < depth ∧ Links.EndsIn (redirect p py b db) n (registry, resultId) a
      ∧ P (getResult p py b backend db 1 a.1 a.2).1
  := by
  constructor
  · intro hanswer
    by_cases hreached : ∃ n a, Links.EndsIn (redirect p py b db) n (registry, resultId) a
        ∧ n < depth
    · obtain ⟨n, a, hends, hdepth⟩ := hreached
      rw [getResult_of_endsIn backend hends hdepth] at hanswer
      exact ⟨n, a, hdepth, hends, hanswer⟩
    · let run : ℕ → Registry × String → Except ResultError TaskResult × Registry :=
        fun n a => getResult p py b backend db n a.1 a.2
      have hlink : ∀ n a a', redirect p py b db a = some a' → run (n + 1) a = run n a' :=
        fun n a a' h => getResult_of_redirect n a a' h
      change P (run depth (registry, resultId)).1 at hanswer
      obtain ⟨a, -, hreaches⟩ := Links.run_of_not_endsIn hlink depth
        (fun n a hends hdepth => hreached ⟨n, a, hends, hdepth⟩)
      rw [hreaches] at hanswer
      exact absurd hanswer hcut
  · rintro ⟨n, a, hdepth, hends, hanswer⟩
    rw [getResult_of_endsIn backend hends hdepth]
    exact hanswer

/-! ### The documented answers -/

/-- The tables of the declared queues are there. -/
def Intact (b : Backend) (db : Database) : Prop :=
  ∀ queue ∈ b.queues, (db.tasks (dbTable tasksSpec queue)).isSome = true
    ∧ (db.runs (dbTable runsSpec queue)).isSome = true

/-- The function of a row is routable to the queue, the reason of a failure is readable, and its
call can be read. -/
def Callable (p : Project) (b : Backend) (backend queue : String) (row : TaskRow)
    (run : Option RunRow) : Prop :=
  Routable p b backend queue (callerPath row) ∧ ReasonReadable row run
    ∧ (callerCall row).isSome = true

section

variable {p : Project} {py : PythonLower} {b : Backend} {backend : String} {db : Database}

/-- The models of declared queues are of tables of declared queues. -/
theorem model_registryAfter (py : PythonLower) {S : Set String} {history : List (EntitySpec × String)}
    (hhistory : ∀ a ∈ history, a ∈ callsFor S) {spec : EntitySpec} (hspec : spec ∈ adminEntitySpecs)
    {queue : String} (hqueue : queue ∈ S) :
  ∃ queue' ∈ S, (buildQueueTableModel py (registryAfter py history) spec queue).1
      = queueTableModel (spec, queue')
    ∧ registryKey py (spec, queue') = registryKey py (spec, queue)
  := by
  rw [buildQueueTableModel, Memo.call_fst]
  cases hkept : Memo.lookup (registryAfter py history) (registryKey py (spec, queue)) with
  | none => exact ⟨queue, hqueue, rfl, rfl⟩
  | some model =>
      rcases Memo.lookup_calls history hkept with hnone | ⟨⟨spec', queue'⟩, ha, hkey, rfl⟩
      · cases hnone
      · obtain ⟨hspec', hqueue'⟩ := hhistory _ ha
        obtain ⟨rfl, -⟩ := (registryKey_eq_iff py hspec' hspec queue' queue).mp hkey
        exact ⟨queue', hqueue', rfl, hkey⟩

/-- Models that are built go on with the history. -/
theorem buildModels_registryAfter (py : PythonLower) (history models : List (EntitySpec × String)) :
  buildModels py (registryAfter py history) models = registryAfter py (history ++ models)
  := by
  rw [registryAfter, registryAfter, buildModels, Memo.calls, Memo.calls, Memo.calls,
    List.foldl_append]

/-- A process that has built models for the declared queues. -/
def Known (py : PythonLower) (b : Backend) (registry : Registry) : Prop :=
  ∃ history, (∀ a ∈ history, a ∈ callsFor {queue | queue ∈ b.queues})
    ∧ registry = registryAfter py history

theorem Known.buildModels {registry : Registry} (h : Known py b registry)
    {models : List (EntitySpec × String)}
    (hmodels : ∀ a ∈ models, a ∈ callsFor {queue | queue ∈ b.queues}) :
  Known py b (DjangoAbsurd.buildModels py registry models)
  := by
  obtain ⟨history, hhistory, rfl⟩ := h
  refine ⟨history ++ models, ?_, buildModels_registryAfter py history models⟩
  intro a ha
  rcases List.mem_append.mp ha with ha | ha
  · exact hhistory a ha
  · exact hmodels a ha

/-- A model of a declared queue's runs, or tasks, is of a table that is there. -/
theorem Known.isSome {registry : Registry} (h : Known py b registry) (hintact : Intact b db)
    {queue : String} (hqueue : queue ∈ b.queues) :
  (db.tasks (buildQueueTableModel py registry tasksSpec queue).1.dbTable).isSome = true
    ∧ (db.runs (buildQueueTableModel py registry runsSpec queue).1.dbTable).isSome = true
  := by
  obtain ⟨history, hhistory, rfl⟩ := h
  constructor
  · obtain ⟨queue', hqueue', hmodel, -⟩ := model_registryAfter py hhistory tasksSpec_mem hqueue
    rw [hmodel]
    apply (hintact queue' hqueue').1
  · obtain ⟨queue', hqueue', hmodel, -⟩ := model_registryAfter py hhistory runsSpec_mem hqueue
    rw [hmodel]
    apply (hintact queue' hqueue').2

end

/-- What the settings of a backend declare of queues: the names of the top-level `QUEUES`, and
those of `OPTIONS["QUEUES"]`, where they are there. -/
structure QueuesConfig where
  topLevel : Option (List String)
  options : Option (List String)

/-- The queues of `AbsurdBackend.__init__`, where Django's own default is the queue `default`. -/
def QueuesConfig.initQueues (settings : QueuesConfig) : List String :=
  settings.options.getD (settings.topLevel.getD ["default"])

/-- The models a process has for a queue read a row and its last run: their tables are there,
and the tasks' holds the row. -/
structure Holds (py : PythonLower) (registry : Registry) (db : Database) (queue : String)
    (id : Uuid) (row : TaskRow) (run : Option RunRow) : Prop where
  tasks : (db.tasks (buildQueueTableModel py registry tasksSpec queue).1.dbTable).bind
    (fun tasks => tasks.get? id) = some row
  runs : (db.runs (buildQueueTableModel py (buildModels py registry [(tasksSpec, queue)])
    runsSpec queue).1.dbTable).map (fun runs => row.lastAttemptRun.bind runs.get?) = some run

/-- An id names a row that is read, and that is callable on its queue. -/
def NamesCallable (p : Project) (py : PythonLower) (b : Backend) (backend : String)
    (db : Database) (a : Registry × String) : Prop :=
  ∃ queue taskId row run, decodeResultId a.2 = .ok (queue, taskId)
    ∧ readFound p py b db a.1 a.2 = some (row, run) ∧ Callable p b backend queue row run

section

variable {p : Project} {py : PythonLower} {b : Backend} {backend queue : String} {db : Database}
  {registry : Registry}

/-- A row is read under its id where the backend takes the queue and the models read it. -/
theorem readFound_buildResultId {id : Uuid} {row : TaskRow} {run : Option RunRow} :
  readFound p py b db registry (buildResultId p queue id) = some (row, run)
    ↔ queue ∈ b.queues ∧ Holds py registry db queue id row run
  := by
  have hfetch : (fetchTaskAndRun py p.ids registry db queue (p.ids.print id)
      (buildResultId p queue id)).1
      = readTaskAndRun p.ids
          (db.tasks (buildQueueTableModel py registry tasksSpec queue).1.dbTable)
          (db.runs (buildQueueTableModel py (buildModels py registry [(tasksSpec, queue)])
            runsSpec queue).1.dbTable) (p.ids.print id) (buildResultId p queue id) := rfl
  rw [readFound, decodeResultId_buildResultId]
  simp only [hfetch, readTaskAndRun, p.ids.parse_print]
  rw [Option.ite_none_right_eq_some]
  apply and_congr_right
  intro _
  constructor
  · intro h
    split at h
    · cases h
    · rename_i found hfound
      split at hfound
      · cases hfound
      · rename_i task htask
        split at hfound
        · cases hfound
        · rename_i runs hruns
          cases hfound
          obtain ⟨rfl, rfl⟩ := Prod.mk.inj (Option.some.inj h)
          use htask
          rw [hruns]
          rfl
  · rintro ⟨htasks, hruns⟩
    obtain ⟨runs, hfound, rfl⟩ := Option.map_eq_some_iff.mp hruns
    rw [htasks, hfound]

/-- Where the way ends, the answer is a result exactly when the id names a callable row. -/
theorem isOk_of_end {a : Registry × String} (hb : p.backends backend = some b)
    (hend : redirect p py b db a = none) :
  (∃ result, (getResult p py b backend db 1 a.1 a.2).1 = .ok result)
    ↔ NamesCallable p py b backend db a
  := by
  cases hfound : readFound p py b db a.1 a.2 with
  | none =>
      have hnames : ¬ NamesCallable p py b backend db a := by
        rintro ⟨_, _, row, run, -, hsome, -⟩
        rw [hfound] at hsome
        cases hsome
      simp only [hnames, iff_false]
      rintro ⟨result, hresult⟩
      rcases getResult_of_not_found backend 0 hfound with
        ⟨-, hanswer⟩ | ⟨_, _, _, -, -, -, hanswer⟩
      · rw [hanswer] at hresult
        cases hresult
      · rw [hanswer] at hresult
        cases hresult
  | some found =>
      obtain ⟨row, run⟩ := found
      obtain ⟨workerIds, hanswer⟩ := getResult_of_found backend 0 a hend hfound
      obtain ⟨queue, taskId, -, hdecode, hqueue, -⟩ := readFound_eq_some.mp hfound
      rw [hanswer, buildTaskResult_isOk_iff hb hqueue hdecode]
      constructor
      · intro hcallable
        exact ⟨queue, taskId, row, run, hdecode, hfound, hcallable⟩
      · rintro ⟨queue', taskId', row', run', hdecode', hfound', hcallable⟩
        rw [hdecode] at hdecode'
        rw [hfound] at hfound'
        cases hdecode'
        cases hfound'
        exact hcallable

/-- An id gives a result exactly when the way from it ends in time, at an id that names a callable
row. -/
theorem result_iff (hb : p.backends backend = some b) (depth : ℕ) (resultId : String) :
  (∃ result, (getResult p py b backend db depth registry resultId).1 = .ok result)
    ↔ ∃ n a, n < depth ∧ Links.EndsIn (redirect p py b db) n (registry, resultId) a
      ∧ NamesCallable p py b backend db a
  := by
  rw [answer_iff (P := fun answer => ∃ result, answer = .ok result) p py b backend db
    (by rintro ⟨_, ⟨⟩⟩)]
  apply exists₂_congr
  intro n a
  apply and_congr_right
  intro _
  apply and_congr_right
  intro hends
  apply isOk_of_end hb hends.2

/-- An id of a row that is read names a callable row exactly when the row is callable. -/
theorem namesCallable_buildResultId {id : Uuid} {row : TaskRow} {run : Option RunRow}
    (hfound : readFound p py b db registry (buildResultId p queue id) = some (row, run)) :
  NamesCallable p py b backend db (registry, buildResultId p queue id)
    ↔ Callable p b backend queue row run
  := by
  have hdecode := decodeResultId_buildResultId p queue id
  constructor
  · rintro ⟨queue', taskId, row', run', hdecode', hfound', hcallable⟩
    rw [hdecode] at hdecode'
    rw [hfound] at hfound'
    cases hdecode'
    cases hfound'
    exact hcallable
  · intro hcallable
    exact ⟨queue, p.ids.print id, row, run, hdecode, hfound, hcallable⟩

/-- The id of a row that is read gives a result exactly when the row is callable; for a completed
wrapper, when the way from its payload ends in time at an id that names a callable row. -/
theorem result_iff_of_found (hb : p.backends backend = some b) (depth : ℕ) {id : Uuid}
    {row : TaskRow} {run : Option RunRow}
    (hfound : readFound p py b db registry (buildResultId p queue id) = some (row, run)) :
  (∃ result, (getResult p py b backend db (depth + 1) registry (buildResultId p queue id)).1
      = .ok result)
    ↔ if isCompletedWrapper row then
        ∃ n a, n < depth
          ∧ Links.EndsIn (redirect p py b db) n
            (buildModels py registry [(tasksSpec, queue), (runsSpec, queue)], payloadText p row) a
          ∧ NamesCallable p py b backend db a
      else Callable p b backend queue row run
  := by
  have hrow := readRow_eq_some.mpr ⟨run, hfound⟩
  have hmodels : readModels (buildResultId p queue id)
      = [(tasksSpec, queue), (runsSpec, queue)] := by
    rw [readModels, decodeResultId_buildResultId]
  rw [result_iff hb]
  cases hcompleted : isCompletedWrapper row with
  | true =>
      have hnext : redirect p py b db (registry, buildResultId p queue id) = some
          (buildModels py registry [(tasksSpec, queue), (runsSpec, queue)],
            payloadText p row) := by
        rw [redirect, hrow, Option.bind_some, hcompleted, if_pos rfl, hmodels]
      rw [Links.endsIn_within_of_some depth hnext, if_pos rfl]
  | false =>
      have hnext : redirect p py b db (registry, buildResultId p queue id) = none := by
        rw [redirect, hrow, Option.bind_some, hcompleted, if_neg Bool.false_ne_true]
      rw [Links.endsIn_within_of_none depth hnext, namesCallable_buildResultId hfound,
        if_neg Bool.false_ne_true]

/-- An id under which no row is read gives no result. -/
theorem not_result_of_not_found (hb : p.backends backend = some b) (depth : ℕ)
    {resultId : String} (hfound : readFound p py b db registry resultId = none) :
  ¬ ∃ result, (getResult p py b backend db (depth + 1) registry resultId).1 = .ok result
  := by
  have hnext : redirect p py b db (registry, resultId) = none := by
    rw [redirect, readRow_eq_none.mpr hfound, Option.bind_none]
  rw [result_iff hb, Links.endsIn_within_of_none depth hnext]
  rintro ⟨_, _, row, run, -, hsome, -⟩
  rw [hfound] at hsome
  cases hsome

end

/-- The writer takes every queue of a backend that declares none, the reader takes none of them. -/
theorem mem_queues_iff_of_enqueued {p : Project} {b : Backend} {config : AbsurdConfig} {t : Task}
    {spawn : Spawn} {now : Time} {args : List PyValue} {kwargs : Kwargs} {result : TaskResult}
    (hb : p.backends t.backend = some b) (hconfig : b.absurd = some config)
    (henqueue : t.enqueue p spawn now args kwargs = .ok result) :
  t.queueName ∈ b.queues ↔ b.queues ≠ []
  := by
  have hvalid := ((enqueue_isOk_iff hb hconfig).mp ⟨result, henqueue⟩).2.1
  rw [Backend.validates, Bool.and_eq_true, Bool.or_eq_true, decide_eq_true_eq,
    decide_eq_true_eq] at hvalid
  constructor
  · exact fun hmem => List.ne_nil_of_mem hmem
  · exact fun hne => hvalid.2.resolve_left hne

/-- The id an enqueue has returned gives a result exactly when the backend declares a queue at
all, the models of the process read the row, and the row is callable; for a completed wrapper,
when the way from its payload ends within the depth Python's recursion may reach, at an id that
names a callable row. -/
theorem readBack_iff (p : Project) (py : PythonLower) {b : Backend} (settings : QueuesConfig)
    {config : AbsurdConfig} {t : Task} {spawn : Spawn} {now : Time} {args : List PyValue}
    {kwargs : Kwargs} {result : TaskResult} (db : Database) (registry : Registry) (depth : ℕ)
    (hb : p.backends t.backend = some b) (hconfig : b.absurd = some config)
    (hqueues : b.queues = settings.initQueues)
    (henqueue : t.enqueue p spawn now args kwargs = .ok result) :
  (∃ result', (getResult p py b t.backend db (depth + 1) registry result.id).1 = .ok result')
    ↔ settings.initQueues ≠ [] ∧ ∃ id row run, result.id = buildResultId p t.queueName id
      ∧ Holds py registry db t.queueName id row run
      ∧ if isCompletedWrapper row then
          ∃ n a, n < depth
            ∧ Links.EndsIn (redirect p py b db) n
              (buildModels py registry [(tasksSpec, t.queueName), (runsSpec, t.queueName)],
                payloadText p row) a
            ∧ NamesCallable p py b t.backend db a
        else Callable p b t.backend t.queueName row run
  := by
  obtain ⟨request, id, -, -, -, -, hid⟩ := enqueue_eq_ok hb hconfig henqueue
  change result.id = buildResultId p t.queueName id at hid
  have hreads : ∀ row run, readFound p py b db registry (buildResultId p t.queueName id)
      = some (row, run)
      ↔ settings.initQueues ≠ [] ∧ Holds py registry db t.queueName id row run := by
    intro row run
    rw [readFound_buildResultId, mem_queues_iff_of_enqueued hb hconfig henqueue, hqueues]
  rw [hid]
  constructor
  · intro hresult
    cases hfound : readFound p py b db registry (buildResultId p t.queueName id) with
    | none => exact absurd hresult (not_result_of_not_found hb depth hfound)
    | some found =>
        obtain ⟨row, run⟩ := found
        obtain ⟨hne, hholds⟩ := (hreads row run).mp hfound
        exact ⟨hne, id, row, run, rfl, hholds, (result_iff_of_found hb depth hfound).mp hresult⟩
  · rintro ⟨hne, id', row, run, hid', hholds, hcallable⟩
    obtain rfl := buildResultId_injective hid'
    exact (result_iff_of_found hb depth ((hreads row run).mpr ⟨hne, hholds⟩)).mpr hcallable

/-! ### A backend that declares no queues -/

/-- An Absurd backend that takes any function, with the queues its settings declare. -/
def declaringBackend (settings : QueuesConfig) : Backend :=
  { absurdBackend with queues := settings.initQueues }

/-- The project of `tasks.add` on that backend. -/
def declaringProject (settings : QueuesConfig) : Project :=
  { addProject with backends := fun _ => some (declaringBackend settings) }

/-- `client.spawn`, of the first row of a queue. -/
def spawnFirst : Spawn := fun _ => .ok ⟨0⟩

/-- The queue with the row that `tasks.add` spawns. -/
def firstSpawned : QueueState :=
  insertSpawned (.create .unpartitioned) 0
    (spawnedTask (.create .unpartitioned) 0 "tasks.add" emptyCall ⟨none, none, none, none, none⟩)

/-- The result of the enqueue. -/
def addEnqueued : TaskResult where
  task := addTask .absurdTask "absurd"
  id := "default:"
  status := .ready
  enqueuedAt := some 0
  startedAt := none
  finishedAt := none
  lastAttemptedAt := none
  args := .list []
  kwargs := .dict []
  backend := "absurd"
  errors := []
  workerIds := []
  returnValue := none

theorem enqueue_declaringProject (settings : QueuesConfig)
    (h : settings.initQueues = [] ∨ settings.initQueues = ["default"]) :
  (addTask .absurdTask "absurd").enqueue (declaringProject settings) spawnFirst 0 [] []
    = .ok addEnqueued
  := by
  have hvalid : (declaringBackend settings).validates (addTask .absurdTask "absurd") = true := by
    rcases h with h | h
    · simp [declaringBackend, Backend.validates, h, absurdBackend]
    · simp [declaringBackend, Backend.validates, h, absurdBackend, addTask]
  have henqueue : (addTask .absurdTask "absurd").enqueue (declaringProject settings) spawnFirst 0
      [] [] = absurdEnqueue (declaringProject settings) spawnFirst 0 (declaringBackend settings)
        ⟨"default", 5, ["default"]⟩ (addTask .absurdTask "absurd") [] [] := rfl
  rw [henqueue, absurdEnqueue, if_pos hvalid]
  rfl

/-- The settings leave `QUEUES` out. -/
theorem readBack_iff_omitted :
  ∃ result', (getResult (declaringProject ⟨none, none⟩) asciiLower (declaringBackend ⟨none, none⟩)
    "absurd" (databaseOf firstSpawned) 1 [] addEnqueued.id).1 = .ok result'
  := by
  have hrow : firstSpawned.tasks.get? ⟨0⟩ = some (spawnedTask (.create .unpartitioned) 0
      "tasks.add" emptyCall ⟨none, none, none, none, none⟩) := rfl
  apply (readBack_iff (declaringProject ⟨none, none⟩) asciiLower ⟨none, none⟩
    (databaseOf firstSpawned) [] 0 rfl rfl rfl
    (enqueue_declaringProject ⟨none, none⟩ (.inr rfl))).mpr
  refine ⟨by decide, ⟨0⟩, _, _, rfl, ⟨hrow, rfl⟩, ?_⟩
  rw [if_neg (by decide)]
  exact ⟨⟨addTask .absurdTask "absurd", rfl, .inl ⟨rfl, rfl⟩⟩,
    reasonReadable_of_ne_failed (by decide) _, rfl⟩

/-- A backend with empty `QUEUES` enqueues a task on a queue that is there, and gives no result
for its id. -/
theorem undeclared_not_readBack :
  ¬ ∀ (p : Project) (py : PythonLower) (b : Backend) (settings : QueuesConfig)
      (config : AbsurdConfig) (t definition : Task) (spawn : Spawn) (now : Time)
      (args : List PyValue) (kwargs : Kwargs) (result : TaskResult) (db : Database)
      (registry : Registry) (depth : ℕ) (id : Uuid) (row : TaskRow) (s : QueueState),
      p.backends t.backend = some b → b.absurd = some config → b.queues = settings.initQueues →
      t.enqueue p spawn now args kwargs = .ok result →
      result.id = buildResultId p t.queueName id → Reads py registry db t.queueName s →
      s.tasks.get? id = some row → isDeferredWrapper row = false →
      p.importString row.taskName = some definition →
      ∃ result', (getResult p py b t.backend db (depth + 1) registry result.id).1 = .ok result'
  := by
  intro h
  obtain ⟨result', hresult⟩ := h (declaringProject ⟨none, some []⟩) asciiLower
    (declaringBackend ⟨none, some []⟩) ⟨none, some []⟩ _ (addTask .absurdTask "absurd")
    (addTask .absurdTask "absurd") spawnFirst 0 [] [] addEnqueued (databaseOf firstSpawned) [] 0
    ⟨0⟩ _ firstSpawned rfl rfl rfl (enqueue_declaringProject _ (.inl rfl)) rfl
    (reads_databaseOf firstSpawned) rfl (by decide) rfl
  cases hresult

end DjangoAbsurd
