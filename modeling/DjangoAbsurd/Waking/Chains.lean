import DjangoAbsurd.Answers
import DjangoAbsurd.Waking.Targets

/-!
# Where the ids of wrappers lead

A completed wrapper has the id of the task its wake enqueued. Keys are the callers' to choose,
so the spawn of a wake may return any task of the queue that has the key, and that task may be
another wrapper. A wrapper's own key is the one its wake sends with a suffix, so the keys that
are sent get shorter on the way from wrapper to wrapper: `get_result` comes to an end.

`QueueLeads` is what the tables of a queue have to say for this, and `WakingState.Leads` what
they and the attempts under way have to, whatever is enqueued with whatever key, and in
whatever order the attempts and the other calls of the engine go on.
-/

namespace DjangoAbsurd

open Engine

/-! ### What a wake sends -/

namespace WakingSetup

variable (setup : WakingSetup)

/-- What a wrapper carries, and the task it wakes to enqueue. -/
def wakeTarget (name : String) (params : Json) : Option (DeferredSpec × Task) :=
  (readDeferredSpec setup.project params).bind (fun spec =>
    (deferredTarget setup.project (removeSuffix name deferNameSuffix) spec.queue
      spec.options).toOption.map (fun t => (spec, t)))

/-- The key the spawn of a wake asks for. -/
def wakeKey (name : String) (params : Json) : Option String :=
  (setup.wakeTarget name params).bind (fun target =>
    (setup.request target.2 target.1.args target.1.kwargs).bind (fun request =>
      (setup.sdk.call request).bind (fun call =>
        textMember call.optionsJson "idempotency_key")))

/-- An enqueue leaves the tables of the queue as they are, or spawns on them. -/
theorem enqueue_steps {elsewhere : Spawn} {s s' : QueueState} {now : Time} {t : Task}
    {args : List PyValue} {kwargs : Kwargs} {result : TaskResult}
    (h : setup.enqueue elsewhere s now t args kwargs = .ok (s', result)) :
  s' = s ∨ ∃ b config request call, setup.project.backends t.backend = some b
    ∧ b.absurd = some config ∧ spawnRequest setup.project config t args kwargs = .ok request
    ∧ setup.Reaches request ∧ setup.sdk.call request = some call
    ∧ Engine.step setup.pg s (.spawn now call.name call.params call.optionsJson) = some s'
  := by
  obtain ⟨result', -, heq⟩ := Except.map_eq_ok h
  obtain ⟨hafter, rfl⟩ := Prod.mk.inj heq
  cases hmade : setup.request t args kwargs with
  | none =>
      rw [hmade] at hafter
      exact .inl hafter.symm
  | some request =>
      rw [hmade, Option.map_some, Option.getD_some, after] at hafter
      split at hafter
      · rename_i hreaches
        split at hafter
        · exact .inl hafter.symm
        · rename_i call hcall
          split at hafter
          · exact .inl hafter.symm
          · rename_i s₁ spawned hexecute
            subst hafter
            right
            obtain ⟨b, hb, hmade⟩ := Option.bind_eq_some_iff.mp hmade
            obtain ⟨config, hconfig, hmade⟩ := Option.bind_eq_some_iff.mp hmade
            exact ⟨b, config, request, call, hb, hconfig, Except.toOption_eq_some.mp hmade, hreaches,
              hcall, congrArg (fun x => (Except.map Prod.fst x).toOption) hexecute⟩
      · exact .inl hafter.symm

end WakingSetup

/-- No definition is deferred or has the name of a wrapper, and the SDK sends a key as it is
when it sends it. -/
structure PlainDefinitions (setup : WakingSetup) : Prop where
  immediate : ∀ path definition, setup.project.importString path = some definition →
    definition.runAfter = none
  plain : ∀ path definition, setup.project.importString path = some definition →
    endsWith definition.modulePath deferNameSuffix = false
  sent : ∀ key j, setup.sdk.normalize .idempotencyKey (.str key) = some (some j) → j = .str key

/-- What a wrapper is spawned with: it carries the queue it is on, and its key, if it has one,
is the one its wake sends with the suffix. -/
structure SentAs (setup : WakingSetup) (name : String) (params : Json) (key : Option String) :
    Prop where
  queue : ∀ spec, readDeferredSpec setup.project params = some spec → spec.queue = setup.queue
  key : key = none ∨ ∀ key', setup.wakeKey name params = some key' →
    key = some (key' ++ deferNameSuffix)

section

variable {setup : WakingSetup} {t : Task}

/-- The call of a request with a text key has that key, or none. -/
theorem key_of_call (hplain : PlainDefinitions setup) {request : SpawnRequest} {call : SpawnCall}
    {key key' : String} (hkey : request.options .idempotencyKey = some (.str key))
    (hcall : setup.sdk.call request = some call)
    (h : textMember call.optionsJson "idempotency_key" = some key') :
  key' = key
  := by
  obtain ⟨-, -, -, hoptions⟩ := call_eq_some hcall
  cases hsent : call.options .idempotencyKey with
  | none =>
      rw [key_optionsJson_none hsent] at h
      cases h
  | some j =>
      have hjoin : (setup.sdk.normalize .idempotencyKey (.str key)).join = some j := by
        rw [← hsent, hoptions]
        simp only [hkey, Option.bind_some]
      rw [Option.join_eq_some_iff] at hjoin
      obtain rfl := hplain.sent key j hjoin
      rw [key_optionsJson hsent] at h
      exact (Option.some.inj h).symm

/-- A wake sends the key the wrapper carries, if it sends one. -/
theorem wakeKey_eq (hplain : PlainDefinitions setup) {name : String} {params : Json}
    {spec : DeferredSpec} {options : SpawnKwargs} {key key' : String}
    (hspec : readDeferredSpec setup.project params = some spec)
    (hoptions : spec.options = options.toDict)
    (hkey : options .idempotencyKey = some (.str key))
    (h : setup.wakeKey name params = some key') :
  key' = key
  := by
  obtain ⟨⟨spec', target⟩, htarget, hmade⟩ := Option.bind_eq_some_iff.mp h
  obtain ⟨request, hrequest, hsends⟩ := Option.bind_eq_some_iff.mp hmade
  obtain ⟨call, hcall, hsends⟩ := Option.bind_eq_some_iff.mp hsends
  rw [WakingSetup.wakeTarget, hspec, Option.bind_some] at htarget
  obtain ⟨target', htarget, heq⟩ := Option.map_eq_some_iff.mp htarget
  cases heq
  have htarget := Except.toOption_eq_some.mp htarget
  rw [hoptions] at htarget
  have hlayer := key_deferredTarget hkey htarget
  obtain ⟨definition, himport, -, -, -, hafter⟩ := deferredTarget_keeps htarget
  rw [hplain.immediate _ _ himport] at hafter
  obtain ⟨b, -, hrequest⟩ := Option.bind_eq_some_iff.mp hrequest
  obtain ⟨config, -, hrequest⟩ := Option.bind_eq_some_iff.mp hrequest
  have hsent := key_of_spawnRequest hlayer (Except.toOption_eq_some.mp hrequest)
  rw [hafter] at hsent
  exact key_of_call hplain hsent hcall hsends

/-- A deferred enqueue spawns a wrapper with what its wake needs. -/
theorem sentAs_enqueue (hplain : PlainDefinitions setup) {config : AbsurdConfig} {due : DateTime}
    {args : List PyValue} {kwargs : Kwargs} {request : SpawnRequest} {call : SpawnCall}
    (hdue : t.runAfter = some due) (hqueue : t.queueName = setup.queue)
    (htext : ∀ key, t.layer .idempotencyKey = some key → ∃ text, key = .str text)
    (hrequest : spawnRequest setup.project config t args kwargs = .ok request)
    (hcall : setup.sdk.call request = some call) :
  SentAs setup call.name call.params (textMember call.optionsJson "idempotency_key")
  := by
  obtain ⟨-, hname, hparams, hoptions⟩ := call_eq_some hcall
  obtain ⟨-, items, members, written, -, -, -, hspec⟩ := wrapper_carries hdue hrequest
  rw [hname, hparams]
  constructor
  · intro spec hspec'
    rw [hspec] at hspec'
    obtain rfl := Option.some.inj hspec'
    exact hqueue
  · cases hkey : t.layer .idempotencyKey with
    | none =>
        left
        apply key_optionsJson_none
        have hmerged : spawnOptions config t .idempotencyKey = none := by
          rw [spawnOptions_eq, overlay.apply, hkey]
          rfl
        rw [spawnRequest, prepareSpawn, hdue] at hrequest
        obtain ⟨-, hwritten, -⟩ := buildSpawnRequest_eq_ok hrequest
        obtain ⟨-, hwritten⟩ := dumpsOptions_eq_some.mp hwritten
        simp only [hoptions, hwritten, wrapperOptions, hmerged, Option.map_none, Option.bind_none]
    | some key =>
        obtain ⟨text, rfl⟩ := htext key hkey
        right
        intro key' hwake
        have hcarried : reloaded (spawnOptions config t) .idempotencyKey = some (.str text) := by
          rw [reloaded, spawnOptions_eq, overlay.apply, hkey]
          rfl
        obtain rfl := wakeKey_eq hplain hspec rfl hcarried hwake
        have hsent : setup.sdk.normalize .idempotencyKey
            (.str (spawnedKey t.runAfter.isSome key')) = some (some
              (.str (spawnedKey t.runAfter.isSome key'))) := by
          apply setup.sdk.normalize_key
          rw [hdue]
          intro hempty
          have hsuffix : deferNameSuffix ≠ "" := by decide
          exact hsuffix (String.append_eq_empty_iff.mp hempty).2
        rw [key_call hkey hsent hrequest hcall, hdue]
        rfl

end

/-! ### The tables of a queue -/

/-- The step of a wrapper that enqueues its target. -/
def wakeStep (name : String) : String := enqueueStep (removeSuffix name deferNameSuffix)

/-- The value is an id that was given outside the tables of the queue, or the id of a task that
was in them; if that is a wrapper, its key is the one the wake sends. -/
def Leads (setup : WakingSetup) (foreign : Set String) (s : QueueState) (name : String)
    (params : Json) (value : Option Json) : Prop :=
  ∃ text, value = some (.str text) ∧ (text ∈ foreign
    ∨ ∃ id, text = buildResultId setup.project setup.queue id ∧ id.index < s.drawn
      ∧ ∀ t ∈ s.tasks.rows, t.taskId = id → isDeferredWrapper t = true →
        ∃ key, t.idempotencyKey = some key ∧ setup.wakeKey name params = some key)

/-- The checkpoint of a wrapper's step leads on. -/
def CheckpointLeads (setup : WakingSetup) (foreign : Set String) (s : QueueState)
    (c : CheckpointRow) : Prop :=
  c.taskId.index < s.drawn ∧ ∀ t ∈ s.tasks.rows, t.taskId = c.taskId →
    isDeferredWrapper t = true → c.checkpointName = wakeStep t.taskName →
      Leads setup foreign s t.taskName t.params c.state

/-- The wait is not at a wrapper's step. -/
def WaitsElsewhere (s : QueueState) (id : Uuid) (stepName : String) : Prop :=
  id.index < s.drawn ∧ ∀ t ∈ s.tasks.rows, t.taskId = id → isDeferredWrapper t = true →
    stepName ≠ wakeStep t.taskName

/-- Every wrapper was spawned with what its wake needs, and what completed wrappers have and
what is recorded of the others leads on. -/
structure QueueLeads (setup : WakingSetup) (foreign : Set String) (s : QueueState) : Prop where
  sound : Engine.Sound s
  keyed : KeyedQueue s
  sent : ∀ t ∈ s.tasks.rows, isDeferredWrapper t = true →
    SentAs setup t.taskName t.params t.idempotencyKey
  payload : ∀ t ∈ s.tasks.rows, isCompletedWrapper t = true →
    Leads setup foreign s t.taskName t.params t.completedPayload
  checkpoints : ∀ c ∈ s.checkpoints.rows, CheckpointLeads setup foreign s c
  waits : ∀ w ∈ s.waits.rows, WaitsElsewhere s w.taskId w.stepName

section

variable {setup : WakingSetup} {foreign : Set String} {s s' : QueueState} {l : Label}

theorem isDeferredWrapper_of_origin {t t' : TaskRow} (h : t'.origin = t.origin) :
  isDeferredWrapper t' = isDeferredWrapper t
  := by
  obtain ⟨-, hname, -⟩ := TaskRow.eq_of_origin h
  rw [isDeferredWrapper, isDeferredWrapper, hname]

theorem isCompletedWrapper_iff {t : TaskRow} :
  isCompletedWrapper t = true ↔ isDeferredWrapper t = true ∧ t.state = .completed
  := by
  rw [isCompletedWrapper, decide_eq_true_eq]

/-- What leads on does so from then on. -/
theorem Leads.mono {name : String} {params : Json} {value : Option Json}
    (h : Leads setup foreign s name params value) (hcarries : Carries s s') :
  Leads setup foreign s' name params value
  := by
  obtain ⟨text, hvalue, hforeign | ⟨id, htext, hdrawn, hkey⟩⟩ := h
  · exact ⟨text, hvalue, .inl hforeign⟩
  · refine ⟨text, hvalue, .inr ⟨id, htext, hdrawn.trans_le hcarries.drawn, ?_⟩⟩
    intro t' ht' hid hwrapper
    obtain ⟨t, ht, horigin⟩ := hcarries.tasks t' ht' (hid ▸ hdrawn)
    obtain ⟨hsame, -, -, hkey'⟩ := TaskRow.eq_of_origin horigin
    rw [hkey']
    apply hkey t ht (hsame.symm.trans hid)
    rw [← isDeferredWrapper_of_origin horigin, hwrapper]

theorem CheckpointLeads.mono {c : CheckpointRow} (h : CheckpointLeads setup foreign s c)
    (hcarries : Carries s s') :
  CheckpointLeads setup foreign s' c
  := by
  use h.1.trans_le hcarries.drawn
  intro t' ht' hid hwrapper hname
  obtain ⟨t, ht, horigin⟩ := hcarries.tasks t' ht' (hid ▸ h.1)
  obtain ⟨hsame, hname', hparams, -⟩ := TaskRow.eq_of_origin horigin
  rw [hname', hparams]
  apply Leads.mono _ hcarries
  apply h.2 t ht (hsame.symm.trans hid)
  · rw [← isDeferredWrapper_of_origin horigin, hwrapper]
  · rw [hname, hname']

theorem WaitsElsewhere.mono {id : Uuid} {stepName : String} (h : WaitsElsewhere s id stepName)
    (hcarries : Carries s s') :
  WaitsElsewhere s' id stepName
  := by
  use h.1.trans_le hcarries.drawn
  intro t' ht' hid hwrapper
  obtain ⟨t, ht, horigin⟩ := hcarries.tasks t' ht' (hid ▸ h.1)
  obtain ⟨hsame, hname, -⟩ := TaskRow.eq_of_origin horigin
  rw [hname]
  apply h.2 t ht (hsame.symm.trans hid)
  rw [← isDeferredWrapper_of_origin horigin, hwrapper]

/-- A call that spawns wrappers with what their wakes need, completes wrappers with what leads
on, and records of their steps what leads on. -/
theorem QueueLeads.step (h : QueueLeads setup foreign s)
    (hspawns : ∀ now name params options, l = .spawn now name params options →
      endsWith name deferNameSuffix = true →
      SentAs setup name params (textMember options "idempotency_key"))
    (hcompletes : ∀ t ∈ s.tasks.rows, isDeferredWrapper t = true → ∀ payload,
      Completes s l t.taskId payload → Leads setup foreign s t.taskName t.params payload)
    (hcheckpoints : ∀ c ∈ s'.checkpoints.rows, CheckpointLeads setup foreign s c)
    (hwaits : ∀ w ∈ s'.waits.rows, WaitsElsewhere s w.taskId w.stepName)
    (hs : Engine.step setup.pg s l = some s') :
  QueueLeads setup foreign s' ∧ Carries s s'
  := by
  have hconsistent := h.keyed.consistent
  have hcarries := carries_step h.sound hconsistent hs
  refine ⟨?_, hcarries⟩
  constructor
  · apply sound_step h.sound hs
  · exact h.keyed.step hs
  · intro t' ht' hwrapper
    rcases rows_step hconsistent hs t' ht' with ⟨t, ht, horigin⟩ | ⟨-, -, hspawned⟩
    · obtain ⟨-, hname, hparams, hkey⟩ := TaskRow.eq_of_origin horigin
      rw [hname, hparams, hkey]
      apply h.sent t ht
      rw [← isDeferredWrapper_of_origin horigin, hwrapper]
    · rcases hspawned with ⟨now, options, hl, hkey⟩ | ⟨t, ht, hname, hparams, hkey⟩
      · rw [hkey]
        exact hspawns now _ _ options hl hwrapper
      · have hwrapper' : isDeferredWrapper t = true := by
          rw [isDeferredWrapper, ← hname]
          exact hwrapper
        rw [hname, hparams, hkey]
        exact ⟨(h.sent t ht hwrapper').queue, .inl rfl⟩
  · intro t' ht' hcompleted
    obtain ⟨hwrapper, hstate⟩ := isCompletedWrapper_iff.mp hcompleted
    rcases becomes_step h.sound hconsistent hs t' ht' with
      ⟨t, ht, horigin, hbecomes⟩ | ⟨-, hpending, -⟩
    · apply Leads.mono _ hcarries
      rcases hbecomes hstate with rfl | hcompletes'
      · exact h.payload t' ht hcompleted
      · obtain ⟨hid, hname, hparams, -⟩ := TaskRow.eq_of_origin horigin
        rw [hname, hparams]
        apply hcompletes t ht
        · rw [← isDeferredWrapper_of_origin horigin, hwrapper]
        · rw [← hid]
          exact hcompletes'
    · rw [hpending] at hstate
      cases hstate
  · exact fun c hc => (hcheckpoints c hc).mono hcarries
  · exact fun w hw => (hwaits w hw).mono hcarries

/-- A call that records steps of others leaves what is recorded of the wrappers. -/
theorem QueueLeads.recorded (h : QueueLeads setup foreign s)
    (hrecords : ∀ id stepName, l.Records id stepName → WaitsElsewhere s id stepName)
    (hs : Engine.step setup.pg s l = some s') :
  (∀ c ∈ s'.checkpoints.rows, CheckpointLeads setup foreign s c)
    ∧ ∀ w ∈ s'.waits.rows, WaitsElsewhere s w.taskId w.stepName
  := by
  have hrecorded := recorded_step hs
  have helsewhere : ∀ c : CheckpointRow, WaitsElsewhere s c.taskId c.checkpointName →
      CheckpointLeads setup foreign s c := by
    intro c hc
    exact ⟨hc.1, fun t ht hid hwrapper hname => absurd hname (hc.2 t ht hid hwrapper)⟩
  constructor
  · intro c hc
    rcases hrecorded.checkpoints c hc with hc | hl | ⟨w, hw, hid, hname⟩
    · exact h.checkpoints c hc
    · exact helsewhere c (hrecords _ _ hl)
    · apply helsewhere c
      rw [← hid, ← hname]
      exact h.waits w hw
  · intro w hw
    rcases hrecorded.waits w hw with hw | hl
    · exact h.waits w hw
    · exact hrecords _ _ hl

/-- A spawn, of a wrapper with what its wake needs or of another task. -/
theorem QueueLeads.spawn (h : QueueLeads setup foreign s) {now : Time} {name : String}
    {params options : Json} (hspawn : endsWith name deferNameSuffix = true →
      SentAs setup name params (textMember options "idempotency_key"))
    (hs : Engine.step setup.pg s (.spawn now name params options) = some s') :
  QueueLeads setup foreign s' ∧ Carries s s'
  := by
  obtain ⟨hcheckpoints, hwaits⟩ :=
    h.recorded (fun _ _ hl => absurd hl (not_records rfl _ _)) hs
  apply h.step _ _ hcheckpoints hwaits hs
  · rintro _ _ _ _ ⟨⟩
    exact hspawn
  · rintro t _ _ payload ⟨_, _, hl, -⟩
    cases hl

/-- An enqueue of a task whose name is no wrapper's, with a text key if it is deferred. -/
theorem QueueLeads.enqueue (hplain : PlainDefinitions setup) (h : QueueLeads setup foreign s)
    {elsewhere : Spawn} {now : Time} {t : Task} {args : List PyValue} {kwargs : Kwargs}
    {result : TaskResult} (hpath : endsWith t.modulePath deferNameSuffix = false)
    (htext : t.runAfter ≠ none → ∀ key, t.layer .idempotencyKey = some key →
      ∃ text, key = .str text)
    (henqueue : setup.enqueue elsewhere s now t args kwargs = .ok (s', result)) :
  QueueLeads setup foreign s' ∧ Carries s s'
  := by
  rcases setup.enqueue_steps henqueue with
    rfl | ⟨b, config, request, call, -, -, hrequest, hreaches, hcall, hs⟩
  · exact ⟨h, .refl _⟩
  · apply h.spawn _ hs
    intro hwrapper
    obtain ⟨-, hname, -⟩ := call_eq_some hcall
    cases hafter : t.runAfter with
    | none =>
        rw [hname, name_spawnRequest hafter hrequest, hpath] at hwrapper
        cases hwrapper
    | some due =>
        obtain ⟨-, -, -, -, hrequestQueue⟩ := buildSpawnRequest_eq_ok hrequest
        apply sentAs_enqueue hplain hafter (hrequestQueue.symm.trans hreaches.2) _ hrequest hcall
        apply htext
        rw [hafter]
        exact Option.some_ne_none due

end

/-! ### The attempts -/

/-- A call that spawns no task under a wrapper's name, completes no wrapper and records no
wrapper's step: that is for the enqueues and the attempts. -/
structure Outside (s : QueueState) (l : Label) : Prop where
  spawns : ∀ now name params options, l = .spawn now name params options →
    endsWith name deferNameSuffix = false
  completes : ∀ t ∈ s.tasks.rows, isDeferredWrapper t = true → ∀ payload,
    ¬ Completes s l t.taskId payload
  records : ∀ id stepName, l.Records id stepName → WaitsElsewhere s id stepName

/-- The task a wrapper wakes to enqueue goes through an Absurd backend on the database of the
queue. -/
def WakesInto (setup : WakingSetup) (name : String) (params : Json) : Prop :=
  ∃ spec t, setup.wakeTarget name params = some (spec, t) ∧ WakesHere setup t

/-- Wrappers are spawned by enqueues and completed by attempts alone, and what is given outside
the tables of the queue is among the ids given there. Any task may be enqueued, with any text
for a key. -/
def WakingLabel.Orderly (setup : WakingSetup) (foreign : Set String) (S : WakingState) :
    WakingLabel → Prop
  | .call l => Outside S.queue l
  | .enqueue _ t _ _ _ => endsWith t.modulePath deferNameSuffix = false
      ∧ ∀ key, t.layer .idempotencyKey = some key → ∃ text, key = .str text
  | .wake n now elsewhere => ∀ a s result, S.attempts n = some a →
      ¬ WakesInto setup a.name a.params →
      setup.wake elsewhere S.queue now a.name a.params = .ok (s, result) → result.id ∈ foreign
  | _ => True

/-- What an attempt has of the step. -/
def WakingPhase.value : WakingPhase → Option Json
  | .enqueuing => none
  | .enqueued id => some (.str id)
  | .returned value => some value

/-- The attempt is one of a task of the queue, and what it has of the step leads on. -/
structure AttemptLeads (setup : WakingSetup) (foreign : Set String) (s : QueueState)
    (a : WakingAttempt) : Prop where
  runDrawn : a.run.index < s.drawn
  run : ∀ r ∈ s.runs.rows, r.runId = a.run → r.taskId = a.task
  taskDrawn : a.task.index < s.drawn
  task : ∀ t ∈ s.tasks.rows, t.taskId = a.task → t.taskName = a.name ∧ t.params = a.params
  queue : ∀ spec, readDeferredSpec setup.project a.params = some spec → spec.queue = setup.queue
  value : ∀ value, a.phase.value = some value →
    Leads setup foreign s a.name a.params (some value)

/-- The tables and all attempts under way lead on. -/
structure WakingState.Leads (setup : WakingSetup) (foreign : Set String) (S : WakingState) :
    Prop where
  queue : QueueLeads setup foreign S.queue
  attempts : ∀ n a, S.attempts n = some a → AttemptLeads setup foreign S.queue a

section

variable {setup : WakingSetup} {foreign : Set String} {s s' : QueueState} {S S' : WakingState}
  {a : WakingAttempt}

theorem AttemptLeads.mono (h : AttemptLeads setup foreign s a) (hcarries : Carries s s') :
  AttemptLeads setup foreign s' a
  where
  runDrawn := h.runDrawn.trans_le hcarries.drawn
  run := by
    intro r' hr' hid
    obtain ⟨r, hr, hsame, htask⟩ := hcarries.runs r' hr' (hid ▸ h.runDrawn)
    rw [htask]
    apply h.run r hr (hsame.symm.trans hid)
  taskDrawn := h.taskDrawn.trans_le hcarries.drawn
  task := by
    intro t' ht' hid
    obtain ⟨t, ht, horigin⟩ := hcarries.tasks t' ht' (hid ▸ h.taskDrawn)
    obtain ⟨hsame, hname, hparams, -⟩ := TaskRow.eq_of_origin horigin
    rw [hname, hparams]
    apply h.task t ht (hsame.symm.trans hid)
  queue := h.queue
  value := fun value hvalue => (h.value value hvalue).mono hcarries

/-- The attempt goes on with a value that leads on. -/
theorem AttemptLeads.setPhase (h : AttemptLeads setup foreign s a) {phase : WakingPhase}
    (hvalue : ∀ value, phase.value = some value →
      DjangoAbsurd.Leads setup foreign s a.name a.params (some value)) :
  AttemptLeads setup foreign s { a with phase }
  := ⟨h.runDrawn, h.run, h.taskDrawn, h.task, h.queue, hvalue⟩

theorem WakingState.Leads.setQueue (h : S.Leads setup foreign)
    (hs : QueueLeads setup foreign s ∧ Carries S.queue s) :
  WakingState.Leads setup foreign { S with queue := s }
  := ⟨hs.1, fun n a ha => (h.attempts n a ha).mono hs.2⟩

theorem WakingState.Leads.setAttempt (h : S.Leads setup foreign) (n : ℕ)
    {a : Option WakingAttempt} (ha : ∀ a', a = some a' → AttemptLeads setup foreign S.queue a') :
  (S.setAttempt n a).Leads setup foreign
  := by
  constructor
  · exact h.queue
  · exact WakingState.forall_setAttempt h.attempts n ha

theorem WakingState.Leads.crash (h : S.Leads setup foreign) (n : ℕ) :
  (S.setAttempt n none).Leads setup foreign
  := by
  apply h.setAttempt n
  rintro a ⟨⟩

/-- An attempt that comes to the step replays what leads on. -/
theorem QueueLeads.arrived (h : QueueLeads setup foreign s) {run : Uuid}
    (ha : WakingSetup.arrived s run = some a) :
  AttemptLeads setup foreign s a
  := by
  obtain ⟨r, hr, ha⟩ := Option.bind_eq_some_iff.mp ha
  obtain ⟨t, ht, ha⟩ := Option.bind_eq_some_iff.mp ha
  obtain ⟨hwrapper, ha⟩ := Option.ite_none_right_eq_some.mp ha
  have hrow := Keyed.Table.mem_of_get? hr
  have hmem := Keyed.Table.mem_of_get? ht
  have hkey := Keyed.Table.key_of_get? ht
  have harrives : AttemptLeads setup foreign s ⟨run, t.taskId, t.taskName, t.params, .enqueuing⟩ := by
    constructor
    · rw [← Keyed.Table.key_of_get? hr]
      exact h.keyed.consistent.runDrawn r hrow
    · intro r' hr' hid
      rw [Keyed.Table.eq_of_key_eq hr' hrow (hid.trans (Keyed.Table.key_of_get? hr).symm), hkey]
    · exact h.sound.drawn t hmem
    · intro t' ht' hid
      rw [Keyed.Table.eq_of_key_eq ht' hmem hid]
      exact ⟨rfl, rfl⟩
    · exact (h.sent t hmem hwrapper).queue
    · rintro value ⟨⟩
  dsimp only at ha
  split at ha
  · cases ha
    exact harrives
  · rename_i c hc
    cases ha
    apply harrives.setPhase
    intro value hvalue
    have hkeyOf : c.key = (t.taskId, wakeStep t.taskName) := Keyed.Table.key_of_get? hc
    obtain ⟨hid, hname⟩ := Prod.mk.inj hkeyOf
    have hleads := (h.checkpoints c (Keyed.Table.mem_of_get? hc)).2 t hmem hid.symm hwrapper hname
    obtain rfl := Option.some.inj hvalue
    obtain ⟨text, hstate, -⟩ := id hleads
    rw [hstate] at hleads ⊢
    exact hleads

/-- A call from outside the enqueues and the attempts. -/
theorem QueueLeads.outside (h : QueueLeads setup foreign s) {l : Label} (houtside : Outside s l)
    (hs : Engine.step setup.pg s l = some s') :
  QueueLeads setup foreign s' ∧ Carries s s'
  := by
  obtain ⟨hcheckpoints, hwaits⟩ := h.recorded houtside.records hs
  apply h.step _ _ hcheckpoints hwaits hs
  · intro now name params options hl hwrapper
    rw [houtside.spawns now name params options hl] at hwrapper
    cases hwrapper
  · intro t ht hwrapper payload hcompletes
    exact absurd hcompletes (houtside.completes t ht hwrapper payload)

/-- An attempt commits what leads on. -/
theorem QueueLeads.commit (h : QueueLeads setup foreign s) (ha : AttemptLeads setup foreign s a)
    {now : Time} {state : Option Json} {extendClaimBy : Option ℤ}
    (hstate : DjangoAbsurd.Leads setup foreign s a.name a.params state)
    (hcommit : setTaskCheckpointState s now a.task (wakeStep a.name) state a.run extendClaimBy
      = .ok s') :
  QueueLeads setup foreign s' ∧ Carries s s'
  := by
  have hs : Engine.step setup.pg s (.checkpoint now a.task (wakeStep a.name) state a.run
      extendClaimBy) = some s' := congrArg Except.toOption hcommit
  obtain ⟨hwaits, hcheckpoints⟩ := setTaskCheckpointState_eq_ok hcommit
  apply h.step _ _ _ (hwaits ▸ h.waits) hs
  · rintro _ _ _ _ ⟨⟩
  · rintro t _ _ payload ⟨_, _, hl, -⟩
    cases hl
  · intro c hc
    rcases hcheckpoints c hc with hc | ⟨hid, -, hrecorded⟩
    · exact h.checkpoints c hc
    · use hid ▸ ha.taskDrawn
      intro t ht hid' _ _
      obtain ⟨hname, hparams⟩ := ha.task t ht (hid'.trans hid)
      rw [hname, hparams, hrecorded]
      exact hstate

/-- An attempt completes with what leads on. -/
theorem QueueLeads.complete (h : QueueLeads setup foreign s) (ha : AttemptLeads setup foreign s a)
    {now : Time} {payload : Option Json}
    (hpayload : DjangoAbsurd.Leads setup foreign s a.name a.params payload)
    (hcomplete : completeRun s now a.run payload = .ok s') :
  QueueLeads setup foreign s' ∧ Carries s s'
  := by
  have hs : Engine.step setup.pg s (.complete now a.run payload) = some s' :=
    congrArg Except.toOption hcomplete
  obtain ⟨hcheckpoints, hwaits⟩ :=
    h.recorded (fun _ _ hl => absurd hl (not_records rfl _ _)) hs
  apply h.step _ _ hcheckpoints hwaits hs
  · rintro _ _ _ _ ⟨⟩
  · rintro t ht - payload' ⟨now', r, hl, hr, hid⟩
    obtain ⟨-, hrun, rfl⟩ := Label.complete.inj hl
    obtain ⟨hname, hparams⟩ :=
      ha.task t ht (hid.symm.trans (ha.run r (Keyed.Table.mem_of_get? hr) hrun.symm))
    rw [hname, hparams]
    exact hpayload

/-- What a wake has enqueued leads on. -/
theorem leads_of_wake (hplain : PlainDefinitions setup) (h : QueueLeads setup foreign s)
    {elsewhere : Spawn} {now : Time} {name : String} {params : Json} {result : TaskResult}
    (hqueue : ∀ spec, readDeferredSpec setup.project params = some spec →
      spec.queue = setup.queue)
    (hforeign : ¬ WakesInto setup name params → result.id ∈ foreign)
    (hwake : setup.wake elsewhere s now name params = .ok (s', result)) :
  (QueueLeads setup foreign s' ∧ Carries s s')
    ∧ Leads setup foreign s' name params (some (.str result.id))
  := by
  rw [WakingSetup.wake] at hwake
  split at hwake
  · cases hwake
  · rename_i spec hspec
    split at hwake
    · cases hwake
    · rename_i t htarget
      obtain ⟨definition, himport, hfunc, -, hqueueName, hafter⟩ := deferredTarget_keeps htarget
      rw [hplain.immediate _ _ himport] at hafter
      have hpath : endsWith t.modulePath deferNameSuffix = false := by
        rw [Task.modulePath, hfunc, ← Task.modulePath]
        exact hplain.plain _ _ himport
      have hnext := h.enqueue hplain hpath (fun hsome => absurd hafter hsome) hwake
      use hnext
      have hwakes : setup.wakeTarget name params = some (spec, t) := by
        rw [WakingSetup.wakeTarget, hspec, Option.bind_some, htarget]
        rfl
      by_cases hhere : WakesHere setup t
      · obtain ⟨b, config, hb, hconfig, hdatabase⟩ := hhere
        obtain ⟨request, call, spawned, hrequest, hcall, hexecute, hid⟩ :=
          setup.enqueue_executes hb hconfig hdatabase (hqueueName.trans (hqueue spec hspec)) hwake
        have hmade : setup.request t spec.args spec.kwargs = some request := by
          simp [WakingSetup.request, hb, hconfig, hrequest, Except.toOption]
        have hkey : setup.wakeKey name params = textMember call.optionsJson "idempotency_key" := by
          rw [WakingSetup.wakeKey, hwakes, Option.bind_some, hmade, Option.bind_some, hcall,
            Option.bind_some]
        obtain ⟨t', ht', hid', hreturned⟩ := spawnTask_returned h.keyed hexecute
        refine ⟨result.id, rfl, .inr ⟨spawned.taskId, hid, ?_, ?_⟩⟩
        · rw [← hid']
          exact hnext.1.sound.drawn t' ht'
        · intro t'' ht'' hid'' hwrapper
          obtain rfl := Keyed.Table.eq_of_key_eq ht'' ht' (hid''.trans hid'.symm)
          rcases hreturned with ⟨key, hmember, hkey'⟩ | hname'
          · exact ⟨key, hkey', hkey.trans hmember⟩
          · -- what the wake itself creates is no wrapper
            obtain ⟨-, hname, -⟩ := call_eq_some hcall
            rw [isDeferredWrapper, hname', hname, name_spawnRequest hafter hrequest, hpath]
              at hwrapper
            cases hwrapper
      · refine ⟨result.id, rfl, .inl (hforeign ?_)⟩
        rintro ⟨spec', t', hwakes', hhere'⟩
        rw [hwakes] at hwakes'
        cases hwakes'
        exact hhere hhere'

/-- A step keeps all that leads on. -/
theorem WakingState.Leads.step (hplain : PlainDefinitions setup) (h : S.Leads setup foreign)
    {l : WakingLabel} (horderly : l.Orderly setup foreign S) (hs : setup.step S l = some S') :
  S'.Leads setup foreign
  := by
  cases l with
  | call l =>
      obtain ⟨s, hcall, rfl⟩ := Option.map_eq_some_iff.mp hs
      exact h.setQueue (h.queue.outside horderly hcall)
  | enqueue now t args kwargs elsewhere =>
      simp only [WakingSetup.step] at hs
      split at hs
      · obtain rfl := Option.some.inj hs
        exact h
      · rename_i s result henqueue
        obtain rfl := Option.some.inj hs
        apply h.setQueue
        apply h.queue.enqueue hplain horderly.1 (fun _ => horderly.2) henqueue
  | arrive n run =>
      obtain ⟨a, ha, rfl⟩ := Option.map_eq_some_iff.mp hs
      apply h.setAttempt n
      rintro a' ⟨⟩
      apply h.queue.arrived ha
  | wake n now elsewhere =>
      simp only [WakingSetup.step] at hs
      split at hs
      · rename_i run task name params hattempt
        have hleads := h.attempts n _ hattempt
        split at hs
        · obtain rfl := Option.some.inj hs
          exact h.crash n
        · rename_i s result hwake
          obtain rfl := Option.some.inj hs
          have hforeign := fun hnot => horderly _ s result hattempt hnot hwake
          obtain ⟨hqueue, hvalue⟩ := leads_of_wake hplain h.queue hleads.queue hforeign hwake
          apply (h.setQueue hqueue).setAttempt n
          rintro a ⟨⟩
          apply (hleads.mono hqueue.2).setPhase
          rintro value ⟨⟩
          exact hvalue
      · cases hs
  | commit n now extendClaimBy =>
      simp only [WakingSetup.step] at hs
      split at hs
      · rename_i run task name params id hattempt
        have hleads := h.attempts n _ hattempt
        have hvalue := hleads.value _ rfl
        split at hs
        · obtain rfl := Option.some.inj hs
          exact h.crash n
        · rename_i s hcommit
          obtain rfl := Option.some.inj hs
          have hqueue := h.queue.commit hleads hvalue hcommit
          apply (h.setQueue hqueue).setAttempt n
          rintro a ⟨⟩
          apply (hleads.mono hqueue.2).setPhase
          rintro value ⟨⟩
          exact hvalue.mono hqueue.2
      · cases hs
  | complete n now =>
      simp only [WakingSetup.step] at hs
      split at hs
      · rename_i run task name params value hattempt
        have hleads := h.attempts n _ hattempt
        split at hs
        · obtain rfl := Option.some.inj hs
          exact h.crash n
        · rename_i s hcomplete
          obtain rfl := Option.some.inj hs
          have hqueue := h.queue.complete hleads (hleads.value value rfl) hcomplete
          apply WakingState.Leads.crash (S := { S with queue := s, completed := _ })
          exact ⟨hqueue.1, fun n' a ha => (h.attempts n' a ha).mono hqueue.2⟩
      · cases hs
  | crash n =>
      obtain rfl := Option.some.inj hs
      exact h.crash n

theorem leads_create (setup : WakingSetup) (foreign : Set String) (storage : StorageMode) :
  (WakingState.create storage).Leads setup foreign
  where
  queue := {
    sound := .create storage
    keyed := .create storage
    sent := fun _ ht => absurd ht List.not_mem_nil
    payload := fun _ ht => absurd ht List.not_mem_nil
    checkpoints := fun _ hc => absurd hc List.not_mem_nil
    waits := fun _ hw => absurd hw List.not_mem_nil }
  attempts _ _ ha := by cases ha

/-- Whatever is enqueued and in whatever order the attempts go on, the tables lead on. -/
theorem leads_run (hplain : PlainDefinitions setup) {storage : StorageMode}
    {ls : List WakingLabel} (hr : setup.wakingMachine.run (.create storage) ls = some S)
    (horderly : setup.wakingMachine.Along (fun S l => l.Orderly setup foreign S)
      (.create storage) ls) :
  S.Leads setup foreign
  := by
  apply Machine.invariant_along (I := fun S => S.Leads setup foreign) _ horderly
    (leads_create setup foreign storage) hr
  intro S₁ l S₂ hl hS₁ hs
  apply hS₁.step hplain hl hs

end

/-! ### The way from an id -/

/-- The setup with another queue of the database. -/
def WakingSetup.on (setup : WakingSetup) (queue : String) : WakingSetup := { setup with queue }

/-- The tasks of every queue of the database are where enqueues, attempts and the other calls
of the engine have led. -/
def ReachedDatabase (setup : WakingSetup) (foreign : Set String) (db : Database) : Prop :=
  ∀ queue tasks, db.tasks (dbTable tasksSpec queue) = some tasks →
    ∃ storage ls S, (setup.on queue).wakingMachine.run (.create storage) ls = some S
      ∧ (setup.on queue).wakingMachine.Along
        (fun S l => l.Orderly (setup.on queue) foreign S) (.create storage) ls
      ∧ S.queue.tasks = tasks

/-- The ids are of no task of the database. -/
def Foreign (setup : WakingSetup) (foreign : Set String) (db : Database) : Prop :=
  ∀ text ∈ foreign, ∀ queue taskId id, decodeResultId text = .ok (queue, taskId) →
    setup.project.ids.parse taskId = some id →
    ∀ table tasks, db.tasks table = some tasks → tasks.get? id = none

/-- The links that are left from a row: fewer than its wake's key has letters. -/
def wakeRank (setup : WakingSetup) (t : TaskRow) : ℕ :=
  if isCompletedWrapper t then
    (setup.wakeKey t.taskName t.params).elim 1 (fun key => key.length + 2)
  else 0

section

variable {setup : WakingSetup} {foreign : Set String} {py : PythonLower} {b : Backend}
  {db : Database} {registry : Registry}

/-- A row that is read is in the table of the model of its queue. -/
theorem row_of_readRow {p : Project} {resultId : String} {t : TaskRow}
    (h : readRow p py b db registry resultId = some t) :
  ∃ queue taskId id tasks, decodeResultId resultId = .ok (queue, taskId)
    ∧ p.ids.parse taskId = some id
    ∧ db.tasks (buildQueueTableModel py registry tasksSpec queue).1.dbTable = some tasks
    ∧ tasks.get? id = some t
  := by
  obtain ⟨run, hfound⟩ := readRow_eq_some.mp h
  obtain ⟨queue, taskId, workerIds, hdecode, -, hfetch⟩ := readFound_eq_some.mp hfound
  have hread := congrArg Prod.fst hfetch
  change readTaskAndRun p.ids (db.tasks (buildQueueTableModel py registry tasksSpec queue).1.dbTable)
    _ taskId resultId = .ok (t, run, workerIds) at hread
  rw [readTaskAndRun] at hread
  split at hread
  · cases hread
  · rename_i id hparse
    split at hread
    · cases hread
    · rename_i task htask
      split at hread
      · cases hread
      · cases hread
        obtain ⟨tasks, htasks, hget⟩ := Option.bind_eq_some_iff.mp htask
        exact ⟨queue, taskId, id, tasks, hdecode, hparse, htasks, hget⟩

/-- A completed wrapper leads on. -/
theorem wakeRank_pos {w : TaskRow} (hw : isCompletedWrapper w = true) :
  0 < wakeRank setup w
  := by
  rw [wakeRank, if_pos hw]
  cases setup.wakeKey w.taskName w.params with
  | none => exact Nat.one_pos
  | some key => exact Nat.succ_pos _

/-- A completed wrapper is further from the end than a task it may lead to. -/
theorem wakeRank_lt {w t : TaskRow} (hw : isCompletedWrapper w = true)
    (hsent : isDeferredWrapper t = true → t.idempotencyKey = none
      ∨ ∀ key', setup.wakeKey t.taskName t.params = some key' →
        t.idempotencyKey = some (key' ++ deferNameSuffix))
    (hkey : isDeferredWrapper t = true → ∃ key, t.idempotencyKey = some key
      ∧ setup.wakeKey w.taskName w.params = some key) :
  wakeRank setup t < wakeRank setup w
  := by
  cases ht : isCompletedWrapper t with
  | false =>
      have hzero : wakeRank setup t = 0 := by rw [wakeRank, ht, if_neg Bool.false_ne_true]
      rw [hzero]
      exact wakeRank_pos hw
  | true =>
      obtain ⟨hwrapper, -⟩ := isCompletedWrapper_iff.mp ht
      obtain ⟨key, hown, hwake⟩ := hkey hwrapper
      have hrank : wakeRank setup w = key.length + 2 := by
        rw [wakeRank, if_pos hw, hwake, Option.elim_some]
      rw [hrank, wakeRank, if_pos ht]
      cases hnext : setup.wakeKey t.taskName t.params with
      | none =>
          rw [Option.elim_none]
          omega
      | some key' =>
          rcases hsent hwrapper with hnone | hsuffixed
          · rw [hown] at hnone
            cases hnone
          · have hlength := congrArg String.length
              (Option.some.inj (hown.symm.trans (hsuffixed key' hnext)))
            have hsuffix : 0 < deferNameSuffix.length := by decide
            rw [String.length_append] at hlength
            rw [Option.elim_some]
            omega

/-- A model stays in the registry, under the key its queue shares with the one it was built
for. -/
theorem model_buildModels {queue queue' : String} {model : QueueTableModel}
    (models : List (EntitySpec × String))
    (hmodel : (buildQueueTableModel py registry tasksSpec queue).1 = model)
    (hkey : registryKey py (tasksSpec, queue') = registryKey py (tasksSpec, queue)) :
  (buildQueueTableModel py (buildModels py registry ((tasksSpec, queue) :: models)) tasksSpec
    queue').1 = model
  := by
  have hkept : Memo.lookup (buildModels py registry ((tasksSpec, queue) :: models))
      (registryKey py (tasksSpec, queue)) = some model := by
    rw [← hmodel]
    apply Memo.lookup_calls_of_some models
    apply Memo.lookup_call_self
  rw [buildQueueTableModel, Memo.call_fst, hkey, hkept, Option.getD_some]

/-- The tasks of a queue of the database lead on. -/
theorem queueLeads_reached (hplain : PlainDefinitions setup)
    (hreached : ReachedDatabase setup foreign db) {queue : String}
    {tasks : Keyed.Table TaskRow.taskId} (htasks : db.tasks (dbTable tasksSpec queue) = some tasks) :
  ∃ s, QueueLeads (setup.on queue) foreign s ∧ s.tasks = tasks
  := by
  obtain ⟨storage, ls, S, hrun, horderly, rfl⟩ := hreached queue tasks htasks
  have hplain' : PlainDefinitions (setup.on queue) :=
    ⟨hplain.immediate, hplain.plain, hplain.sent⟩
  exact ⟨S.queue, (leads_run hplain' hrun horderly).queue, rfl⟩

/-- A row that is read with an id a completed wrapper of a table has returned is of lower
rank. -/
theorem wakeRank_linked {queue : String} {s : QueueState} {w t : TaskRow}
    (h : QueueLeads (setup.on queue) foreign s) (hforeign : Foreign setup foreign db)
    (hw : w ∈ s.tasks.rows) (hcompleted : isCompletedWrapper w = true)
    (htasks : db.tasks (buildQueueTableModel py registry tasksSpec queue).1.dbTable = some s.tasks)
    (hread : readRow setup.project py b db registry (payloadText setup.project w) = some t) :
  wakeRank setup t < wakeRank setup w
  := by
  obtain ⟨text, hpayload, hwhere⟩ := h.payload w hw hcompleted
  have htext : payloadText setup.project w = text := by
    rw [payloadText, hpayload]
    apply setup.project.str_str
  rw [htext] at hread
  rcases hwhere with houtside | ⟨id, rfl, -, hkey⟩
  · obtain ⟨queue', taskId, id, tasks, hdecode, hparse, htasks', hrow⟩ := row_of_readRow hread
    rw [hforeign text houtside queue' taskId id hdecode hparse _ _ htasks'] at hrow
    cases hrow
  · have hread : readRow setup.project py b db registry (buildResultId setup.project queue id)
        = some t := hread
    obtain ⟨run, hfound⟩ := readRow_eq_some.mp hread
    obtain ⟨-, hrow, -⟩ := readFound_buildResultId.mp hfound
    rw [htasks, Option.bind_some] at hrow
    have ht := Keyed.Table.mem_of_get? hrow
    apply wakeRank_lt hcompleted
    · exact fun hwrapper => (h.sent t ht hwrapper).key
    · exact fun hwrapper => hkey t ht (Keyed.Table.key_of_get? hrow) hwrapper

/-- A link leads from a completed wrapper to a row of lower rank, or to none. -/
theorem wakeRank_redirect (hplain : PlainDefinitions setup)
    (hreached : ReachedDatabase setup foreign db) (hforeign : Foreign setup foreign db)
    {history : List (EntitySpec × String)} (hhistory : ∀ a ∈ history, a.1 ∈ adminEntitySpecs)
    {resultId : String} {a : Registry × String}
    (h : redirect setup.project py b db (registryAfter py history, resultId) = some a) :
  (∃ history', (∀ a ∈ history', a.1 ∈ adminEntitySpecs) ∧ a.1 = registryAfter py history')
    ∧ (readRow setup.project py b db a.1 a.2).elim 0 (wakeRank setup)
      < (readRow setup.project py b db (registryAfter py history) resultId).elim 0 (wakeRank setup)
  := by
  obtain ⟨w, hw, hnext⟩ := Option.bind_eq_some_iff.mp h
  obtain ⟨hcompleted, ⟨⟩⟩ := Option.ite_none_right_eq_some.mp hnext
  obtain ⟨queue, taskId, id, tasks, hdecode, -, htasks, hrow⟩ := row_of_readRow hw
  have hmodels : readModels resultId = [(tasksSpec, queue), (runsSpec, queue)] := by
    rw [readModels, hdecode]
  constructor
  · refine ⟨history ++ readModels resultId, ?_, buildModels_registryAfter py history _⟩
    intro a ha
    rw [hmodels] at ha
    simp only [List.mem_append, List.mem_cons, List.not_mem_nil, or_false] at ha
    rcases ha with ha | rfl | rfl
    · exact hhistory a ha
    · exact tasksSpec_mem
    · exact runsSpec_mem
  · rw [hw, Option.elim_some, hmodels]
    have hhistory' : ∀ a ∈ history, a ∈ callsFor Set.univ :=
      fun a ha => ⟨hhistory a ha, Set.mem_univ _⟩
    obtain ⟨queue', -, hmodel, hkey⟩ :=
      model_registryAfter py hhistory' tasksSpec_mem (Set.mem_univ queue)
    rw [hmodel] at htasks
    obtain ⟨s, hleads, rfl⟩ := queueLeads_reached hplain hreached htasks
    cases hread : readRow setup.project py b db
        (buildModels py (registryAfter py history) [(tasksSpec, queue), (runsSpec, queue)])
        (payloadText setup.project w) with
    | none =>
        rw [Option.elim_none]
        apply wakeRank_pos hcompleted
    | some t =>
        rw [Option.elim_some]
        apply wakeRank_linked hleads hforeign (Keyed.Table.mem_of_get? hrow) hcompleted _ hread
        rw [model_buildModels [(runsSpec, queue)] hmodel hkey]
        exact htasks

/-- Where tables are reached by enqueues with any keys, attempts and the other calls of the
engine, `get_result` comes to an end for every id: deep enough, it gives the same answer at
every depth, and that is not the end of Python's recursion. -/
theorem getResult_ends (py : PythonLower) (b : Backend) (backend : String)
    (hplain : PlainDefinitions setup) (hreached : ReachedDatabase setup foreign db)
    (hforeign : Foreign setup foreign db) {history : List (EntitySpec × String)}
    (hhistory : ∀ a ∈ history, a.1 ∈ adminEntitySpecs) (resultId : String) :
  ∃ depth, ∀ fuel, depth ≤ fuel →
    getResult setup.project py b backend db fuel (registryAfter py history) resultId
        = getResult setup.project py b backend db depth (registryAfter py history) resultId
      ∧ (getResult setup.project py b backend db fuel (registryAfter py history) resultId).1
        ≠ .error .recursionError
  := by
  have hnext : ∀ a a', (∃ history, (∀ a ∈ history, a.1 ∈ adminEntitySpecs)
        ∧ a.1 = registryAfter py history) →
      redirect setup.project py b db a = some a' →
      (∃ history, (∀ a ∈ history, a.1 ∈ adminEntitySpecs) ∧ a'.1 = registryAfter py history)
        ∧ (readRow setup.project py b db a'.1 a'.2).elim 0 (wakeRank setup)
          < (readRow setup.project py b db a.1 a.2).elim 0 (wakeRank setup) := by
    rintro ⟨registry, id⟩ a' ⟨history, hhistory, rfl⟩ hlink
    apply wakeRank_redirect hplain hreached hforeign hhistory hlink
  obtain ⟨n, a, hends⟩ := Links.exists_endsIn _ hnext
    (a := (registryAfter py history, resultId)) ⟨history, hhistory, rfl⟩
  -- beyond the end the depth does not matter
  use n + 1
  intro fuel hdepth
  rw [getResult_of_endsIn backend hends hdepth,
    getResult_of_endsIn backend hends (Nat.lt_succ_self n)]
  exact ⟨rfl, ne_recursionError_of_end backend hends.2⟩

end

/-! ### A completed wrapper of `tasks.add` -/

/-- An attempt of the wrapper comes to the step and completes. -/
def completeLabels : List WakingLabel :=
  [.arrive 0 ⟨1⟩, .wake 0 0 spawnElsewhere, .commit 0 0 none, .complete 0 1]

/-- The wrapper has completed. -/
def keyedCompleted : WakingState :=
  ((ownSetup true).wakingMachine.run keyedClaimed completeLabels).getD keyedClaimed

/-- The database has the tasks of one queue. -/
def oneQueue (queue : String) (S : WakingState) : Database where
  tasks table := if table = dbTable tasksSpec queue then some S.queue.tasks else none
  runs _ := some S.queue.runs

/-- `tasks.add` is the one definition. -/
theorem eq_of_importString_ownBackend {path : String} {definition : Task}
    (h : (ownBackend true).importString path = some definition) :
  definition = addTask .absurdTask "own"
  := by
  have himports := Project.importString_eq_some.mp h
  change (if path = "tasks.add" then _ else _) = _ at himports
  split at himports
  · exact (Imported.task.inj himports).symm
  · cases himports

theorem plainDefinitions_ownSetup :
  PlainDefinitions (ownSetup true)
  := by
  constructor
  · intro path definition h
    rw [eq_of_importString_ownBackend h]
    rfl
  · intro path definition h
    rw [eq_of_importString_ownBackend h]
    decide
  · intro key j h
    have hsent : plainSdk.normalize .idempotencyKey (.str key) = some (some (.str key)) := rfl
    exact (Option.some.inj (Option.some.inj (hsent.symm.trans h))).symm

theorem run_completeLabels :
  (ownSetup true).wakingMachine.run keyedClaimed completeLabels = some keyedCompleted
  := rfl

theorem orderly_completeLabels :
  (ownSetup true).wakingMachine.Along (fun S l => l.Orderly (ownSetup true) ∅ S)
    (.create .unpartitioned) (claimLabels ++ completeLabels)
  := by
  constructor
  · use by decide
    rintro key ⟨⟩
    exact ⟨"k", rfl⟩
  · intro s₁ h₁
    constructor
    · constructor
      · rintro _ _ _ _ ⟨⟩
      · rintro t _ _ payload ⟨_, _, hl, -⟩
        cases hl
      · exact fun _ _ hl => absurd hl (not_records rfl _ _)
    · intro s₂ h₂
      have hclaimed : s₂ = keyedClaimed := by
        have hrun : (ownSetup true).wakingMachine.run (.create .unpartitioned) claimLabels
            = some s₂ := Machine.run_cons.mpr ⟨s₁, h₁, Machine.run_cons.mpr ⟨s₂, h₂, rfl⟩⟩
        exact Option.some.inj (hrun.symm.trans (run_claimLabels true))
      subst hclaimed
      use trivial
      intro s₃ h₃
      have harrived : (WakingSetup.arrived keyedClaimed.queue ⟨1⟩).map
          (fun a => keyedClaimed.setAttempt 0 (some a)) = some s₃ := h₃
      obtain ⟨a, ha, rfl⟩ := Option.map_eq_some_iff.mp harrived
      obtain rfl := Option.some.inj ha
      constructor
      · intro a s result hattempt hnot
        obtain rfl := Option.some.inj hattempt
        exact absurd ⟨_, _, rfl, _, _, rfl, rfl, rfl⟩ hnot
      · intro s₄ _
        apply Machine.along_of_forall
        intro s l hl
        simp only [List.mem_cons, List.not_mem_nil, or_false] at hl
        rcases hl with rfl | rfl
        all_goals trivial

theorem reached_oneQueue :
  ReachedDatabase (ownSetup true) ∅ (oneQueue "default" keyedCompleted)
  := by
  intro queue tasks htasks
  obtain ⟨htable, htasks⟩ := Option.ite_none_right_eq_some.mp htasks
  obtain rfl := Option.some.inj htasks
  obtain ⟨-, rfl⟩ := dbTable_injective rfl htable
  refine ⟨.unpartitioned, claimLabels ++ completeLabels, keyedCompleted, ?_, ?_, rfl⟩
  · exact (Machine.run_append (run_claimLabels true)).trans run_completeLabels
  · exact orderly_completeLabels

/-- The id of a completed wrapper. -/
theorem getResult_ends_wrapper :
  ∃ depth, ∀ fuel, depth ≤ fuel →
    getResult (ownBackend true) asciiLower absurdBackend "absurd"
          (oneQueue "default" keyedCompleted) fuel [] (buildResultId (ownBackend true) "default" ⟨0⟩)
        = getResult (ownBackend true) asciiLower absurdBackend "absurd"
          (oneQueue "default" keyedCompleted) depth [] (buildResultId (ownBackend true) "default" ⟨0⟩)
      ∧ (getResult (ownBackend true) asciiLower absurdBackend "absurd"
          (oneQueue "default" keyedCompleted) fuel [] (buildResultId (ownBackend true) "default" ⟨0⟩)).1
        ≠ .error .recursionError
  := by
  have hforeign : Foreign (ownSetup true) ∅ (oneQueue "default" keyedCompleted) :=
    fun _ h => absurd h (Set.notMem_empty _)
  have hnone : ∀ a ∈ ([] : List (EntitySpec × String)), a.1 ∈ adminEntitySpecs :=
    fun _ h => absurd h List.not_mem_nil
  exact getResult_ends asciiLower absurdBackend "absurd" plainDefinitions_ownSetup
    reached_oneQueue hforeign hnone _

end DjangoAbsurd
