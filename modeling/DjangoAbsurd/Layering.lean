import DjangoAbsurd.Backends
import DjangoAbsurd.Library.Fallible

/-!
# Layers of spawn parameters

A task is derived from its definition by `using` and by `absurd_params(...).bind`, in any order
and any number of times. Its spawn parameters are layers: the decorator defaults of the function,
and over them what was bound, the later over the earlier. Routing adds no layer, wherever it
occurs; an enqueue puts the backend's `max_attempts` below all of them.
-/

namespace DjangoAbsurd

/-! ### Operations -/

/-- An operation that derives a task from a task. -/
inductive Operation where
  | routes (routing : Routing)
  | binds (kwargs : SpawnKwargs)

/-- What an operation makes of a task. -/
def Operation.apply (backends : TaskBackends) (t : Task) : Operation → Except TaskError Task
  | .routes routing => t.usingWith backends routing
  | .binds kwargs => bind backends kwargs t

/-- What a sequence of operations makes of a task. -/
def deriveTask (backends : TaskBackends) (t : Task) (ops : List Operation) :
    Except TaskError Task :=
  ops.foldlM (fun t op => op.apply backends t) t

/-- The layer an operation binds. -/
def Operation.layer? : Operation → Option SpawnKwargs
  | .routes _ => none
  | .binds kwargs => some kwargs

/-- The layers a sequence of operations binds, in order. -/
def boundLayers (ops : List Operation) : List SpawnKwargs := ops.filterMap Operation.layer?

/-- The definition of a task: `@task` gives it no parameters of its own. -/
structure Defines (backends : TaskBackends) (written definition : Task) : Prop where
  plain : written.absurdParams = none
  built : written.postInit backends = .ok definition

section

variable {backends : TaskBackends} {written definition t t' : Task} {op : Operation}
  {ops : List Operation}

/-- A definition has the defaults of its function for parameters. -/
theorem Defines.layer_eq (h : Defines backends written definition) :
  definition.layer = definition.func.defaults
  := by
  obtain ⟨rfl, -⟩ := postInit_eq_ok h.built
  have hfunc : written.foldDefaults.func = written.func := by rw [foldDefaults_eq]
  rw [hfunc]
  cases hclass : written.taskClass with
  | absurdTask =>
      rw [layer_foldDefaults hclass, h.plain]
      apply overlay.empty_right
  | task => exact layer_foldDefaults_task hclass

/-! ### Folding the defaults again -/

/-- Folding the defaults in again changes nothing. -/
theorem foldDefaults_foldDefaults (t : Task) :
  t.foldDefaults.foldDefaults = t.foldDefaults
  := by
  obtain ⟨taskClass, func, priority, backend, queueName, runAfter, takesContext, own⟩ := t
  obtain ⟨modulePath, defaults⟩ := func
  cases taskClass with
  | task => rfl
  | absurdTask =>
      cases defaults with
      | none =>
          cases own with
          | none => rfl
          | some own =>
              simp only [Task.foldDefaults, buildMergedSpawnOptions, Option.getD]
              rw [overlay.absorb]
      | some defaults =>
          simp only [Task.foldDefaults, buildMergedSpawnOptions, Option.getD]
          rw [overlay.absorb]

/-- Building a task that was built again gives the same task. -/
theorem postInit_postInit (h : t.postInit backends = .ok t') :
  t'.postInit backends = .ok t'
  := by
  obtain ⟨rfl, b, hb, hvalid⟩ := postInit_eq_ok h
  have hbackend : t.foldDefaults.backend = t.backend := by rw [foldDefaults_eq]
  rw [← hbackend] at hb
  have hagain := postInit_of_validates hb hvalid
  rwa [foldDefaults_foldDefaults] at hagain

/-! ### Derived tasks -/

/-- A task that is derived step by step: it was built, and its parameters are those of its layers
over the defaults of its function. -/
structure Layered (backends : TaskBackends) (definition : Task) (layers : List SpawnKwargs)
    (t : Task) : Prop where
  built : t.Built backends
  again : t.postInit backends = .ok t
  func : t.func = definition.func
  layer : t.layer = overlay.lastSet (definition.func.defaults :: layers)

theorem Defines.layered (h : Defines backends written definition) :
  Layered backends definition [] definition
  where
  built := built_of_postInit h.built
  again := postInit_postInit h.built
  func := rfl
  layer := by
    rw [h.layer_eq, ← overlay.foldl_eq_lastSet]
    rfl

/-- What an operation does to the parameters of a task that was built. -/
theorem layer_apply (hbuilt : t.Built backends) (h : op.apply backends t = .ok t') :
  t'.layer = op.layer?.toList.foldl overlay t.layer
  := by
  cases op with
  | routes routing => exact layer_usingWith hbuilt h
  | binds kwargs =>
      obtain ⟨-, hlayer⟩ := bind_eq_ok h
      change t'.layer = overlay t.layer kwargs
      rw [hlayer]
      cases hclass : t.taskClass with
      | absurdTask =>
          rw [if_pos rfl, ← overlay.assoc, overlay.eq_right hbuilt.covers]
      | task =>
          have hdefaults : t.layer = t.func.defaults := by
            simp only [Task.layer, Task.params, hclass, Func.defaults]
          rw [if_neg (by rintro ⟨⟩), hdefaults]
          exact congrArg (overlay t.func.defaults) (overlay.empty_left kwargs)

theorem Layered.apply {layers : List SpawnKwargs} (hlayered : Layered backends definition layers t)
    (h : op.apply backends t = .ok t') :
  Layered backends definition (layers ++ op.layer?.toList) t'
  := by
  have hlayer := layer_apply hlayered.built h
  rw [hlayered.layer, ← overlay.foldl_eq_lastSet, ← List.foldl_append,
    overlay.foldl_eq_lastSet] at hlayer
  cases op with
  | routes routing =>
      obtain ⟨hfunc, -⟩ := usingWith_eq_ok h
      exact ⟨built_of_postInit h, postInit_postInit h, hfunc.trans hlayered.func, hlayer⟩
  | binds kwargs =>
      obtain ⟨⟨hfunc, -⟩, -⟩ := bind_eq_ok h
      exact ⟨built_of_postInit h, postInit_postInit h, hfunc.trans hlayered.func, hlayer⟩

/-- What a sequence of operations does to the parameters of a task. -/
theorem Layered.derive {layers : List SpawnKwargs}
    (hlayered : Layered backends definition layers t) (h : deriveTask backends t ops = .ok t') :
  Layered backends definition (layers ++ boundLayers ops) t'
  := by
  induction ops generalizing layers t with
  | nil =>
      obtain rfl := Except.ok.inj h
      rwa [boundLayers, List.filterMap_nil, List.append_nil]
  | cons op ops ih =>
      obtain ⟨t₁, hop, hrest⟩ := Except.foldlM_cons_eq_ok.mp h
      have hnext := ih (hlayered.apply hop) hrest
      have hlayers : boundLayers (op :: ops) = op.layer?.toList ++ boundLayers ops := by
        rw [boundLayers, List.filterMap_cons]
        cases op.layer? <;> rfl
      rwa [hlayers, ← List.append_assoc]

/-- The options of an enqueue. -/
theorem spawnOptions_apply (config : AbsurdConfig) (t : Task) (f : SpawnField) :
  spawnOptions config t f = (t.layer f).or (maxAttemptsOnly config.defaultMaxAttempts f)
  := by
  rw [spawnOptions, buildMergedSpawnOptions]
  change overlay _ (overlay t.layer fun _ => none) f = _
  rw [overlay.empty_right]
  rfl

/-- Take a task derived from a definition by any operations. Of the options an enqueue spawns it
with, each has the value of the last layer that sets it, among the decorator defaults and what was
bound in order, and `max_attempts` the backend's default where none does. Building the task again
gives the same task, and the operations matter for the options by what they bind alone. -/
theorem params_layered (config : AbsurdConfig) (hdefinition : Defines backends written definition)
    (h : deriveTask backends definition ops = .ok t) :
  (∀ f, spawnOptions config t f
      = (overlay.lastSet (definition.func.defaults :: boundLayers ops) f).or
        (if f = .maxAttempts then some (.int config.defaultMaxAttempts) else none))
    ∧ t.postInit backends = .ok t
    ∧ ∀ ops' t', boundLayers ops' = boundLayers ops → deriveTask backends definition ops' = .ok t' →
        spawnOptions config t' = spawnOptions config t
  := by
  have hlayered := hdefinition.layered.derive h
  refine ⟨?_, hlayered.again, ?_⟩
  · intro f
    rw [spawnOptions_apply, hlayered.layer]
    cases f <;> rfl
  · intro ops' t' hsame h'
    have hlayered' := hdefinition.layered.derive h'
    funext f
    rw [spawnOptions_apply, spawnOptions_apply, hlayered.layer, hlayered'.layer, hsame]

end

/-- A task with three attempts by its decorator, defined on a backend that is not an Absurd one. -/
def plainDefinition : Task where
  taskClass := .task
  func := ⟨"tasks.add", some (maxAttemptsOnly 3)⟩
  priority := 0
  backend := "immediate"
  queueName := "default"
  runAfter := none
  takesContext := false
  absurdParams := none

/-- Backends that take every task. -/
def openBackends : TaskBackends := fun _ => some ⟨[], fun _ _ _ _ => true, none⟩

/-- Attempts without end are bound, the task is routed, and headers are bound. -/
def bindRouteBind : List Operation :=
  [.binds (fun f => if f = .maxAttempts then some .none else none),
    .routes ⟨none, none, none, some "absurd"⟩,
    .binds (fun f => if f = .headers then some (.dict []) else none)]

/-- What is bound wins over the decorator, also when it is `None`. -/
theorem params_layered_bound :
  ∃ t, deriveTask openBackends plainDefinition bindRouteBind = .ok t
    ∧ spawnOptions ⟨"default", 5, ["default"]⟩ t .maxAttempts = some .none
    ∧ t.postInit openBackends = .ok t
  := by
  have hdefinition : Defines openBackends plainDefinition plainDefinition := ⟨rfl, rfl⟩
  obtain ⟨hoptions, hagain, -⟩ := params_layered ⟨"default", 5, ["default"]⟩ hdefinition
    (show deriveTask openBackends plainDefinition bindRouteBind = .ok _ from rfl)
  exact ⟨_, rfl, hoptions .maxAttempts, hagain⟩

end DjangoAbsurd
