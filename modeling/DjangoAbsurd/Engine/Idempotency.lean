import DjangoAbsurd.Engine.Storage

/-!
# Spawning with a key

A spawn with an idempotency key may be repeated: until a cleanup takes the task, every spawn with
the key answers with that task and its last run and inserts nothing (`spawned_once`). The errors
`absurd.spawn_task` has for keys whose task is gone are never raised.
-/

namespace DjangoAbsurd.Engine

section

variable {pg : Postgres} {s s' : QueueState} {ls : List Label} {key : String} {id : Uuid}

theorem KeyedQueue.run (h : KeyedQueue s) (hrun : (machine pg).run s ls = some s') :
  KeyedQueue s'
  := Machine.invariant (m := machine pg) (fun _ _ _ h hs => h.step hs) h hrun

theorem KeyedQueue.of_reachable (h : Reachable pg s) :
  KeyedQueue s
  := by
  obtain ⟨storage, ls, hrun⟩ := reachable_iff.mp h
  exact (KeyedQueue.create storage).run hrun

/-- Calls that spare a task leave it its key. -/
theorem holds_run (h : KeyedQueue s) (hholds : s.life.Holds key id)
    (hspares : ∀ l ∈ ls, Spares id l) (hrun : (machine pg).run s ls = some s') :
  s'.life.Holds key id
  := by
  have halong : (machine pg).Along (fun _ l => Spares id l) s ls :=
    Machine.along_of_forall (fun _ l hl => hspares l hl)
  apply And.right
  apply Machine.invariant_along (I := fun s => KeyedQueue s ∧ s.life.Holds key id) _ halong
    ⟨h, hholds⟩ hrun
  rintro s l s' hl ⟨h, hholds⟩ hs
  exact ⟨h.step hs, holds_step h hholds hl hs⟩

/-- The task that has a key is found, with its last run. -/
theorem findKey_of_holds (h : KeyedQueue s) (hholds : s.life.Holds key id) :
  ∃ t r, s.tasks.get? id = some t ∧ t.lastAttemptRun = some r
    ∧ findKey s key = .ok (some ⟨id, some r, t.attempts, false⟩)
  := by
  obtain ⟨t, ht, rfl, hkey⟩ := hholds
  obtain ⟨r, -, hagrees⟩ := (h.consistent.follows t ht).last
  refine ⟨t, r.runId, Keyed.Table.get?_of_mem ht, hagrees.last, ?_⟩
  have hfound : s.tasks.rows.find? (fun t => t.idempotencyKey = some key) = some t := by
    cases hfind : s.tasks.rows.find? (fun t => t.idempotencyKey = some key) with
    | none =>
        have hnone := List.find?_eq_none.mp hfind t ht
        simp [hkey] at hnone
    | some t' =>
        have ht' := List.mem_of_find?_eq_some hfind
        have hkey' : t'.idempotencyKey = some key := by simpa using List.find?_some hfind
        have hid := h.keys.unique key _ _ ⟨t', ht', rfl, hkey'⟩ ⟨t, ht, rfl, hkey⟩
        rw [Keyed.Table.eq_of_key_eq ht' ht hid]
  rw [findKey_plain h, findKey, show s.plain.storage = .unpartitioned from rfl]
  dsimp only
  rw [show s.plain.tasks = s.tasks from rfl, hfound, ← hagrees.last]
  rfl

/-- A key spawns one task: whatever is called after a spawn with it, short of cleaning the task up,
no other task has the key, and a spawn with it answers with the task and its last run and inserts
nothing. -/
theorem spawned_once {now : Time} {name : String} {params options : Json} {s₁ : QueueState}
    {spawned : Spawned} (h : Reachable pg s)
    (hkey : textMember options "idempotency_key" = some key)
    (hs : spawnTask pg s now name params options = .ok (s₁, spawned))
    (hspares : ∀ l ∈ ls, Spares spawned.taskId l) (hrun : (machine pg).run s₁ ls = some s') :
  (∀ t ∈ s'.tasks.rows, t.idempotencyKey = some key → t.taskId = spawned.taskId)
    ∧ ∃ t r, s'.tasks.get? spawned.taskId = some t ∧ t.lastAttemptRun = some r
      ∧ ∀ now' name' params' options' read, blank name' = false →
        readSpawnOptions pg options' = .ok read → read.idempotencyKey = some key →
        spawnTask pg s' now' name' params' options'
          = .ok ({ s' with drawn := s'.drawn + 2 }, ⟨spawned.taskId, some r, t.attempts, false⟩)
  := by
  have hkeyed := KeyedQueue.of_reachable h
  have hstep : step pg s (.spawn now name params options) = some s₁ := by
    rw [step_eq_some, call, hs]
    exact ⟨trivial, rfl⟩
  have hkeyed₁ := hkeyed.step hstep
  have hkeyed' := hkeyed₁.run hrun
  have hholds := holds_run hkeyed₁ (spawnTask_keyed hkeyed hkey hs).1 hspares hrun
  obtain ⟨t, r, ht, hlast, hfound⟩ := findKey_of_holds hkeyed' hholds
  constructor
  · exact fun t ht hkey => hkeyed'.keys.unique key _ _ ⟨t, ht, rfl, hkey⟩ hholds
  · refine ⟨t, r, ht, hlast, fun now' name' params' options' read hname hread hkey => ?_⟩
    have hexisting : findExisting s' read = .ok (some ⟨spawned.taskId, some r, t.attempts, false⟩) := by
      rw [findExisting, hkey]
      exact hfound
    simp only [spawnTask, Bind.bind, Except.bind, pure, Except.pure, hname, hread, hexisting]
    rfl

/-- The options of a spawn that may be repeated. -/
def keyedOptions : Json := .obj [("idempotency_key", .str "order-7")]

theorem orderSpawned_once :
  ∃ s, spawnTask plainPostgres (.create .partitioned) 0 "ship_order" (.obj []) keyedOptions
      = .ok (s, ⟨⟨0⟩, some ⟨1⟩, 1, true⟩)
    ∧ ∀ t ∈ s.tasks.rows, t.idempotencyKey = some "order-7" → t.taskId = ⟨0⟩
  := by
  have hcreate : Reachable plainPostgres (.create .partitioned) :=
    reachable_iff.mpr ⟨.partitioned, [], rfl⟩
  have hspares : ∀ l ∈ ([] : List Label), Spares ⟨0⟩ l := fun l hl => absurd hl List.not_mem_nil
  refine ⟨_, rfl, ?_⟩
  have hspawn := rfl (a := spawnTask plainPostgres (.create .partitioned) 0 "ship_order" (.obj [])
    keyedOptions)
  have hkey : textMember keyedOptions "idempotency_key" = some "order-7" := rfl
  exact (spawned_once hcreate hkey hspawn hspares rfl).1

end

end DjangoAbsurd.Engine
