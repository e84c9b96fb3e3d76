import DjangoAbsurd.AdminViews
import DjangoAbsurd.Library.Spans

/-!
# The natural keys of the admin

A union view has an arm for every queue of the catalog. Its rows are named by a natural key,
the name of the queue and the primary key of the row in its table, joined by colons. The admin
finds a row by its natural key: what stands before the first colon is taken for the queue.
-/

namespace DjangoAbsurd

open Engine

/-! ### The views -/

/-- An entity of the admin: the table of a queue it reads, and its `natural_key_sql`. A natural
key has the primary key of the row. -/
structure AdminEntity where
  spec : EntitySpec
  Row : Type
  Key : Type
  key : Row → Key
  table : QueueState → Keyed.Table key
  naturalKeySql : UuidText → Row → String
  key_eq_of_naturalKeySql_eq : ∀ ids r r', naturalKeySql ids r = naturalKeySql ids r' →
    key r = key r'

theorem print_injective (ids : UuidText) {id id' : Uuid} (h : ids.print id = ids.print id') :
  id = id'
  := by
  apply Option.some.inj
  rw [← ids.parse_print id, h, ids.parse_print]

/-- Two texts joined by a colon are determined when the first has none. -/
theorem joined_injective {a a' b b' : String} (ha : ':' ∉ a.toList) (ha' : ':' ∉ a'.toList)
    (h : a ++ ":" ++ b = a' ++ ":" ++ b') :
  a = a' ∧ b = b'
  := by
  have hlists : a.toList ++ ':' :: b.toList = a'.toList ++ ':' :: b'.toList := by
    simpa [String.toList_append] using congrArg String.toList h
  obtain ⟨hleft, hright⟩ := List.append_cons_inj_of_first ha ha' hlists
  exact ⟨String.toList_injective hleft, String.toList_injective hright⟩

/-- An id and a name joined by a colon determine both. -/
theorem idAndName_injective (ids : UuidText) {id id' : Uuid} {name name' : String}
    (h : ids.print id ++ ":" ++ name = ids.print id' ++ ":" ++ name') :
  (id, name) = (id', name')
  := by
  obtain ⟨hprint, rfl⟩ := joined_injective (ids.colon_not_mem id) (ids.colon_not_mem id') h
  rw [print_injective ids hprint]

/-- The entities of `ADMIN_ENTITY_SPECS`. -/
def tasksEntity : AdminEntity where
  spec := tasksSpec
  Row := TaskRow
  Key := Uuid
  key := TaskRow.taskId
  table := QueueState.tasks
  naturalKeySql ids r := ids.print r.taskId
  key_eq_of_naturalKeySql_eq ids _ _ h := print_injective ids h

def runsEntity : AdminEntity where
  spec := runsSpec
  Row := RunRow
  Key := Uuid
  key := RunRow.runId
  table := QueueState.runs
  naturalKeySql ids r := ids.print r.runId
  key_eq_of_naturalKeySql_eq ids _ _ h := print_injective ids h

def checkpointsEntity : AdminEntity where
  spec := checkpointsSpec
  Row := CheckpointRow
  Key := Uuid × String
  key := CheckpointRow.key
  table := QueueState.checkpoints
  naturalKeySql ids r := ids.print r.taskId ++ ":" ++ r.checkpointName
  key_eq_of_naturalKeySql_eq ids _ _ h := idAndName_injective ids h

def eventsEntity : AdminEntity where
  spec := eventsSpec
  Row := EventRow
  Key := String
  key := EventRow.eventName
  table := QueueState.events
  naturalKeySql _ r := r.eventName
  key_eq_of_naturalKeySql_eq _ _ _ h := h

def waitsEntity : AdminEntity where
  spec := waitsSpec
  Row := WaitRow
  Key := Uuid × String
  key := WaitRow.key
  table := QueueState.waits
  naturalKeySql ids r := ids.print r.runId ++ ":" ++ r.stepName
  key_eq_of_naturalKeySql_eq ids _ _ h := idAndName_injective ids h

/-- The union views. -/
def adminEntities : List AdminEntity :=
  [tasksEntity, runsEntity, checkpointsEntity, eventsEntity, waitsEntity]

example : adminEntities.map AdminEntity.spec = adminEntitySpecs := rfl

/-- The queues of the catalog, by name. -/
abbrev QueueCatalog := Keyed.Table (Prod.fst : String × QueueState → String)

/-- A row of a union view: its columns `queue` and `natural_key`, and the row of the table it
shows. -/
structure ViewRow (ρ : Type) where
  queue : String
  naturalKey : String
  row : ρ

namespace AdminEntity

variable (e : AdminEntity) (ids : UuidText)

/-- `natural_key`, of a row of a queue. -/
def naturalKey (queue : String) (r : e.Row) : String := queue ++ ":" ++ e.naturalKeySql ids r

/-- `compose_queue_arm`. -/
def queueArm (queue : String × QueueState) : List (ViewRow e.Row) :=
  (e.table queue.2).rows.map (fun r => ⟨queue.1, e.naturalKey ids queue.1 r, r⟩)

/-- `build_union_view_sql`. -/
def unionView (catalog : QueueCatalog) : List (ViewRow e.Row) :=
  catalog.rows.flatMap (e.queueArm ids)

end AdminEntity

/-! ### Reading a row -/

/-- `object_id.split(":", 1)[0]`. -/
def queueOfObjectId (objectId : String) : String :=
  String.ofList (objectId.toList.takeWhile (· ≠ ':'))

/-- `MultipleObjectsReturned`. -/
inductive GetObjectError where
  | multipleObjectsReturned
  deriving DecidableEq, Repr

/-- `queryset.get(…)`, with `none` where it raises `DoesNotExist`. -/
def getOne {α : Type} : List α → Except GetObjectError (Option α)
  | [] => .ok none
  | [a] => .ok (some a)
  | _ :: _ :: _ => .error .multipleObjectsReturned

/-- `ReadOnlyAbsurdAdmin.get_queryset`; the view may not exist. -/
def getQueryset {ρ : Type} (view : Option (List (ViewRow ρ))) : List (ViewRow ρ) := view.getD []

/-- `ReadOnlyAbsurdAdmin.get_object`. -/
def getObject {ρ : Type} (view : Option (List (ViewRow ρ))) (objectId : String) :
    Except GetObjectError (Option (ViewRow ρ)) :=
  let queue := queueOfObjectId objectId
  getOne (((getQueryset view).filter (fun row => row.queue = queue)).filter
    (fun row => row.naturalKey = objectId))

/-! ### Finding one row -/

theorem getOne_eq_some {α : Type} {as : List α} {a : α} :
  getOne as = .ok (some a) ↔ as = [a]
  := by
  rcases as with - | ⟨b, - | ⟨c, as⟩⟩ <;> simp [getOne]

/-- A list without duplicates has one element satisfying `p` when only one does. -/
theorem filter_eq_singleton {α : Type} {p : α → Bool} {as : List α} {a : α} (has : as.Nodup)
    (ha : a ∈ as) (hp : p a = true) (hunique : ∀ b ∈ as, p b = true → b = a) :
  as.filter p = [a]
  := by
  have hreplicate : as.filter p = List.replicate (as.filter p).length a := by
    apply List.eq_replicate_of_mem
    intro b hb
    obtain ⟨hmem, hpb⟩ := List.mem_filter.mp hb
    exact hunique b hmem hpb
  have hnodup := has.filter p
  rw [hreplicate, List.nodup_replicate] at hnodup
  have hpos : 0 < (as.filter p).length :=
    List.length_pos_of_mem (List.mem_filter.mpr ⟨ha, hp⟩)
  rw [hreplicate, show (as.filter p).length = 1 by omega]
  rfl

theorem queueOfObjectId_of_colon_not_mem {queue natural : String} (h : ':' ∉ queue.toList) :
  queueOfObjectId (queue ++ ":" ++ natural) = queue
  := by
  have hall : ∀ c ∈ queue.toList, decide (c ≠ ':') = true := by
    intro c hc
    apply decide_eq_true
    rintro rfl
    exact h hc
  have hlist : (queue ++ ":" ++ natural).toList = queue.toList ++ ':' :: natural.toList := by
    simp [String.toList_append]
  have hcolon : List.StartsOutside (fun c => decide (c ≠ ':')) (':' :: natural.toList) :=
    List.startsOutside_cons (by simp)
  rw [queueOfObjectId, hlist, List.takeWhile_append_outside hall hcolon, String.ofList_toList]

/-- What stands before the first colon has none. -/
theorem colon_not_mem_queueOfObjectId (objectId : String) :
  ':' ∉ (queueOfObjectId objectId).toList
  := by
  rw [queueOfObjectId, String.toList_ofList]
  intro h
  simpa using List.mem_takeWhile_imp h

/-! ### Which keys identify their rows -/

namespace AdminEntity

variable {e : AdminEntity} {ids : UuidText} {catalog : QueueCatalog}

theorem mem_unionView {row : ViewRow e.Row} :
  row ∈ e.unionView ids catalog
    ↔ ∃ queue ∈ catalog.rows, ∃ r ∈ (e.table queue.2).rows,
      ⟨queue.1, e.naturalKey ids queue.1 r, r⟩ = row
  := by
  simp [unionView, queueArm]

/-- No two rows of a queue have the same natural key. -/
theorem eq_of_naturalKey_eq {s : QueueState} {queue : String} {r r' : e.Row}
    (hr : r ∈ (e.table s).rows) (hr' : r' ∈ (e.table s).rows)
    (h : e.naturalKey ids queue r = e.naturalKey ids queue r') :
  r = r'
  := by
  apply (e.table s).eq_of_key_eq hr hr'
  exact e.key_eq_of_naturalKeySql_eq ids r r' (toList_append_right h)

/-- Every queue with a row of the entity has a name without colons. -/
def ColonFree (e : AdminEntity) (catalog : QueueCatalog) : Prop :=
  ∀ queue ∈ catalog.rows, (e.table queue.2).rows ≠ [] → ':' ∉ queue.1.toList

/-- The rows of the view are determined by their natural keys. -/
theorem ColonFree.eq_of_naturalKey_eq (h : e.ColonFree catalog) {row row' : ViewRow e.Row}
    (hrow : row ∈ e.unionView ids catalog) (hrow' : row' ∈ e.unionView ids catalog)
    (heq : row.naturalKey = row'.naturalKey) :
  row = row'
  := by
  obtain ⟨queue, hqueue, r, hr, rfl⟩ := mem_unionView.mp hrow
  obtain ⟨queue', hqueue', r', hr', rfl⟩ := mem_unionView.mp hrow'
  have hname := (joined_injective (h queue hqueue (List.ne_nil_of_mem hr))
    (h queue' hqueue' (List.ne_nil_of_mem hr')) heq).1
  obtain rfl := catalog.eq_of_key_eq hqueue hqueue' hname
  rw [AdminEntity.eq_of_naturalKey_eq hr hr' heq]

/-- No row is in the view twice. -/
theorem nodup_unionView (e : AdminEntity) (ids : UuidText) (catalog : QueueCatalog) :
  (e.unionView ids catalog).Nodup
  := by
  rw [unionView, List.nodup_flatMap]
  constructor
  · intro queue _
    refine List.Nodup.map ?_ (List.Nodup.of_map _ (e.table queue.2).nodup)
    intro r r' h
    exact (ViewRow.mk.inj h).2.2
  · refine List.Pairwise.imp ?_ (List.pairwise_map.mp catalog.nodup)
    intro queue queue' hne row hrow hrow'
    simp only [queueArm, List.mem_map] at hrow hrow'
    obtain ⟨r, -, rfl⟩ := hrow
    obtain ⟨r', -, heq⟩ := hrow'
    exact hne (congrArg ViewRow.queue heq).symm

/-- The natural keys of a view name its rows: no two rows share one, and the admin finds every
row by its own. -/
structure KeysIdentify (e : AdminEntity) (ids : UuidText) (catalog : QueueCatalog) : Prop where
  nodup : ((e.unionView ids catalog).map ViewRow.naturalKey).Nodup
  getObject : ∀ row ∈ e.unionView ids catalog,
    getObject (some (e.unionView ids catalog)) row.naturalKey = .ok (some row)

/-- The natural keys of a union view name its rows exactly when no queue with a colon in its
name holds a row of the entity. -/
theorem keysIdentify_iff (ids : UuidText) (catalog : QueueCatalog) (e : AdminEntity) :
  e.KeysIdentify ids catalog ↔ e.ColonFree catalog
  := by
  constructor
  · intro h queue hqueue hrows hcolon
    obtain ⟨r, hr⟩ := List.exists_mem_of_ne_nil _ hrows
    have hmem : ⟨queue.1, e.naturalKey ids queue.1 r, r⟩ ∈ e.unionView ids catalog :=
      mem_unionView.mpr ⟨queue, hqueue, r, hr, rfl⟩
    have hfound := getOne_eq_some.mp (h.getObject _ hmem)
    have hrow := List.mem_singleton.mpr (rfl : (⟨queue.1, e.naturalKey ids queue.1 r, r⟩
      : ViewRow e.Row) = _)
    rw [← hfound, List.mem_filter, List.mem_filter] at hrow
    have hname : queue.1 = queueOfObjectId (e.naturalKey ids queue.1 r) := by
      simpa using hrow.1.2
    rw [hname] at hcolon
    exact colon_not_mem_queueOfObjectId _ hcolon
  · intro h
    constructor
    · apply List.Nodup.map_on _ (e.nodup_unionView ids catalog)
      intro row hrow row' hrow' heq
      exact h.eq_of_naturalKey_eq hrow hrow' heq
    · intro row hrow
      apply getOne_eq_some.mpr
      rw [getQueryset, Option.getD_some, List.filter_filter]
      apply filter_eq_singleton (e.nodup_unionView ids catalog) hrow
      · obtain ⟨queue, hqueue, r, hr, rfl⟩ := mem_unionView.mp hrow
        have hcolon := h queue hqueue (List.ne_nil_of_mem hr)
        simp [naturalKey, queueOfObjectId_of_colon_not_mem hcolon]
      · intro row' hrow' hp
        simp only [Bool.and_eq_true, decide_eq_true_eq] at hp
        exact h.eq_of_naturalKey_eq hrow' hrow hp.1

end AdminEntity

/-- A queue with one event. -/
def queueWithEvent (eventName : String) : QueueState :=
  { QueueState.create .unpartitioned with
    events := ⟨[{ eventName, payload := none, emittedAt := 0 }], List.nodup_singleton _⟩ }

/-- The queue `a` with the event `b:c`, and the queue `a:b` with the event `c`. -/
def colonCatalog : QueueCatalog where
  rows := [("a", queueWithEvent "b:c"), ("a:b", queueWithEvent "c")]
  nodup := by decide

/-- The two events have the natural key `a:b:c`. -/
theorem colonCatalog_clashes :
  ¬ eventsEntity.KeysIdentify unaryIds colonCatalog
  := by
  intro h
  exact absurd h.nodup (by decide)

end DjangoAbsurd
