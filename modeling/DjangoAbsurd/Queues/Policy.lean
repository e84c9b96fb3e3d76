import DjangoAbsurd.Engine.State
import DjangoAbsurd.Scheduler.Settings

/-!
# Queue policies

A queue is declared with options: its storage mode, and the policy of its maintenance. The
system check looks at the keys and at the storage mode. PostgreSQL casts the text of the other
values when it stores them (`PolicyInput.declaredValue`), and the drift test compares the
values with the stored ones in Python (`PolicyInput.drifts`).
-/

namespace DjangoAbsurd

open Engine (StorageMode)

/-! ### Options and columns -/

/-- A PostgreSQL interval. -/
structure Interval where
  months : ℤ
  days : ℤ
  microseconds : ℤ
  deriving DecidableEq, Repr

/-- The microseconds intervals are compared by: a month counts as 30 days. -/
def Interval.span (i : Interval) : ℤ := (i.months * 30 + i.days) * 86400000000 + i.microseconds

/-- `MUTABLE_OPTION_KEYS`. -/
inductive PolicyKey where
  | partitionLookahead
  | partitionLookback
  | cleanupTtl
  | cleanupLimit
  | detachMode
  | detachMinAge
  deriving DecidableEq, Repr

namespace PolicyKey

def all : List PolicyKey :=
  [partitionLookahead, partitionLookback, cleanupTtl, cleanupLimit, detachMode, detachMinAge]

theorem mem_all (k : PolicyKey) : k ∈ all
  := by
  cases k <;> decide

/-- The key of an option, and the name of its column. -/
def keyword : PolicyKey → String
  | partitionLookahead => "partition_lookahead"
  | partitionLookback => "partition_lookback"
  | cleanupTtl => "cleanup_ttl"
  | cleanupLimit => "cleanup_limit"
  | detachMode => "detach_mode"
  | detachMinAge => "detach_min_age"

/-- What the column of a key holds. The others than these two are `INTERVAL_OPTION_KEYS`. -/
def Value : PolicyKey → Type
  | cleanupLimit => ℤ
  | detachMode => String
  | partitionLookahead | partitionLookback | cleanupTtl | detachMinAge => Interval

instance : ∀ k : PolicyKey, DecidableEq k.Value
  | cleanupLimit => inferInstanceAs (DecidableEq ℤ)
  | detachMode => inferInstanceAs (DecidableEq String)
  | partitionLookahead | partitionLookback | cleanupTtl | detachMinAge =>
      inferInstanceAs (DecidableEq Interval)

/-- The check of the column of a key. -/
def valid : (k : PolicyKey) → k.Value → Bool
  | cleanupLimit, (n : ℤ) => decide (1 ≤ n)
  | detachMode, (s : String) => decide (s = "none" ∨ s = "empty")
  | partitionLookahead, i | partitionLookback, i | cleanupTtl, i | detachMinAge, i =>
      decide (0 ≤ Interval.span i)

/-- The default of the column of a key. -/
def initial : (k : PolicyKey) → k.Value
  | cleanupLimit => (1000 : ℤ)
  | detachMode => "none"
  | partitionLookahead => Interval.mk 0 28 0
  | partitionLookback => Interval.mk 0 1 0
  | cleanupTtl | detachMinAge => Interval.mk 0 30 0

/-- Every default passes the check of its column. -/
theorem valid_initial (k : PolicyKey) : k.valid k.initial = true
  := by
  cases k <;> decide

def ofKeyword? (s : String) : Option PolicyKey := all.find? (fun k => k.keyword = s)

theorem ofKeyword?_keyword (k : PolicyKey) : ofKeyword? k.keyword = some k
  := by
  cases k <;> decide

theorem keyword_of_ofKeyword? {s : String} {k : PolicyKey} (h : ofKeyword? s = some k) :
  k.keyword = s
  := by
  simpa using List.find?_some h

end PolicyKey

/-- What the catalog has of a queue besides its name. -/
@[ext]
structure QueueSettings where
  storageMode : StorageMode
  policy : (k : PolicyKey) → k.Value
  valid : ∀ k : PolicyKey, k.valid (policy k) = true

/-- The settings of a queue when it is created. -/
def QueueSettings.create (storageMode : StorageMode) : QueueSettings :=
  ⟨storageMode, PolicyKey.initial, PolicyKey.valid_initial⟩

/-- `CreateQueueOptions`: a dictionary. -/
abbrev QueueOptions := Keyed.Table (Prod.fst : String × PyValue → String)

/-- `QueuePolicyOptions`: a dictionary. -/
abbrev PolicyOptions := Keyed.Table (Prod.fst : PolicyKey × PyValue → PolicyKey)

/-- The option of the policy that is declared, if it is one. -/
def policyOption (o : String × PyValue) : Option (PolicyKey × PyValue) :=
  (PolicyKey.ofKeyword? o.1).map (fun k => (k, o.2))

theorem policyOption_eq_some {o : String × PyValue} {k : PolicyKey} {v : PyValue} :
  policyOption o = some (k, v) ↔ o = (k.keyword, v)
  := by
  obtain ⟨s, v'⟩ := o
  rw [policyOption, Option.map_eq_some_iff]
  constructor
  · rintro ⟨k', hk', h⟩
    cases h
    rw [PolicyKey.keyword_of_ofKeyword? hk']
  · rintro h
    cases h
    exact ⟨k, PolicyKey.ofKeyword?_keyword k, rfl⟩

/-- The options of the policy, in the order they are declared in. -/
def mutableOptions (opts : QueueOptions) : PolicyOptions where
  rows := opts.rows.filterMap policyOption
  nodup := by
    have hkeys : (opts.rows.filterMap policyOption).map Prod.fst
        = (opts.rows.map Prod.fst).filterMap PolicyKey.ofKeyword? := by
      rw [List.map_filterMap, List.filterMap_map]
      apply List.filterMap_congr
      intro o _
      rw [policyOption, Option.map_map]
      exact Option.map_id'
    rw [hkeys]
    apply List.Nodup.filterMap _ opts.nodup
    intro s s' k hs hs'
    rw [← PolicyKey.keyword_of_ofKeyword? hs, PolicyKey.keyword_of_ofKeyword? hs']

theorem mem_mutableOptions {opts : QueueOptions} {k : PolicyKey} {v : PyValue} :
  (k, v) ∈ (mutableOptions opts).rows ↔ (k.keyword, v) ∈ opts.rows
  := by
  rw [mutableOptions, List.mem_filterMap]
  constructor
  · rintro ⟨o, ho, h⟩
    rwa [← policyOption_eq_some.mp h]
  · intro h
    exact ⟨_, h, policyOption_eq_some.mpr rfl⟩

/-! ### What provisioning may raise -/

/-- The errors of the package, of the driver and of the functions of the schema. -/
inductive ProvisionError where
  | schemaNotInstalled
  | queueNameRequired
  | queueNameTooLong (name : String)
  | unsupportedStorageMode
  | unsupportedPolicyKey (key : String)
  | storageModeMismatch (name : String) (existing : StorageMode)
  | queueNotFound (name : String)
  | refusedValue (key : PolicyKey)
  | outOfRange (key : PolicyKey)
  | notAnInterval
  | undefinedTable (name : String)
  deriving DecidableEq, Repr

/-! ### Values -/

/-- What the values of options are to PostgreSQL and to psycopg: the input functions of
`interval` and `integer`, the text of a JSON number, `lower(trim(..))`, the `timedelta` of an
interval, in microseconds, and for any other Python object the `timedelta` of its cast and
whether it equals an integer. -/
structure PolicyInput where
  toInterval : String → Option Interval
  toInteger : String → Option ℤ
  numericText : Decimal → String
  toInteger_numericText : ∀ n m, toInteger (numericText ⟨n, 0⟩) = some m → m = n
  lowerTrim : String → String
  lowerTrim_unpartitioned : lowerTrim "unpartitioned" = "unpartitioned"
  timedelta : Interval → ℤ
  objectInterval : String → Option ℤ
  objectEquals : String → ℤ → Bool

namespace PolicyInput

variable (input : PolicyInput)

/-- `policy->>key`, where a column could take it: no column takes `NULL` or the text of an
array or an object. -/
def text : Json → Option String
  | .str s => some s
  | .num d => some (input.numericText d)
  | .bool b => some (if b then "true" else "false")
  | .null | .arr _ | .obj _ => none

/-- The cast of `policy->>key`. -/
def read : (k : PolicyKey) → Json → Option k.Value
  | .cleanupLimit, j => (input.text j).bind input.toInteger
  | .detachMode, j => (input.text j).map input.lowerTrim
  | .partitionLookahead, j | .partitionLookback, j | .cleanupTtl, j | .detachMinAge, j =>
      (input.text j).bind input.toInterval

/-- What PostgreSQL reads from a declared value: the value is sent as JSON. -/
def declaredValue (k : PolicyKey) (v : PyValue) : Option k.Value :=
  (dumps v).bind (input.read k)

/-- `parse_interval`: no number can be cast to an interval. -/
def parseInterval : PyValue → Except ProvisionError (Option ℤ)
  | .str s =>
      match input.toInterval s with
      | some i => .ok (some (input.timedelta i))
      | none => .error .notAnInterval
  | .none => .ok none
  | .object description =>
      match input.objectInterval description with
      | some t => .ok (some t)
      | none => .error .notAnInterval
  | .bool _ | .int _ | .float _ | .list _ | .tuple _ | .dict _ => .error .notAnInterval

/-- `declared_value == db_value` for an integer. -/
def equalsInteger : PyValue → ℤ → Bool
  | .int m, n => decide (m = n)
  | .bool b, n => decide ((if b then 1 else 0) = n)
  | .float d, n => decide (d.toRat = n)
  | .object description, n => input.objectEquals description n
  | .none, _ | .str _, _ | .list _, _ | .tuple _, _ | .dict _, _ => false

/-- `declared_value == db_value` for a string. -/
def equalsString : PyValue → String → Bool
  | .str s, t => decide (s = t)
  | _, _ => false

/-- One step of `check_mutable_options_drifted`. -/
def drifts : (k : PolicyKey) → PyValue → k.Value → Except ProvisionError Bool
  | .cleanupLimit, v, n => .ok (!input.equalsInteger v n)
  | .detachMode, v, s => .ok (!equalsString v s)
  | .partitionLookahead, v, i | .partitionLookback, v, i | .cleanupTtl, v, i
  | .detachMinAge, v, i =>
      (input.parseInterval v).map (fun t => decide (t ≠ some (input.timedelta i)))

@[simp]
theorem drifts_cleanupLimit (v : PyValue) (n : ℤ) :
  input.drifts .cleanupLimit v n = .ok (!input.equalsInteger v n)
  := rfl

@[simp]
theorem drifts_cleanupTtl (v : PyValue) (i : Interval) :
  input.drifts .cleanupTtl v i
    = (input.parseInterval v).map (fun t => decide (t ≠ some (input.timedelta i)))
  := rfl

/-- `check_mutable_options_drifted`: the first option that drifts ends the scan. -/
def checkMutableOptionsDrifted (settings : QueueSettings) :
    List (PolicyKey × PyValue) → Except ProvisionError Bool
  | [] => .ok false
  | (k, v) :: opts =>
      match input.drifts k v (settings.policy k) with
      | .error e => .error e
      | .ok true => .ok true
      | .ok false => checkMutableOptionsDrifted settings opts

/-! ### `absurd.set_queue_policy` -/

/-- The policy with the declared options read in. -/
def merged (settings : QueueSettings) (opts : PolicyOptions) (k : PolicyKey) : k.Value :=
  ((opts.get? k).bind (fun o => input.declaredValue k o.2)).getD (settings.policy k)

/-- `absurd.set_queue_policy` on the row of a queue. -/
def setQueuePolicy (opts : PolicyOptions) (settings : QueueSettings) :
    Except ProvisionError QueueSettings :=
  match opts.rows.find? (fun o => (input.declaredValue o.1 o.2).isNone) with
  | some o => .error (.refusedValue o.1)
  | none =>
      match h : PolicyKey.all.find? (fun k => !k.valid (input.merged settings opts k)) with
      | some k => .error (.outOfRange k)
      | none =>
          .ok {
            storageMode := settings.storageMode
            policy := input.merged settings opts
            valid := fun k => by simpa using List.find?_eq_none.mp h k k.mem_all }

/-- PostgreSQL reads every option, and the column takes what it reads. -/
def Accepts (opts : PolicyOptions) : Prop :=
  ∀ o ∈ opts.rows, ∃ v, input.declaredValue o.1 o.2 = some v ∧ o.1.valid v = true

variable {input} {opts : PolicyOptions} {settings settings' : QueueSettings}

theorem merged_of_mem {k : PolicyKey} {v : PyValue} (h : (k, v) ∈ opts.rows) {x : k.Value}
    (hx : input.declaredValue k v = some x) :
  input.merged settings opts k = x
  := by
  have hget : opts.get? k = some (k, v) := Keyed.Table.get?_of_mem h
  rw [merged, hget, Option.bind_some, hx, Option.getD_some]

theorem merged_of_not_mem {k : PolicyKey} (h : ∀ v, (k, v) ∉ opts.rows) :
  input.merged settings opts k = settings.policy k
  := by
  have hget : opts.get? k = none := by
    apply Keyed.Table.get?_eq_none.mpr
    rintro ⟨k', v⟩ hmem rfl
    exact h v hmem
  rw [merged, hget, Option.bind_none, Option.getD_none]

/-- The declared options are stored as PostgreSQL reads them, and the others stay. -/
theorem setQueuePolicy_eq_ok (h : input.setQueuePolicy opts settings = .ok settings') :
  settings'.storageMode = settings.storageMode
    ∧ (∀ o ∈ opts.rows, input.declaredValue o.1 o.2 = some (settings'.policy o.1))
    ∧ ∀ k, (∀ v, (k, v) ∉ opts.rows) → settings'.policy k = settings.policy k
  := by
  rw [setQueuePolicy] at h
  split at h
  · cases h
  · rename_i hread
    split at h
    · cases h
    · cases h
      refine ⟨rfl, ?_, fun k hk => merged_of_not_mem hk⟩
      rintro ⟨k, v⟩ ho
      have hsome := List.find?_eq_none.mp hread (k, v) ho
      rw [Bool.not_eq_true, Option.isNone_eq_false_iff, Option.isSome_iff_exists] at hsome
      obtain ⟨x, hx⟩ := hsome
      rw [hx]
      exact congrArg some (merged_of_mem ho hx).symm

/-- A policy is stored when it is accepted: the columns already satisfy their checks. -/
theorem setQueuePolicy_isOk_iff :
  (∃ settings', input.setQueuePolicy opts settings = .ok settings') ↔ input.Accepts opts
  := by
  constructor
  · rintro ⟨settings', h⟩ o ho
    obtain ⟨-, hstored, -⟩ := setQueuePolicy_eq_ok h
    exact ⟨_, hstored o ho, settings'.valid o.1⟩
  · intro h
    have hread : opts.rows.find? (fun o => (input.declaredValue o.1 o.2).isNone) = none := by
      apply List.find?_eq_none.mpr
      intro o ho
      obtain ⟨x, hx, -⟩ := h o ho
      simp [hx]
    have hvalid : PolicyKey.all.find? (fun k => !k.valid (input.merged settings opts k)) = none := by
      apply List.find?_eq_none.mpr
      intro k _
      by_cases hk : ∃ v, (k, v) ∈ opts.rows
      · obtain ⟨v, hv⟩ := hk
        obtain ⟨x, hx, hxvalid⟩ := h _ hv
        simp [merged_of_mem hv hx, hxvalid]
      · simp [merged_of_not_mem (not_exists.mp hk), settings.valid k]
    rw [setQueuePolicy, hread]
    dsimp only
    split
    · rename_i k hk
      rw [hvalid] at hk
      cases hk
    · exact ⟨_, rfl⟩

/-- Setting no option changes nothing. -/
theorem setQueuePolicy_nil (h : opts.rows = []) :
  input.setQueuePolicy opts settings = .ok settings
  := by
  have haccepts : input.Accepts opts := by
    intro o ho
    rw [h] at ho
    exact absurd ho List.not_mem_nil
  obtain ⟨settings', hset⟩ := setQueuePolicy_isOk_iff.mpr haccepts
  obtain ⟨hmode, -, hkept⟩ := setQueuePolicy_eq_ok hset
  rw [hset]
  apply congrArg Except.ok
  apply QueueSettings.ext hmode
  funext k
  apply hkept k
  intro v hv
  rw [h] at hv
  exact absurd hv List.not_mem_nil

end PolicyInput

/-! ### The check -/

mutual

/-- The value can be looked up in a set. -/
def PyValue.hashable : PyValue → Bool
  | .list _ | .dict _ => false
  | .tuple items => PyValue.hashableItems items
  | .none | .bool _ | .int _ | .float _ | .str _ | .object _ => true

def PyValue.hashableItems : List PyValue → Bool
  | [] => true
  | v :: vs => v.hashable && PyValue.hashableItems vs

end

/-- The texts a message gives keys, values and their types. -/
structure PolicyTexts where
  keyText : PyKey → String
  text : PyValue → String
  typeName : PyValue → String

/-- `VALID_QUEUE_OPTION_KEYS`. -/
def validQueueOptionKeys : List String := "storage_mode" :: PolicyKey.all.map PolicyKey.keyword

/-- The keys that only apply to a partitioned queue. -/
def partitionOnlyKeys : List PolicyKey :=
  [.partitionLookahead, .partitionLookback, .detachMode, .detachMinAge]

/-- `E003_MSG`. -/
def e003Msg : String := "django-absurd: invalid per-queue policy options."

/-- `E003_HINT`. -/
def e003Hint : String :=
  "Remove unknown keys; 'unpartitioned' is the only accepted storage_mode."

/-- `E003_HINT_MAPPING`. -/
def e003HintMapping : String :=
  "Map each queue name to its policy dict — \x7b\x7d for the Absurd defaults."

/-- `E015_MSG_PARTITIONED_STORAGE`. -/
def e015MsgPartitionedStorage : String :=
  "django-absurd: partitioned queues are not supported."

/-- `E015_MSG_PARTITION_ONLY_KEY`. -/
def e015MsgPartitionOnlyKey : String := "django-absurd: partitioned-queue-only policy key."

/-- Where support for partitioned queues is tracked. -/
def partitionedSupport : String :=
  "Track partitioned support at https://github.com/lincolnloop/django-absurd/issues/216."

/-- `E015_HINT_PARTITIONED`. -/
def e015HintPartitioned : String :=
  "Declare storage_mode 'unpartitioned', or omit it. " ++ partitionedSupport

/-- `E015_HINT_PARTITION_ONLY_KEY`. -/
def e015HintPartitionOnlyKey : String := "Remove this key. " ++ partitionedSupport

/-- An `absurd.E003` about a queue. -/
def e003 (queue text : String) : CheckMessage where
  msg := e003Msg ++ " Queue '" ++ queue ++ "': " ++ text
  hint := e003Hint
  id := "absurd.E003"

/-- An `absurd.E015` about a queue. -/
def e015 (msg hint queue text : String) : CheckMessage where
  msg := msg ++ " Queue '" ++ queue ++ "' declares " ++ text
  hint
  id := "absurd.E015"

/-- The keys that are not valid. -/
def unknownOptionErrors (texts : PolicyTexts) (queue : String)
    (members : List (PyKey × PyValue)) : List CheckMessage :=
  (members.filter (fun m => m.1 ∉ validQueueOptionKeys.map PyKey.str)).map
    (fun m => e003 queue ("unknown key '" ++ texts.keyText m.1 ++ "'."))

/-- A storage mode that is not valid, or not supported. -/
def storageModeErrors (texts : PolicyTexts) (queue : String) : Option PyValue → List CheckMessage
  | none => []
  | some (.str "unpartitioned") => []
  | some (.str "partitioned") =>
      [e015 e015MsgPartitionedStorage e015HintPartitioned queue "storage_mode 'partitioned'."]
  | some v => [e003 queue ("invalid storage_mode '" ++ texts.text v ++ "'.")]

/-- The keys that only apply to a partitioned queue. -/
def partitionOnlyErrors (queue : String) (members : List (PyKey × PyValue)) :
    List CheckMessage :=
  (partitionOnlyKeys.filter (fun k => (getItem? members k.keyword).isSome)).map
    (fun k => e015 e015MsgPartitionOnlyKey e015HintPartitionOnlyKey queue
      ("'" ++ k.keyword ++ "', which only applies to a partitioned queue."))

/-- `validate_queue_policy`, with `none` where it raises: a storage mode that cannot be
hashed. -/
def validateQueuePolicy (texts : PolicyTexts) (queue : String) :
    PyValue → Option (List CheckMessage)
  | .dict members =>
      let storageMode := getItem? members "storage_mode"
      if storageMode.all PyValue.hashable then
        some (unknownOptionErrors texts queue members
          ++ storageModeErrors texts queue storageMode ++ partitionOnlyErrors queue members)
      else none
  | policy =>
      some [{
        msg := e003Msg ++ " Queue '" ++ queue ++ "': policy options must be a mapping, got "
          ++ texts.typeName policy ++ "."
        hint := e003HintMapping
        id := "absurd.E003" }]

theorem getItem?_pyDict (opts : QueueOptions) (key : String) :
  getItem? (opts.rows.map (fun m => (PyKey.str m.1, m.2))) key = (opts.get? key).map Prod.snd
  := by
  have hkey : (fun m => decide (m.1 = PyKey.str key)) ∘ (fun m : String × PyValue =>
      (PyKey.str m.1, m.2)) = fun m => decide (m.1 = key) := by
    funext m
    simp
  rw [getItem?, List.find?_map, Option.map_map, Keyed.Table.get?, hkey]
  rfl

/-- What the check lets through: options with valid keys, of which none is only for a
partitioned queue, and the storage mode `unpartitioned`. -/
structure CheckedOptions (opts : QueueOptions) : Prop where
  known : ∀ o ∈ opts.rows, o.1 ∈ validQueueOptionKeys
  storageMode : ∀ o, opts.get? "storage_mode" = some o → o.2 = .str "unpartitioned"
  cleanup : ∀ k v, (k, v) ∈ (mutableOptions opts).rows → k = .cleanupTtl ∨ k = .cleanupLimit

theorem checked_of_validateQueuePolicy {texts : PolicyTexts} {queue : String}
    {opts : QueueOptions} (h : validateQueuePolicy texts queue (pyDict opts.rows) = some []) :
  CheckedOptions opts
  := by
  rw [pyDict, validateQueuePolicy] at h
  split at h
  · obtain ⟨hrest, honly⟩ := List.append_eq_nil_iff.mp (Option.some.inj h)
    obtain ⟨hunknown, hmode⟩ := List.append_eq_nil_iff.mp hrest
    refine ⟨?_, ?_, ?_⟩
    · intro o ho
      have hknown := List.filter_eq_nil_iff.mp (List.map_eq_nil_iff.mp hunknown) (.str o.1, o.2)
        (List.mem_map_of_mem ho)
      simpa using hknown
    · intro o ho
      rw [getItem?_pyDict, ho, Option.map_some] at hmode
      unfold storageModeErrors at hmode
      split at hmode
      · rename_i heq
        cases heq
      · rename_i heq
        exact Option.some.inj heq
      · cases hmode
      · cases hmode
    · intro k v hk
      have hkey := mem_mutableOptions.mp hk
      have habsent : k ∉ partitionOnlyKeys := by
        intro hmem
        have hnone := List.filter_eq_nil_iff.mp (List.map_eq_nil_iff.mp honly) k hmem
        rw [getItem?_pyDict, Keyed.Table.get?_of_mem hkey] at hnone
        exact hnone rfl
      revert habsent
      cases k <;> decide
  · cases h

end DjangoAbsurd
