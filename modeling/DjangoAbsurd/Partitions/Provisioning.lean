import DjangoAbsurd.Library.Outcomes
import DjangoAbsurd.Partitions.Tables
import Mathlib.Algebra.Order.Ring.Int
import Mathlib.Tactic.Linarith

/-!
# Provisioning

`absurd.ensure_partitions` only attaches partitions of weeks, under the names of the weeks
(`Schema.Sound`). So it never tries to attach one that overlaps another, and when it succeeds a key
drawn in a week of the window goes to the partition of the week, if nothing else has the name.
-/

namespace DjangoAbsurd.Partitions

open Keyed (Table)

/-! ### Keys and weeks -/

/-- The keys of the range of a week are those drawn in the week. -/
theorem holds_week_iff {weekStart : ℤ} {lower upper id : Uuid} {ms : ℕ}
    (hweek : weekBucketUtc weekStart = weekStart) (hlower : uuidv7Floor weekStart = some lower)
    (hupper : uuidv7Floor (weekStart + week) = some upper) (hid : id.DrawnAt ms) :
  (Bound.range lower upper).Holds id ↔ weekBucketUtc (ms * 1000) = weekStart
  := by
  have hend : weekBucketUtc (weekStart + week) = weekStart + week := by
    rw [weekBucketUtc_add_week, hweek]
  have hms := week_ms hweek
  have hms' := week_ms hend
  change lower ≤ id ∧ id < upper ↔ _
  rw [floor_le_iff hlower hid, lt_floor_iff hupper hid, weekBucketUtc_eq_iff hweek, epochMs,
    epochMs]
  constructor <;> intro h <;> omega

/-- The keys `absurd.portable_uuidv7` draws are in the range of a week when they are drawn in it,
and the millisecond at which they are drawn is read back from them. -/
theorem drawn_in_week (server : Server) (clock now : ℤ) (rnd : Uuid) {weekStart : ℤ}
    {lower upper : Uuid} (hpast : 0 ≤ epochMs (server.moment clock now))
    (hfuture : epochMs (server.moment clock now) ≤ maxEpochMs)
    (hweek : weekBucketUtc weekStart = weekStart) (hlower : uuidv7Floor weekStart = some lower)
    (hupper : uuidv7Floor (weekStart + week) = some upper) :
  ((lower ≤ portableUuidv7 server clock now rnd ∧ portableUuidv7 server clock now rnd < upper)
      ↔ weekBucketUtc (server.moment clock now) = weekStart)
    ∧ uuidv7Timestamp (portableUuidv7 server clock now rnd)
      = some (epochMs (server.moment clock now) * 1000)
  := by
  have hdrawn := portableUuidv7_drawnAt server rnd hpast hfuture
  have hms := Int.toNat_of_nonneg hpast
  constructor
  · have hholds := holds_week_iff hweek hlower hupper hdrawn
    rw [hms, epochMs, weekBucketUtc_ms] at hholds
    exact hholds
  · rw [uuidv7Timestamp_of_drawnAt hdrawn, hms]

/-- The last ten bytes of an identifier of PostgreSQL 18: what is left of the millisecond, in
twelve bits, and random bytes. -/
def nativeBytes (clock : ℤ) (rnd : Uuid) : List ℕ :=
  let rest := (clock % 1000).toNat * 4096 / 1000
  [112 + rest / 256, rest % 256, (rnd.byte 8 &&& 63) ||| 128, rnd.byte 9, rnd.byte 10, rnd.byte 11,
    rnd.byte 12, rnd.byte 13, rnd.byte 14, rnd.byte 15]

theorem nativeBytes_bits (clock : ℤ) (rnd : Uuid) :
  (∀ b ∈ nativeBytes clock rnd, b < 256)
    ∧ ∃ b rest, nativeBytes clock rnd = b :: rest ∧ (112 ≤ b ∧ b < 128)
      ∧ List.Forall₂ (· ≤ ·) zeroBytes (b :: rest)
  := by
  obtain ⟨-, -, hvariant, hvariant'⟩ := version_bits (rnd.byte 8)
  have hbyte := rnd.byte_lt
  have hversion : 112 + (clock % 1000).toNat * 4096 / 1000 / 256 < 128 := by omega
  constructor
  · simp only [nativeBytes, List.forall_mem_cons, List.not_mem_nil, false_imp_iff, implies_true,
      and_true]
    exact ⟨by omega, by omega, hvariant', hbyte 9, hbyte 10, hbyte 11, hbyte 12, hbyte 13,
      hbyte 14, hbyte 15⟩
  · refine ⟨_, _, rfl, ⟨by omega, hversion⟩, ?_⟩
    simp only [zeroBytes, List.forall₂_cons, List.forall₂_nil_right_iff, Nat.zero_le, true_and,
      and_true]
    exact ⟨Nat.le_add_right 112 _, hvariant⟩

/-- A server with `uuidv7()`. -/
def postgres18 : Server where
  uuidv7 := some (fun clock rnd =>
    { bytes := timestampBytes (epochMs clock) ++ nativeBytes clock rnd
      length_bytes := rfl
      small := append_lt (timestampBytes_lt _) (nativeBytes_bits clock rnd).1 })
  drawn := by
    rintro _ ⟨⟩ clock rnd hpast hfuture
    obtain ⟨-, b, rest, hbytes, hversion, hrest⟩ := nativeBytes_bits clock rnd
    apply drawnAt_of_bytes _ hversion hrest hpast hfuture
    rw [← hbytes]

/-- A task that is spawned on 6 January 1970, while `absurd.fake_now` is the epoch. -/
theorem drawn_in_week_epoch : ∃ lower upper rnd,
  uuidv7Floor (4 * day) = some lower ∧ uuidv7Floor (4 * day + week) = some upper
    ∧ ((lower ≤ portableUuidv7 postgres18 (5 * day) 0 rnd
        ∧ portableUuidv7 postgres18 (5 * day) 0 rnd < upper)
      ↔ weekBucketUtc (5 * day) = 4 * day)
    ∧ uuidv7Timestamp (portableUuidv7 postgres18 (5 * day) 0 rnd) = some (5 * day)
  := by
  have hweek : weekBucketUtc (4 * day) = 4 * day := by decide
  obtain ⟨hholds, hread⟩ := drawn_in_week postgres18 (5 * day) 0
    ⟨List.replicate 16 0, rfl, by decide⟩ (by decide) (by decide) hweek rfl rfl
  exact ⟨_, _, _, rfl, rfl, hholds, hread⟩

/-! ### Names -/

theorem letter_mem (f : Family) :
  f.letter ∈ allTablePrefixes
  := by
  cases f <;> decide

theorem parentTable_inj {f f' : Family} {q q' : String} (h : parentTable f q = parentTable f' q') :
  f = f' ∧ q = q'
  := by
  obtain ⟨hletter, hq⟩ := queueTable_inj (letter_mem f) (letter_mem f') h
  refine ⟨?_, hq⟩
  cases f <;> cases f' <;> first | rfl | exact absurd hletter (by decide)

theorem length_partitionWeekTag (ts : ℤ) :
  (partitionWeekTag ts).toList.length = 3
  := by
  obtain ⟨y, -, w, -, htag⟩ := toList_partitionWeekTag ts
  rw [htag]
  rfl

theorem weekTable_inj {f f' : Family} {q q' : String} {a b : ℤ}
    (h : weekTable f q a = weekTable f' q' b) :
  f = f' ∧ q = q' ∧ partitionWeekTag a = partitionWeekTag b
  := by
  have hlists := congrArg String.toList h
  simp only [weekTable, String.toList_append] at hlists
  obtain ⟨hparent, htag⟩ := List.append_inj' hlists
    (by rw [length_partitionWeekTag, length_partitionWeekTag])
  have hparent : parentTable f q = parentTable f' q' :=
    String.toList_injective (List.append_cancel_right hparent)
  obtain ⟨hf, hq⟩ := parentTable_inj hparent
  exact ⟨hf, hq, String.toList_injective htag⟩

theorem weekTable_ne_defaultTable {f f' : Family} {q q' : String} {a : ℤ} :
  weekTable f q a ≠ defaultTable f' q'
  := by
  intro h
  obtain ⟨y, -, w, -, htag⟩ := toList_partitionWeekTag a
  have hlast := congrArg (fun s : String => s.toList.getLast?) h
  simp only [weekTable, defaultTable, String.toList_append, htag] at hlast
  have hdigit : Nat.digitChar (w % 10) = 'd' := by
    rw [List.getLast?_append_of_ne_nil _ (by simp),
      List.getLast?_append_of_ne_nil _ (by simp)] at hlast
    simpa using hlast
  have hcode := congrArg Char.toNat hdigit
  rw [Nat.toNat_digitChar_of_lt_ten (by omega)] at hcode
  change 48 + w % 10 = 100 at hcode
  omega

/-! ### Partitions of weeks -/

/-- The partition of a week. -/
structure Child.OfWeek (c : Child) (f : Family) (q : String) (weekStart : ℤ) : Prop where
  relname : c.relname = weekTable f q weekStart
  inhparent : c.inhparent = parentTable f q
  monday : weekBucketUtc weekStart = weekStart
  bound : ∃ lower upper, uuidv7Floor weekStart = some lower
    ∧ uuidv7Floor (weekStart + week) = some upper ∧ c.bound = .range lower upper

/-- The default partition. -/
structure Child.OfRest (c : Child) (f : Family) (q : String) : Prop where
  relname : c.relname = defaultTable f q
  inhparent : c.inhparent = parentTable f q
  bound : c.bound = .default

/-- The partition is one that `absurd.ensure_partitions` makes. -/
def Child.Made (c : Child) : Prop := ∃ f q, c.OfRest f q ∨ ∃ weekStart, c.OfWeek f q weekStart

theorem Child.OfWeek.holds_iff {c : Child} {f : Family} {q : String} {weekStart : ℤ}
    (h : c.OfWeek f q weekStart) {id : Uuid} {ms : ℕ} (hid : id.DrawnAt ms) :
  c.bound.Holds id ↔ weekBucketUtc (ms * 1000) = weekStart
  := by
  obtain ⟨lower, upper, hlower, hupper, hbound⟩ := h.bound
  rw [hbound]
  exact holds_week_iff h.monday hlower hupper hid

theorem Child.OfWeek.isDefault {c : Child} {f : Family} {q : String} {weekStart : ℤ}
    (h : c.OfWeek f q weekStart) :
  c.bound.isDefault = false
  := by
  obtain ⟨lower, upper, -, -, hbound⟩ := h.bound
  rw [hbound]
  rfl

/-- A partition of a table that is not its default partition is that of a week. -/
theorem Child.Made.ofWeek {c : Child} (h : c.Made) {f : Family} {q : String}
    (hparent : c.inhparent = parentTable f q) (hdefault : c.bound.isDefault = false) :
  ∃ weekStart, c.OfWeek f q weekStart
  := by
  obtain ⟨f', q', hrest | ⟨weekStart, hweek⟩⟩ := h
  · rw [hrest.bound] at hdefault
    cases hdefault
  · obtain ⟨rfl, rfl⟩ := parentTable_inj (hweek.inhparent.symm.trans hparent)
    exact ⟨weekStart, hweek⟩

theorem Child.Made.ofRest {c : Child} (h : c.Made) {f : Family} {q : String}
    (hparent : c.inhparent = parentTable f q) (hdefault : c.bound.isDefault = true) :
  c.OfRest f q
  := by
  obtain ⟨f', q', hrest | ⟨weekStart, hweek⟩⟩ := h
  · obtain ⟨rfl, rfl⟩ := parentTable_inj (hrest.inhparent.symm.trans hparent)
    exact hrest
  · rw [hweek.isDefault] at hdefault
    cases hdefault

/-- Partitions of weeks that overlap are of the same week. -/
theorem Child.OfWeek.eq_of_meets {c : Child} {f : Family} {q : String} {a b : ℤ}
    (h : c.OfWeek f q a) (hb : weekBucketUtc b = b) {lower upper : Uuid}
    (hlower : uuidv7Floor b = some lower) (hupper : uuidv7Floor (b + week) = some upper)
    (hmeets : c.bound.Meets lower upper) :
  a = b
  := by
  obtain ⟨lower', upper', hlower', hupper', hbound⟩ := h.bound
  rw [hbound] at hmeets
  obtain ⟨hfirst, hsecond⟩ := hmeets
  rw [floor_lt_floor_iff hlower' hupper, epochMs, epochMs] at hfirst
  rw [floor_lt_floor_iff hlower hupper', epochMs, epochMs] at hsecond
  apply eq_of_near h.monday hb <;> omega

/-! ### Sound schemas -/

/-- Every partition is one that `absurd.ensure_partitions` makes, of a table that is there, and no
partitioned table has the name of one. -/
structure Schema.Sound (s : Schema) : Prop where
  made : ∀ c ∈ s.attached.rows, c.Made
  parented : ∀ c ∈ s.attached.rows, c.inhparent ∈ s.parents
  apart : ∀ c ∈ s.attached.rows, c.relname ∉ s.parents

/-- Relations of new names are created, and the partitions among them are empty. -/
structure Schema.Grows (s s' : Schema) : Prop where
  has : ∀ name, s.Has name → s'.Has name
  parents : ∀ name ∈ s'.parents, name ∈ s.parents ∨ ¬ s.Has name
  kept : ∀ c ∈ s.attached.rows, c ∈ s'.attached.rows
  added : ∀ c ∈ s'.attached.rows, c ∈ s.attached.rows ∨ (c.rows = [] ∧ ¬ s.Has c.relname)

/-- Schemas are ordered by growth. -/
instance : Preorder Schema where
  le := Schema.Grows
  le_refl s := ⟨fun _ h => h, fun _ h => .inl h, fun _ h => h, fun _ h => .inl h⟩
  le_trans s s' s'' h h' := {
    has := fun name hname => h'.has name (h.has name hname)
    parents := by
      intro name hname
      rcases h'.parents name hname with hname | hnew
      · exact h.parents name hname
      · exact .inr (fun hname => hnew (h.has name hname))
    kept := fun c hc => h'.kept c (h.kept c hc)
    added := by
      intro c hc
      rcases h'.added c hc with hc | ⟨hrows, hnew⟩
      · exact h.added c hc
      · exact .inr ⟨hrows, fun hname => hnew (h.has _ hname)⟩ }

/-- Having a name stays as the schema grows. -/
theorem monotone_has (name : String) :
  Monotone (fun s : Schema => s.Has name)
  := fun _ _ h => Schema.Grows.has h name

theorem Schema.has_of_mem {s : Schema} {c : Child} (hc : c ∈ s.attached.rows) :
  s.Has c.relname
  := .inr (.inl (List.mem_map_of_mem hc))

theorem Schema.has_attach (s : Schema) (name parent : String) (bound : Bound) :
  (s.attach name parent bound).Has name
  := Schema.has_of_mem (c := ⟨name, parent, bound, []⟩) (Table.mem_put.mpr (.inl rfl))

theorem Schema.le_attach {s : Schema} {name : String} (hnew : ¬ s.Has name) (parent : String)
    (bound : Bound) :
  s ≤ s.attach name parent bound
  := by
  have hkept : ∀ c ∈ s.attached.rows, c ∈ (s.attach name parent bound).attached.rows := by
    intro c hc
    apply Table.mem_put.mpr
    right
    refine ⟨hc, ?_⟩
    rintro rfl
    exact hnew (Schema.has_of_mem hc)
  constructor
  · intro name' hname
    rcases hname with hname | hname | hname
    · exact .inl hname
    · obtain ⟨c, hc, rfl⟩ := List.mem_map.mp hname
      exact Schema.has_of_mem (hkept c hc)
    · exact .inr (.inr hname)
  · exact fun _ hname => .inl hname
  · exact hkept
  · intro c hc
    rcases Table.mem_put.mp hc with rfl | ⟨hc, -⟩
    · exact .inr ⟨rfl, hnew⟩
    · exact .inl hc

theorem Schema.Sound.attach {s : Schema} (h : s.Sound) {name parent : String} {bound : Bound}
    (hnew : ¬ s.Has name) (hparent : parent ∈ s.parents)
    (hmade : (Child.mk name parent bound []).Made) :
  (s.attach name parent bound).Sound
  := by
  constructor
  · intro c hc
    rcases Table.mem_put.mp hc with rfl | ⟨hc, -⟩
    · exact hmade
    · exact h.made c hc
  · intro c hc
    rcases Table.mem_put.mp hc with rfl | ⟨hc, -⟩
    · exact hparent
    · exact h.parented c hc
  · intro c hc
    rcases Table.mem_put.mp hc with rfl | ⟨hc, -⟩
    · exact fun hparent => hnew (.inl hparent)
    · exact h.apart c hc

/-! ### What provisioning does -/

/-- The refusal says that two partitions collide. -/
def Refusal.collision : Refusal → Bool
  | .emptyRange _ | .overlap _ | .secondDefault _ => true
  | .queueName _ | .unknownQueue _ | .outOfRange _ | .notPartitioned _ | .defaultHoldsRows _
  | .defaultNotEmpty _ | .modeMismatch _ => false

/-- The step leaves a sound schema that has the names, or fails for no collision. -/
def Provides (s : Schema) (x : Except Refusal Schema) (names : Set String) : Prop :=
  x.Yields (fun s' => s'.Sound ∧ s ≤ s' ∧ ∀ name ∈ names, s'.Has name)
    (fun e => e.collision = false)

/-- The default partition of a table is made, or its name is taken. -/
theorem createPartition_default {s : Schema} (hs : s.Sound) (f : Family) (q : String) :
  Provides s (s.createPartition (defaultTable f q) (parentTable f q) .default) {defaultTable f q}
  := by
  rw [Provides, Schema.createPartition]
  split
  · rename_i hname
    exact ⟨hs, le_rfl, fun name hmem => hmem ▸ hname⟩
  · rename_i hname
    split
    · rfl
    · rename_i htable
      split
      · rename_i hdefault
        obtain ⟨c, hc, hparent⟩ := List.any_eq_true.mp hdefault
        rw [Bool.and_eq_true, decide_eq_true_eq] at hparent
        have hrest := (hs.made c hc).ofRest hparent.1 hparent.2
        exact absurd (hrest.relname ▸ Schema.has_of_mem hc) hname
      · refine ⟨hs.attach hname (not_not.mp htable) ⟨f, q, .inl ⟨rfl, rfl, rfl⟩⟩,
          Schema.le_attach hname _ _, ?_⟩
        rintro name rfl
        apply Schema.has_attach

/-- The partition of a week is made, or its name is taken. -/
theorem createPartition_week {s : Schema} (hs : s.Sound) (f : Family) (q : String) {weekStart : ℤ}
    (hweek : weekBucketUtc weekStart = weekStart) {lower upper : Uuid}
    (hlower : uuidv7Floor weekStart = some lower)
    (hupper : uuidv7Floor (weekStart + week) = some upper) :
  Provides s
    (s.createPartition (weekTable f q weekStart) (parentTable f q) (.range lower upper))
    {weekTable f q weekStart}
  := by
  rw [Provides, Schema.createPartition]
  split
  · rename_i hname
    exact ⟨hs, le_rfl, fun name hmem => hmem ▸ hname⟩
  · rename_i hname
    split
    · rfl
    · rename_i htable
      split
      · rename_i hempty
        have hlt := (floor_lt_floor_iff hlower hupper).mpr (by
          rw [epochMs, epochMs, week, day]
          omega)
        exact absurd hlt hempty
      · split
        · rename_i hmeets
          obtain ⟨c, hc, hparent⟩ := List.any_eq_true.mp hmeets
          rw [Bool.and_eq_true, decide_eq_true_eq, decide_eq_true_eq] at hparent
          obtain ⟨hparent, hmeets⟩ := hparent
          obtain ⟨a, ha⟩ := (hs.made c hc).ofWeek hparent (Bound.isDefault_of_meets hmeets)
          obtain rfl := ha.eq_of_meets hweek hlower hupper hmeets
          exact absurd (ha.relname ▸ Schema.has_of_mem hc) hname
        · split
          · rfl
          · refine ⟨hs.attach hname (not_not.mp htable) ⟨f, q, .inr ⟨weekStart, ?_⟩⟩,
              Schema.le_attach hname _ _, ?_⟩
            · exact ⟨rfl, rfl, hweek, lower, upper, hlower, hupper, rfl⟩
            · rintro name rfl
              apply Schema.has_attach

theorem Provides.mono {s : Schema} {x : Except Refusal Schema} {names names' : Set String}
    (h : Provides s x names) (hsub : names' ⊆ names) :
  Provides s x names'
  := by
  apply Except.Yields.mono h
  · rintro s' ⟨hs', hle, hnames⟩
    exact ⟨hs', hle, fun name hname => hnames name (hsub hname)⟩
  · exact fun e he => he

/-- The names a first step leaves are there after a second. -/
theorem Provides.bind {s : Schema} {x : Except Refusal Schema} {names names' : Set String}
    {f : Schema → Except Refusal Schema} (h : Provides s x names)
    (hf : ∀ s', s'.Sound → Provides s' (f s') names') :
  Provides s (x >>= f) (names ∪ names')
  := by
  apply Except.Yields.bind h
  rintro s₁ ⟨hs₁, hle, hnames⟩
  apply Except.Yields.mono (hf s₁ hs₁)
  · rintro s' ⟨hs', hle', hnames'⟩
    refine ⟨hs', hle.trans hle', ?_⟩
    rintro name (hname | hname)
    · exact monotone_has name hle' (hnames name hname)
    · exact hnames' name hname
  · exact fun e he => he

/-- The names each step of a fold leaves are there after it. -/
theorem provides_foldlM {α : Type} {step : Schema → α → Except Refusal Schema}
    {names : α → Set String} {as : List α} {s : Schema}
    (hstep : ∀ a, ∀ s, s.Sound → Provides s (step s a) (names a)) (hs : s.Sound) :
  Provides s (as.foldlM step s) {name | ∃ a ∈ as, name ∈ names a}
  := by
  have hmono : ∀ a, Monotone (fun s : Schema => ∀ name ∈ names a, s.Has name) :=
    fun a s s' hle hnames name hname => monotone_has name hle (hnames name hname)
  apply (Except.Yields.foldlM hmono (fun a _ => hstep a) hs).mono
  · rintro s' ⟨hs', hle, hall⟩
    refine ⟨hs', hle, ?_⟩
    rintro name ⟨a, ha, hname⟩
    exact hall a ha name hname
  · exact fun e he => he

theorem ensureDefaults_provides {s : Schema} (hs : s.Sound) (q : QueueRow) :
  Provides s (ensureDefaults q s) ∅
  := by
  rw [ensureDefaults]
  split
  · apply (provides_foldlM (fun f _ hs => createPartition_default hs f q.queueName) hs).mono
    exact Set.empty_subset _
  · exact ⟨hs, le_rfl, fun name hname => absurd hname (Set.notMem_empty name)⟩

/-- The tables of a week of a queue. -/
def weekTables (q : String) (weekStart : ℤ) : Set String :=
  {name | ∃ f, name = weekTable f q weekStart}

theorem floorOrRefuse_yields (ts : ℤ) :
  (floorOrRefuse ts).Yields (fun id => uuidv7Floor ts = some id) (fun e => e.collision = false)
  := by
  rw [floorOrRefuse]
  cases uuidv7Floor ts <;> rfl

theorem ensureWeek_provides {s : Schema} (hs : s.Sound) (q : QueueRow) {weekStart : ℤ}
    (hweek : weekBucketUtc weekStart = weekStart) :
  Provides s (ensureWeek q weekStart s) (weekTables q.queueName weekStart)
  := by
  apply (floorOrRefuse_yields weekStart).bind
  intro lower hlower
  apply (floorOrRefuse_yields (weekStart + week)).bind
  intro upper hupper
  apply (provides_foldlM (fun f s hs =>
    createPartition_week hs f q.queueName hweek hlower hupper) hs).mono
  rintro name ⟨f, rfl⟩
  exact ⟨f, mem_families f, rfl⟩

/-- The loop goes through the weeks it has the rounds for, up to the end of the window. -/
theorem ensureWeeks_provides {s : Schema} (hs : s.Sound) (q : QueueRow) (windowEnd : ℤ) (rounds : ℕ)
    {weekStart : ℤ} (hweek : weekBucketUtc weekStart = weekStart) :
  Provides s (ensureWeeks q windowEnd rounds weekStart s)
    {name | ∃ n < rounds, weekStart + n * week ≤ windowEnd
      ∧ name ∈ weekTables q.queueName (weekStart + n * week)}
  := by
  induction rounds generalizing s weekStart with
  | zero =>
      refine ⟨hs, le_rfl, ?_⟩
      rintro name ⟨n, hn, -⟩
      exact absurd hn (Nat.not_lt_zero n)
  | succ rounds ih =>
      rw [ensureWeeks]
      split
      · have hnext : weekBucketUtc (weekStart + week) = weekStart + week := by
          rw [weekBucketUtc_add_week, hweek]
        apply ((ensureWeek_provides hs q hweek).bind (fun s hs => ih hs hnext)).mono
        rintro name ⟨n, hn, hend, hname⟩
        cases n with
        | zero =>
            left
            simpa using hname
        | succ n =>
            have hstart : weekStart + week + n * week = weekStart + (n + 1 : ℕ) * week := by
              push_cast
              ring
            right
            exact ⟨n, Nat.lt_of_succ_lt_succ hn, by rwa [hstart], by rwa [hstart]⟩
      · rename_i hend
        refine ⟨hs, le_rfl, ?_⟩
        rintro name ⟨n, -, hle, -⟩
        have hpos : 0 ≤ (n : ℤ) * week := mul_nonneg n.cast_nonneg (by decide)
        omega

/-- The week is in the window of the queue. -/
structure QueueRow.InWindow (q : QueueRow) (now : ℤ) (weekStart : ℤ) : Prop where
  monday : weekBucketUtc weekStart = weekStart
  after : q.windowStart now ≤ weekStart
  before : weekStart ≤ q.windowEnd now

theorem ensureQueue_provides {s : Schema} (hs : s.Sound) (now : ℤ) (q : QueueRow) :
  Provides s (ensureQueue now s q)
    {name | ∃ weekStart, q.InWindow now weekStart ∧ name ∈ weekTables q.queueName weekStart}
  := by
  have hstart : weekBucketUtc (q.windowStart now) = q.windowStart now := weekBucketUtc_self _
  apply ((ensureDefaults_provides hs q).bind (fun s hs =>
    ensureWeeks_provides hs q (q.windowEnd now) (q.rounds now) hstart)).mono
  rintro name ⟨weekStart, hwindow, hname⟩
  obtain ⟨n, rfl, hn⟩ := exists_weeks hstart hwindow.monday hwindow.after
  right
  refine ⟨n, ?_, hwindow.before, hname⟩
  have hrounds : (q.windowStart now + n * week - q.windowStart now) / week
      ≤ (q.windowEnd now - q.windowStart now) / week :=
    Int.ediv_le_ediv (by decide) (by linarith [hwindow.before])
  rw [QueueRow.rounds]
  omega

theorem checkQueue_yields (queues : List QueueRow) (queueName : Option String) :
  (checkQueue queues queueName).Yields (fun _ => True) (fun e => e.collision = false)
  := by
  cases queueName with
  | none => trivial
  | some queueName =>
      rw [checkQueue]
      split
      · rfl
      · split
        · trivial
        · rfl

/-- Provisioning leaves a table for each week of the window of each queue it is about, or fails for
no collision. -/
theorem ensurePartitions_provides {s : Schema} (hs : s.Sound) (now : ℤ) (queues : List QueueRow)
    (queueName : Option String) :
  Provides s (ensurePartitions now queues queueName s)
    {name | ∃ q ∈ selected queues queueName, ∃ weekStart, q.InWindow now weekStart
      ∧ name ∈ weekTables q.queueName weekStart}
  := by
  apply (checkQueue_yields queues queueName).bind
  intro _ _
  exact provides_foldlM (fun q s hs => ensureQueue_provides hs now q) hs

/-! ### Routing -/

/-- Something else than the partition of the week has its name: another relation, or the partition
of a week at least ten years away. -/
def Schema.Usurped (s : Schema) (f : Family) (q : String) (weekStart : ℤ) : Prop :=
  weekTable f q weekStart ∈ s.parents ∨ weekTable f q weekStart ∈ s.detached.rows.map Prod.fst
    ∨ weekTable f q weekStart ∈ s.others
    ∨ ∃ c ∈ s.attached.rows, ∃ other, c.OfWeek f q other
      ∧ partitionWeekTag other = partitionWeekTag weekStart
      ∧ (other + 521 * week ≤ weekStart ∨ weekStart + 521 * week ≤ other)

/-- A relation of the name of a week is its partition, or the name is usurped. -/
theorem Schema.Sound.ofWeek_of_has {s : Schema} (hs : s.Sound) {f : Family} {q : String}
    {weekStart : ℤ} (hweek : weekBucketUtc weekStart = weekStart)
    (h : s.Has (weekTable f q weekStart)) :
  (∃ c ∈ s.attached.rows, c.OfWeek f q weekStart) ∨ s.Usurped f q weekStart
  := by
  rcases h with hname | hname | hname | hname
  · exact .inr (.inl hname)
  · obtain ⟨c, hc, hrelname⟩ := List.mem_map.mp hname
    obtain ⟨f', q', hrest | ⟨other, hother⟩⟩ := hs.made c hc
    · exact absurd (hrelname.symm.trans hrest.relname) weekTable_ne_defaultTable
    · obtain ⟨rfl, rfl, htag⟩ := weekTable_inj (hother.relname.symm.trans hrelname)
      have happart := partitionWeekTag_inj htag
      rw [hother.monday, hweek] at happart
      rcases happart with rfl | hfar
      · exact .inl ⟨c, hc, hother⟩
      · exact .inr (.inr (.inr (.inr ⟨c, hc, other, hother, htag, hfar⟩)))
  · exact .inr (.inr (.inl hname))
  · exact .inr (.inr (.inr (.inl hname)))

/-- A key that is drawn in a week goes to the partition of the week. -/
theorem Schema.Sound.route_week {s : Schema} (hs : s.Sound) {c : Child} (hc : c ∈ s.attached.rows)
    {f : Family} {q : String} {weekStart : ℤ} (h : c.OfWeek f q weekStart) {id : Uuid} {ms : ℕ}
    (hid : id.DrawnAt ms) (hms : weekBucketUtc (ms * 1000) = weekStart) :
  s.route (parentTable f q) id = some c
  := by
  rw [Schema.route]
  cases hfind : s.attached.rows.find?
      (fun c => c.inhparent = parentTable f q && c.bound.Holds id) with
  | none =>
      have hnone := List.find?_eq_none.mp hfind c hc
      rw [Bool.and_eq_true, decide_eq_true_eq, decide_eq_true_eq] at hnone
      exact absurd ⟨h.inhparent, (h.holds_iff hid).mpr hms⟩ hnone
  | some c' =>
      have hc' := List.mem_of_find?_eq_some hfind
      have hfound := List.find?_some hfind
      rw [Bool.and_eq_true, decide_eq_true_eq, decide_eq_true_eq] at hfound
      obtain ⟨hparent, hholds⟩ := hfound
      obtain ⟨other, hother⟩ := (hs.made c' hc').ofWeek hparent (Bound.isDefault_of_holds hholds)
      have hsame : other = weekStart := ((hother.holds_iff hid).mp hholds).symm.trans hms
      rw [hsame] at hother
      have heq : c' = c := Table.eq_of_key_eq hc' hc (hother.relname.trans h.relname.symm)
      rw [heq, Option.some_or]

end DjangoAbsurd.Partitions
