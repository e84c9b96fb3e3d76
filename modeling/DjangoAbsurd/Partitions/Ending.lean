import DjangoAbsurd.Partitions.Detaching

/-!
# Weeks that have ended

The partition of a week that has ended (`Ended`) stays as empty as it is, whatever happens to the
schema, when the rows of its table are inserted under keys that are drawn then.
-/

namespace DjangoAbsurd.Partitions

open Keyed (Table)

/-- Rows of the table are inserted under a key that is drawn then. -/
def Family.drawn : Family → Bool
  | tasks | runs => true
  | checkpoints | waits => false

theorem keyOf_of_drawn {server : Server} {clock now : ℤ} {f : Family} {id : Uuid}
    (h : f.drawn = true) :
  keyOf server clock now f id = portableUuidv7 server clock now id
  := by
  cases f with
  | tasks | runs => rfl
  | checkpoints | waits => cases h

/-- The week has ended, its name is taken by no partitioned table, and the partition, when it is
there, is empty, unless the rows of its table have older keys. -/
structure Ended (s : Schema) (now : ℤ) (f : Family) (q : String) (weekStart : ℤ) : Prop where
  monday : weekBucketUtc weekStart = weekStart
  closed : weekStart + week ≤ now
  has : s.Has (weekTable f q weekStart)
  apart : weekTable f q weekStart ∉ s.parents
  child : ∀ c ∈ s.attached.rows, c.relname = weekTable f q weekStart →
    c.OfWeek f q weekStart ∧ (f.drawn = true → c.rows = [])

/-- New relations leave the weeks as they are. -/
theorem Ended.of_le {s s' : Schema} {now : ℤ} {f : Family} {q : String} {weekStart : ℤ}
    (h : Ended s now f q weekStart) (hle : s ≤ s') :
  Ended s' now f q weekStart
  := by
  refine ⟨h.monday, h.closed, hle.has _ h.has, ?_, ?_⟩
  · intro hparent
    rcases hle.parents _ hparent with hparent | hnew
    · exact h.apart hparent
    · exact hnew h.has
  · intro c hc hname
    rcases hle.added c hc with hc | ⟨-, hnew⟩
    · exact h.child c hc hname
    · rw [hname] at hnew
      exact absurd h.has hnew

/-! ### Other relations -/

theorem createOther_grows {s : Schema} (hs : s.Sound) (name : String) :
  (s.createOther name).Sound ∧ s ≤ s.createOther name
  := by
  rw [Schema.createOther]
  split
  · exact ⟨hs, le_rfl⟩
  · constructor
    · exact ⟨hs.made, hs.parented, hs.apart⟩
    · refine ⟨?_, fun _ h => .inl h, fun _ h => h, fun _ h => .inl h⟩
      rintro name' (hname | hname | hname | hname)
      · exact .inl hname
      · exact .inr (.inl hname)
      · exact .inr (.inr (.inl hname))
      · exact .inr (.inr (.inr (List.mem_cons_of_mem _ hname)))

theorem createParent_grows {s : Schema} (hs : s.Sound) (name : String) :
  (s.createParent name).Sound ∧ s ≤ s.createParent name
  := by
  rw [Schema.createParent]
  split
  · exact ⟨hs, le_rfl⟩
  · rename_i hnew
    constructor
    · refine ⟨hs.made, fun c hc => List.mem_cons_of_mem _ (hs.parented c hc), ?_⟩
      intro c hc hparent
      rcases List.mem_cons.mp hparent with hname | hparent
      · exact hnew (hname ▸ Schema.has_of_mem hc)
      · exact hs.apart c hc hparent
    · refine ⟨?_, ?_, fun _ h => h, fun _ h => .inl h⟩
      · rintro name' (hname | hname)
        · exact .inl (List.mem_cons_of_mem _ hname)
        · exact .inr hname
      · intro name' hname
        rcases List.mem_cons.mp hname with rfl | hname
        · exact .inr hnew
        · exact .inl hname

/-- A fold of steps that let a sound schema grow lets it grow. -/
theorem foldl_grows {α : Type} {step : Schema → α → Schema}
    (hstep : ∀ s a, s.Sound → (step s a).Sound ∧ s ≤ step s a) (as : List α) {s : Schema}
    (hs : s.Sound) :
  (as.foldl step s).Sound ∧ s ≤ as.foldl step s
  := by
  induction as generalizing s with
  | nil => exact ⟨hs, le_rfl⟩
  | cons a as ih =>
      obtain ⟨hs₁, hle⟩ := hstep s a hs
      obtain ⟨hs', hle'⟩ := ih hs₁
      exact ⟨hs', hle.trans hle'⟩

theorem createQueueTables_grows {s : Schema} (hs : s.Sound) (queueName : String)
    (partitioned : Bool) :
  (s.createQueueTables queueName partitioned).Sound
    ∧ s ≤ s.createQueueTables queueName partitioned
  := by
  have hparents := foldl_grows (fun s f hs => by
    show (if partitioned then s.createParent (parentTable f queueName)
        else s.createOther (parentTable f queueName)).Sound
      ∧ s ≤ if partitioned then s.createParent (parentTable f queueName)
        else s.createOther (parentTable f queueName)
    split
    · exact createParent_grows hs _
    · exact createOther_grows hs _) families hs
  obtain ⟨hs₁, hle⟩ := hparents
  obtain ⟨hs', hle'⟩ := foldl_grows (fun s name hs => createOther_grows hs name) _ hs₁
  exact ⟨hs', hle.trans hle'⟩

/-- What provisioning leaves is sound and has grown. -/
theorem ensurePartitions_grows {s s' : Schema} (hs : s.Sound) {now : ℤ}
    {queues : List QueueRow} {queueName : Option String}
    (h : ensurePartitions now queues queueName s = .ok s') :
  s'.Sound ∧ s ≤ s'
  := by
  obtain ⟨hs', hle, -⟩ := (ensurePartitions_provides hs now queues queueName).of_ok h
  exact ⟨hs', hle⟩

theorem createQueue_grows {s : Schema} (hs : s.Sound) {now : ℤ} {queueName : String}
    {partitioned : Bool} {queues : List QueueRow} {r : List QueueRow × Schema}
    (h : createQueue now queueName partitioned queues s = .ok r) :
  r.2.Sound ∧ s ≤ r.2
  := by
  rw [createQueue] at h
  split at h
  · cases h
  · dsimp only at h
    split at h
    · cases h
    · obtain ⟨hs₁, hle⟩ := createQueueTables_grows hs queueName partitioned
      split at h
      · obtain ⟨s', hs', rfl⟩ := Except.map_eq_ok h
        obtain ⟨hsound, hle'⟩ := ensurePartitions_grows hs₁ hs'
        exact ⟨hsound, hle.trans hle'⟩
      · cases h
        exact ⟨hs₁, hle⟩

/-! ### Fewer default partitions -/

/-- Empty default partitions are gone. -/
structure Sheds (s s' : Schema) : Prop where
  parents : s'.parents = s.parents
  detached : s'.detached = s.detached
  others : s'.others = s.others
  kept : ∀ c ∈ s'.attached.rows, c ∈ s.attached.rows
  gone : ∀ c ∈ s.attached.rows, c ∈ s'.attached.rows
    ∨ (c.rows = [] ∧ ∃ f q, c.relname = defaultTable f q)

theorem Sheds.trans {s s' s'' : Schema} (h : Sheds s s') (h' : Sheds s' s'') :
  Sheds s s''
  := by
  refine ⟨h'.parents.trans h.parents, h'.detached.trans h.detached, h'.others.trans h.others,
    fun c hc => h.kept c (h'.kept c hc), ?_⟩
  intro c hc
  rcases h.gone c hc with hc | hgone
  · exact h'.gone c hc
  · exact .inr hgone

theorem Sheds.sound {s s' : Schema} (h : Sheds s s') (hs : s.Sound) :
  s'.Sound
  := by
  refine ⟨fun c hc => hs.made c (h.kept c hc), ?_, ?_⟩
  · intro c hc
    rw [h.parents]
    exact hs.parented c (h.kept c hc)
  · intro c hc
    rw [h.parents]
    exact hs.apart c (h.kept c hc)

theorem Sheds.ended {s s' : Schema} (h : Sheds s s') {now : ℤ} {f : Family} {q : String}
    {weekStart : ℤ} (hended : Ended s now f q weekStart) :
  Ended s' now f q weekStart
  := by
  refine ⟨hended.monday, hended.closed, ?_, ?_, fun c hc => hended.child c (h.kept c hc)⟩
  · rcases hended.has with hname | hname | hname | hname
    · exact .inl (by rwa [h.parents])
    · obtain ⟨c, hc, hrelname⟩ := List.mem_map.mp hname
      rcases h.gone c hc with hc' | ⟨-, f', q', hdefault⟩
      · exact .inr (.inl (List.mem_map.mpr ⟨c, hc', hrelname⟩))
      · exact absurd (hrelname.symm.trans hdefault) weekTable_ne_defaultTable
    · exact .inr (.inr (.inl (by rwa [h.detached])))
    · exact .inr (.inr (.inr (by rwa [h.others])))
  · rw [h.parents]
    exact hended.apart

theorem disableDefault_sheds {s s' : Schema} {queueName : String} {f : Family}
    (h : s.disableDefault queueName f = .ok s') :
  Sheds s s'
  := by
  have hrefl : Sheds s s := ⟨rfl, rfl, rfl, fun _ hc => hc, fun _ hc => .inl hc⟩
  rw [Schema.disableDefault] at h
  split at h
  · cases h
    exact hrefl
  · rename_i c hc
    split at h
    · cases h
      exact hrefl
    · split at h
      · cases h
      · rename_i hrows
        cases h
        refine ⟨rfl, rfl, rfl, fun c hc => (Table.mem_delete.mp hc).1, ?_⟩
        intro c' hc'
        by_cases hname : c'.relname = defaultTable f queueName
        · right
          have heq : c' = c := Table.eq_of_key_eq hc' (Table.mem_of_get? hc)
            (hname.trans (Table.key_of_get? hc).symm)
          rw [heq]
          exact ⟨not_not.mp hrows, f, queueName, Table.key_of_get? hc⟩
        · left
          exact Table.mem_delete.mpr ⟨hc', decide_eq_false hname⟩

theorem disableDefaults_sheds {queueName : String} {fs : List Family} {s s' : Schema}
    (h : fs.foldlM (Schema.disableDefault queueName) s = .ok s') :
  Sheds s s'
  := by
  induction fs generalizing s with
  | nil =>
      cases h
      exact ⟨rfl, rfl, rfl, fun _ hc => hc, fun _ hc => .inl hc⟩
  | cons f fs ih =>
      obtain ⟨s₁, hs₁, hrest⟩ := Except.foldlM_cons_eq_ok.mp h
      exact (disableDefault_sheds hs₁).trans (ih hrest)

/-- A new policy lets the schema grow, or drops default partitions. -/
theorem setQueuePolicy_changes {s : Schema} (hs : s.Sound) {now : ℤ} {q : QueueRow}
    {queues : List QueueRow} {r : List QueueRow × Schema}
    (h : setQueuePolicy now q queues s = .ok r) :
  r.2.Sound ∧ (s ≤ r.2 ∨ Sheds s r.2)
  := by
  rw [setQueuePolicy] at h
  split at h
  · cases h
  · dsimp only at h
    split at h
    · obtain ⟨s', hs', rfl⟩ := Except.map_eq_ok h
      split at hs'
      · obtain ⟨hsound, hle⟩ := ensurePartitions_grows hs hs'
        exact ⟨hsound, .inl hle⟩
      · have hsheds := disableDefaults_sheds hs'
        exact ⟨hsheds.sound hs, .inr hsheds⟩
    · cases h
      exact ⟨hs, .inl le_rfl⟩

/-! ### Other rows -/

/-- The partitions differ only in their rows. -/
structure Child.Same (c c' : Child) : Prop where
  relname : c'.relname = c.relname
  inhparent : c'.inhparent = c.inhparent
  bound : c'.bound = c.bound

theorem Child.OfWeek.of_same {c c' : Child} {f : Family} {q : String} {weekStart : ℤ}
    (h : c.OfWeek f q weekStart) (hsame : c.Same c') :
  c'.OfWeek f q weekStart
  := by
  refine ⟨hsame.relname.trans h.relname, hsame.inhparent.trans h.inhparent, h.monday, ?_⟩
  rw [hsame.bound]
  exact h.bound

theorem Child.Made.of_same {c c' : Child} (h : c.Made) (hsame : c.Same c') :
  c'.Made
  := by
  obtain ⟨f, q, hrest | ⟨weekStart, hweek⟩⟩ := h
  · exact ⟨f, q, .inl ⟨hsame.relname.trans hrest.relname, hsame.inhparent.trans hrest.inhparent,
      hsame.bound.trans hrest.bound⟩⟩
  · exact ⟨f, q, .inr ⟨weekStart, hweek.of_same hsame⟩⟩

/-- The schema with other rows in some partitions. -/
structure Rewrites (s s' : Schema) : Prop where
  parents : s'.parents = s.parents
  detached : s'.detached = s.detached
  others : s'.others = s.others
  origin : ∀ c' ∈ s'.attached.rows, ∃ c ∈ s.attached.rows, c.Same c'
  image : ∀ c ∈ s.attached.rows, ∃ c' ∈ s'.attached.rows, c.Same c'

theorem Rewrites.sound {s s' : Schema} (h : Rewrites s s') (hs : s.Sound) :
  s'.Sound
  := by
  refine ⟨?_, ?_, ?_⟩
  · intro c' hc'
    obtain ⟨c, hc, hsame⟩ := h.origin c' hc'
    exact (hs.made c hc).of_same hsame
  · intro c' hc'
    obtain ⟨c, hc, hsame⟩ := h.origin c' hc'
    rw [h.parents, hsame.inhparent]
    exact hs.parented c hc
  · intro c' hc'
    obtain ⟨c, hc, hsame⟩ := h.origin c' hc'
    rw [h.parents, hsame.relname]
    exact hs.apart c hc

/-- The weeks stay ended when their partitions stay empty. -/
theorem Rewrites.ended {s s' : Schema} (h : Rewrites s s') {now : ℤ} {f : Family} {q : String}
    {weekStart : ℤ} (hended : Ended s now f q weekStart)
    (hempty : ∀ c' ∈ s'.attached.rows, c'.relname = weekTable f q weekStart → f.drawn = true →
      c'.rows = []) :
  Ended s' now f q weekStart
  := by
  refine ⟨hended.monday, hended.closed, ?_, ?_, ?_⟩
  · rcases hended.has with hname | hname | hname | hname
    · exact .inl (by rwa [h.parents])
    · obtain ⟨c, hc, hrelname⟩ := List.mem_map.mp hname
      obtain ⟨c', hc', hsame⟩ := h.image c hc
      exact .inr (.inl (List.mem_map.mpr ⟨c', hc', hsame.relname.trans hrelname⟩))
    · exact .inr (.inr (.inl (by rwa [h.detached])))
    · exact .inr (.inr (.inr (by rwa [h.others])))
  · rw [h.parents]
    exact hended.apart
  · intro c' hc' hname
    obtain ⟨c, hc, hsame⟩ := h.origin c' hc'
    have hweek := (hended.child c hc (hsame.relname.symm.trans hname)).1
    exact ⟨hweek.of_same hsame, hempty c' hc' hname⟩

theorem rewrites_update (s : Schema) (p : Child → Bool) {e : Keyed.Edit Child.relname}
    (he : ∀ c : Child, c.Same (e.apply c)) :
  Rewrites s { s with attached := s.attached.update p e }
  := by
  have hsame : ∀ c : Child, c.Same (if p c then e.apply c else c) := by
    intro c
    split
    · exact he c
    · exact ⟨rfl, rfl, rfl⟩
  refine ⟨rfl, rfl, rfl, ?_, ?_⟩
  · intro c' hc'
    obtain ⟨c, hc, rfl⟩ := Table.mem_update.mp hc'
    exact ⟨c, hc, hsame c⟩
  · intro c hc
    exact ⟨_, Table.mem_update.mpr ⟨c, hc, rfl⟩, hsame c⟩

/-- The partition the rows of a key are in is one of its table that takes the key. -/
theorem route_eq_some {s : Schema} {parent : String} {id : Uuid} {c : Child}
    (h : s.route parent id = some c) :
  c ∈ s.attached.rows ∧ c.inhparent = parent ∧ (c.bound.Holds id ∨ c.bound.isDefault = true)
  := by
  rw [Schema.route] at h
  rcases Option.or_eq_some_iff.mp h with hfind | ⟨-, hfind⟩
  · have hfound := List.find?_some hfind
    rw [Bool.and_eq_true, decide_eq_true_eq, decide_eq_true_eq] at hfound
    exact ⟨List.mem_of_find?_eq_some hfind, hfound.1, .inl hfound.2⟩
  · have hfound := List.find?_some hfind
    rw [Bool.and_eq_true, decide_eq_true_eq] at hfound
    exact ⟨List.mem_of_find?_eq_some hfind, hfound.1, .inr hfound.2⟩

theorem insertRow_rewrites {s s' : Schema} {parent : String} {id : Uuid}
    (h : s.insertRow parent id = some s') :
  Rewrites s s'
  := by
  obtain ⟨c, -, rfl⟩ := Option.map_eq_some_iff.mp h
  exact rewrites_update s _ (fun _ => ⟨rfl, rfl, rfl⟩)

/-- A row of a key that is not drawn before now is not inserted into the partition of a week that
has ended. -/
theorem insertRow_ended {server : Server} {s s' : Schema} {clock now : Moment} {f f' : Family}
    {q q' : String} {weekStart : ℤ} {id : Uuid} (hended : Ended s now.ts f q weekStart)
    (hkeeps : server.KeepsUp clock now)
    (h : s.insertRow (parentTable f' q') (keyOf server clock.ts now.ts f' id) = some s') :
  Ended s' now.ts f q weekStart
  := by
  apply (insertRow_rewrites h).ended hended
  intro c' hc' hname hdrawn
  obtain ⟨c₁, hroute, rfl⟩ := Option.map_eq_some_iff.mp h
  obtain ⟨hc₁, hparent, htakes⟩ := route_eq_some hroute
  obtain ⟨c, hc, rfl⟩ := Table.mem_update.mp hc'
  have hrelname : c.relname = weekTable f q weekStart := by
    split at hname <;> exact hname
  obtain ⟨hweek, hrows⟩ := hended.child c hc hrelname
  have hne : c.relname ≠ c₁.relname := by
    intro heq
    obtain rfl := Table.eq_of_key_eq hc hc₁ heq
    obtain ⟨rfl, rfl⟩ := parentTable_inj (hparent.symm.trans hweek.inhparent)
    rcases htakes with hholds | hdefault
    · have hpast := (server.drawMoment clock now).past
      have hfuture := (server.drawMoment clock now).future
      rw [Server.KeepsUp, server.drawMoment_ts] at hkeeps
      rw [server.drawMoment_ts] at hpast hfuture
      have hdrawnAt := portableUuidv7_drawnAt server id hpast hfuture
      rw [keyOf_of_drawn hdrawn] at hholds
      have hstart := (hweek.holds_iff hdrawnAt).mp hholds
      rw [Int.toNat_of_nonneg hpast, epochMs, weekBucketUtc_ms,
        weekBucketUtc_eq_iff hended.monday] at hstart
      have hover := hended.closed.trans hkeeps
      exact absurd (lt_of_lt_of_le hstart.2 hover) (lt_irrefl _)
    · rw [hweek.isDefault] at hdefault
      cases hdefault
  rw [if_neg (by simpa using hne)]
  exact hrows hdrawn

theorem deleteRows_ended {s : Schema} {now : ℤ} {f : Family} {q : String} {weekStart : ℤ}
    (hended : Ended s now f q weekStart) (relname : String) (ids : List Uuid) :
  Ended (s.deleteRows relname ids) now f q weekStart
  := by
  apply (rewrites_update s _ (fun _ => ⟨rfl, rfl, rfl⟩)).ended hended
  intro c' hc' hname hdrawn
  obtain ⟨c, hc, rfl⟩ := Table.mem_update.mp hc'
  have hrelname : c.relname = weekTable f q weekStart := by
    split at hname <;> exact hname
  have hrows := (hended.child c hc hrelname).2 hdrawn
  split
  · simp [hrows]
  · exact hrows

/-! ### Detached and dropped tables -/

/-- The partition of a table that is detached. -/
theorem detachPartition_eq_some {s s' : Schema} {parent partition : String}
    (h : s.detachPartition parent partition = some s') :
  ∃ c ∈ s.attached.rows, c.relname = partition ∧ c.inhparent = parent
    ∧ s' = { s with
        attached := s.attached.delete (·.relname = partition)
        detached := s.detached.put (partition, c.rows) }
  := by
  rw [Schema.detachPartition] at h
  split at h
  · cases h
  · rename_i c hc
    split at h
    · rename_i hparent
      exact ⟨c, Table.mem_of_get? hc, Table.key_of_get? hc, hparent, (Option.some.inj h).symm⟩
    · cases h

theorem detachPartition_sound {s s' : Schema} {parent partition : String} (hs : s.Sound)
    (h : s.detachPartition parent partition = some s') :
  s'.Sound
  := by
  obtain ⟨c, -, -, -, rfl⟩ := detachPartition_eq_some h
  exact ⟨fun c hc => hs.made c (Table.mem_delete.mp hc).1,
    fun c hc => hs.parented c (Table.mem_delete.mp hc).1,
    fun c hc => hs.apart c (Table.mem_delete.mp hc).1⟩

theorem detachPartition_ended {s s' : Schema} {parent partition : String}
    (h : s.detachPartition parent partition = some s') {now : ℤ} {f : Family} {q : String}
    {weekStart : ℤ} (hended : Ended s now f q weekStart) :
  Ended s' now f q weekStart
  := by
  obtain ⟨c, -, -, -, rfl⟩ := detachPartition_eq_some h
  refine ⟨hended.monday, hended.closed, ?_, hended.apart, ?_⟩
  · by_cases hname : weekTable f q weekStart = partition
    · exact .inr (.inr (.inl (List.mem_map.mpr
        ⟨(partition, c.rows), Table.mem_put.mpr (.inl rfl), hname.symm⟩)))
    · rcases hended.has with hhas | hhas | hhas | hhas
      · exact .inl hhas
      · obtain ⟨c', hc', hrelname⟩ := List.mem_map.mp hhas
        have hother : c'.relname ≠ partition := fun heq => hname (hrelname.symm.trans heq)
        exact .inr (.inl (List.mem_map.mpr
          ⟨c', Table.mem_delete.mpr ⟨hc', decide_eq_false hother⟩, hrelname⟩))
      · obtain ⟨r, hr, hrelname⟩ := List.mem_map.mp hhas
        have hother : r.1 ≠ partition := fun heq => hname (hrelname.symm.trans heq)
        exact .inr (.inr (.inl (List.mem_map.mpr
          ⟨r, Table.mem_put.mpr (.inr ⟨hr, hother⟩), hrelname⟩)))
      · exact .inr (.inr (.inr hhas))
  · intro c' hc' hname
    exact hended.child c' (Table.mem_delete.mp hc').1 hname

/-- Dropping what is neither a partition nor a partitioned table leaves the partitions. -/
theorem mem_attached_dropTable {s : Schema} (hs : s.Sound) {name : String}
    (hparent : name ∉ s.parents) (hattached : ∀ c ∈ s.attached.rows, c.relname ≠ name) {c : Child} :
  c ∈ (s.dropTable name).attached.rows ↔ c ∈ s.attached.rows
  := by
  rw [Schema.dropTable, Table.mem_delete]
  constructor
  · exact And.left
  · intro hc
    refine ⟨hc, ?_⟩
    rw [Bool.or_eq_false_iff, decide_eq_false_iff_not, decide_eq_false_iff_not]
    refine ⟨hattached c hc, ?_⟩
    rintro rfl
    exact hparent (hs.parented c hc)

theorem dropTable_sound {s : Schema} (hs : s.Sound) {name : String} (hparent : name ∉ s.parents) :
  (s.dropTable name).Sound
  := by
  have hparents : ∀ p, p ∈ (s.dropTable name).parents ↔ p ∈ s.parents := by
    intro p
    rw [Schema.dropTable, List.mem_filter, decide_eq_true_eq]
    constructor
    · exact And.left
    · intro hp
      refine ⟨hp, ?_⟩
      rintro rfl
      exact hparent hp
  have hattached : ∀ c ∈ (s.dropTable name).attached.rows, c ∈ s.attached.rows :=
    fun c hc => (Table.mem_delete.mp hc).1
  refine ⟨fun c hc => hs.made c (hattached c hc), ?_, ?_⟩
  · intro c hc
    rw [hparents]
    exact hs.parented c (hattached c hc)
  · intro c hc
    rw [hparents]
    exact hs.apart c (hattached c hc)

theorem dropTable_ended {s : Schema} (hs : s.Sound) {name : String} (hparent : name ∉ s.parents)
    (hattached : ∀ c ∈ s.attached.rows, c.relname ≠ name) {now : ℤ} {f : Family} {q : String}
    {weekStart : ℤ} (hne : weekTable f q weekStart ≠ name) (hended : Ended s now f q weekStart) :
  Ended (s.dropTable name) now f q weekStart
  := by
  refine ⟨hended.monday, hended.closed, ?_, ?_, ?_⟩
  · rcases hended.has with hhas | hhas | hhas | hhas
    · exact .inl (List.mem_filter.mpr ⟨hhas, decide_eq_true hne⟩)
    · obtain ⟨c, hc, hrelname⟩ := List.mem_map.mp hhas
      exact .inr (.inl (List.mem_map.mpr
        ⟨c, (mem_attached_dropTable hs hparent hattached).mpr hc, hrelname⟩))
    · obtain ⟨r, hr, hrelname⟩ := List.mem_map.mp hhas
      have hother : r.1 ≠ name := fun heq => hne (hrelname.symm.trans heq)
      exact .inr (.inr (.inl (List.mem_map.mpr
        ⟨r, Table.mem_delete.mpr ⟨hr, decide_eq_false hother⟩, hrelname⟩)))
    · exact .inr (.inr (.inr (List.mem_filter.mpr ⟨hhas, decide_eq_true hne⟩)))
  · exact fun hname => hended.apart (List.mem_filter.mp hname).1
  · intro c hc
    exact hended.child c ((mem_attached_dropTable hs hparent hattached).mp hc)

end DjangoAbsurd.Partitions
