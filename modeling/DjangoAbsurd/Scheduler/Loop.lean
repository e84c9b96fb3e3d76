import DjangoAbsurd.Library.Cadence
import DjangoAbsurd.Scheduler.Beat
import DjangoAbsurd.Scheduler.Cron

/-!
# The loop of the beat scheduler

`run_beat` keeps an entry with its next due time for every schedule and for the cleanup. A
turn of its loop waits until the earliest due time, reads the clock and passes over the
entries: an entry that is due is fired at its due time, and is next due at the first slot
after the reading. What a callback raises is logged and not raised again.

The clock, the stop event and the callbacks are outside the loop; a `Tick` is what a turn
gets from them.
-/

namespace DjangoAbsurd

open Engine (Time)

/-- What an entry fires: `fire_schedule` or `fire_cleanup`. -/
inductive BeatJob where
  | schedule (s : Schedule)
  | cleanup

/-- `BeatEntry`. -/
structure BeatEntry where
  cron : String
  fire : BeatJob
  nextAt : Time

/-- What `fire_schedule` and `fire_cleanup` log. -/
inductive BeatRecord where
  | scheduleEnqueued (name : String) (due : Time)
  | scheduleEnqueueFailed (name : String) (due : Time)
  | cleanupRan (due : Time)
  | cleanupFailed
  deriving DecidableEq, Repr

/-- `fire_schedule` and `fire_cleanup`, when what they call raises an exception or not. -/
def BeatJob.call (raises : Bool) (due : Time) : BeatJob → BeatRecord
  | .schedule s =>
      if raises then .scheduleEnqueueFailed s.name due else .scheduleEnqueued s.name due
  | .cleanup => if raises then .cleanupFailed else .cleanupRan due

/-- The crons of the entries, with what they fire. -/
def beatJobs (schedules : List Schedule) (cleanupCron : Option String) :
    List (String × BeatJob) :=
  schedules.map (fun s => (s.cron, .schedule s))
    ++ cleanupCron.toList.map (fun cron => (cron, .cleanup))

/-- `build_beat_entries`. -/
def buildBeatEntries (c : Croniter) (schedules : List Schedule) (cleanupCron : Option String)
    (moment : Time) : Except CronError (List BeatEntry) :=
  (beatJobs schedules cleanupCron).mapM (fun job =>
    (getNextDatetime c job.1 moment).map (fun nextAt =>
      { cron := job.1, fire := job.2, nextAt }))

/-- A turn of the loop: whether the stop event is set, the reading the delay is computed
from, whether the wait is interrupted, the reading of the pass, and whether what the callback
of an entry calls raises an exception. -/
structure Tick where
  stopped : Bool
  probe : Time
  interrupted : Bool
  current : Time
  raises : ℕ → Bool

/-- An entry fired at a due time. -/
structure Firing where
  entry : ℕ
  due : Time
  record : BeatRecord
  deriving DecidableEq, Repr

/-- A pass over the entries: its reading and what it fired. -/
structure Pass where
  reading : Time
  firings : List Firing
  deriving DecidableEq, Repr

/-- The pass over the entries from the `k`-th on: what is fired, and the entries with their
next due times unless there is none. -/
def beatPass (c : Croniter) (tick : Tick) :
    ℕ → List BeatEntry → List Firing × Except CronError (List BeatEntry)
  | _, [] => ([], .ok [])
  | k, e :: es =>
      if e.nextAt ≤ tick.current then
        let firing := ⟨k, e.nextAt, e.fire.call (tick.raises k) e.nextAt⟩
        match getNextDatetime c e.cron tick.current with
        | .error err => ([firing], .error err)
        | .ok nextAt =>
            let rest := beatPass c tick (k + 1) es
            (firing :: rest.1, rest.2.map ({ e with nextAt } :: ·))
      else
        let rest := beatPass c tick (k + 1) es
        (rest.1, rest.2.map (e :: ·))

/-- The earliest due time. -/
def earliest (entries : List BeatEntry) : Option Time := (entries.map BeatEntry.nextAt).min?

/-- The turn ends the loop: the event is set, or the wait for the earliest due time is
interrupted. -/
def Tick.ends (tick : Tick) (entries : List BeatEntry) : Bool :=
  tick.stopped || ((earliest entries).any (fun due => 0 < due - tick.probe) && tick.interrupted)

/-- The loop: the passes, and what it raises. -/
def beatLoop (c : Croniter) : List BeatEntry → List Tick → List Pass × Option CronError
  | _, [] => ([], none)
  | entries, tick :: ticks =>
      if tick.ends entries then ([], none)
      else
        match beatPass c tick 0 entries with
        | (firings, .error err) => ([⟨tick.current, firings⟩], some err)
        | (firings, .ok entries) =>
            let rest := beatLoop c entries ticks
            (⟨tick.current, firings⟩ :: rest.1, rest.2)

/-- `run_beat`, from the reading it starts at. -/
def runBeat (c : Croniter) (schedules : List Schedule) (cleanupCron : Option String)
    (start : Time) (ticks : List Tick) : List Pass × Option CronError :=
  match buildBeatEntries c schedules cleanupCron start with
  | .error err => ([], some err)
  | .ok entries => if entries.isEmpty then ([], none) else beatLoop c entries ticks

/-! ### What an entry fires -/

/-- The due times at which a pass fires the `k`-th entry. -/
def Pass.dues (pass : Pass) (k : ℕ) : List Time :=
  (pass.firings.filter (fun f => f.entry = k)).map Firing.due

/-- The due times at which passes fire the `k`-th entry, with the readings. -/
def firedBy (passes : List Pass) (k : ℕ) : List (Cadence.Fired Time) :=
  passes.flatMap (fun pass => (pass.dues k).map (fun due => ⟨due, pass.reading⟩))

/-- The due times at which passes fire the `k`-th entry. -/
def duesOf (passes : List Pass) (k : ℕ) : List Time :=
  passes.flatMap (fun pass => pass.dues k)

theorem duesOf_eq (passes : List Pass) (k : ℕ) :
  duesOf passes k = (firedBy passes k).map Cadence.Fired.slot
  := by
  induction passes with
  | nil => rfl
  | cons pass passes ih =>
      rw [duesOf] at ih
      rw [duesOf, firedBy, List.flatMap_cons, ih, List.flatMap_cons, List.map_append,
        List.map_map, ← firedBy]
      congr 1
      symm
      apply List.map_id

/-- The moment `get_next_datetime` gives, where it gives one. -/
def nextSlot (c : Croniter) (cron : String) (t : Time) : Time :=
  match getNextDatetime c cron t with
  | .ok s => s
  | .error _ => t

/-- The entry after a pass. -/
def BeatEntry.advance (c : Croniter) (current : Time) (e : BeatEntry) : BeatEntry :=
  if e.nextAt ≤ current then { e with nextAt := nextSlot c e.cron current } else e

/-- The entries of a pass are numbered from where it starts. -/
theorem le_entry {c : Croniter} {tick : Tick} {k : ℕ} {entries : List BeatEntry} :
  ∀ f ∈ (beatPass c tick k entries).1, k ≤ f.entry
  := by
  induction entries generalizing k with
  | nil => exact fun f hf => absurd hf List.not_mem_nil
  | cons e es ih =>
      have hrest : ∀ f ∈ (beatPass c tick (k + 1) es).1, k ≤ f.entry :=
        fun f hf => (Nat.le_succ k).trans (ih f hf)
      rw [beatPass]
      split
      · split
        · simp
        · rw [List.forall_mem_cons]
          exact ⟨le_refl k, hrest⟩
      · exact hrest

/-- An entry is fired by a pass at most once. -/
theorem filter_beatPass_le {c : Croniter} {tick : Tick} {k j : ℕ} {entries : List BeatEntry} :
  ((beatPass c tick k entries).1.filter (fun f => f.entry = j)).length ≤ 1
  := by
  induction entries generalizing k with
  | nil => simp [beatPass]
  | cons e es ih =>
      rw [beatPass]
      split
      · split
        · exact List.length_filter_le _ [_]
        · rw [List.filter_cons]
          split
          · rename_i hk
            have hnone : (beatPass c tick (k + 1) es).1.filter (fun f => f.entry = j) = [] := by
              apply List.filter_eq_nil_iff.mpr
              intro f hf
              have hlater := le_entry f hf
              simp only [decide_eq_true_eq] at hk ⊢
              omega
            simp [hnone]
          · apply ih
      · apply ih

/-- Every entry has a next slot, whatever the reading. -/
def HasNext (c : Croniter) (entries : List BeatEntry) : Prop :=
  ∀ e ∈ entries, ∀ t, getNextDatetime c e.cron t = .ok (nextSlot c e.cron t)

theorem HasNext.tail {c : Croniter} {e : BeatEntry} {es : List BeatEntry}
    (h : HasNext c (e :: es)) :
  HasNext c es
  := fun e' he' => h e' (List.mem_cons_of_mem e he')

theorem advance_cron (c : Croniter) (current : Time) (e : BeatEntry) :
  (e.advance c current).cron = e.cron
  := by
  rw [BeatEntry.advance]
  split <;> rfl

theorem HasNext.advance {c : Croniter} {entries : List BeatEntry} (h : HasNext c entries)
    (current : Time) :
  HasNext c (entries.map (BeatEntry.advance c current))
  := by
  intro e he
  obtain ⟨e', he', rfl⟩ := List.mem_map.mp he
  rw [advance_cron]
  apply h e' he'

/-- After a pass every entry has advanced. -/
theorem beatPass_snd {c : Croniter} {tick : Tick} {k : ℕ} {entries : List BeatEntry}
    (h : HasNext c entries) :
  (beatPass c tick k entries).2 = .ok (entries.map (BeatEntry.advance c tick.current))
  := by
  induction entries generalizing k with
  | nil => rfl
  | cons e es ih =>
      have hnext := h e List.mem_cons_self tick.current
      rw [List.map_cons, BeatEntry.advance, beatPass]
      split <;> simp [hnext, ih h.tail, Except.map]

/-- A pass fires an entry at its due time when it is due, and otherwise not. -/
theorem filter_beatPass {c : Croniter} {tick : Tick} {k j : ℕ} {entries : List BeatEntry}
    {e : BeatEntry} (h : HasNext c entries) (he : entries[j]? = some e) :
  ((beatPass c tick k entries).1.filter (fun f => f.entry = k + j)).map Firing.due
    = if e.nextAt ≤ tick.current then [e.nextAt] else []
  := by
  induction entries generalizing k j with
  | nil => cases he
  | cons e' es ih =>
      have hnext := h e' List.mem_cons_self tick.current
      cases j with
      | zero =>
          cases he
          have hnone : (beatPass c tick (k + 1) es).1.filter (fun f => f.entry = k) = [] := by
            apply List.filter_eq_nil_iff.mpr
            intro f hf
            have hlater := le_entry f hf
            simp only [decide_eq_true_eq]
            omega
          rw [beatPass]
          split <;> simp [hnext, hnone]
      | succ j =>
          have hrest := ih (k := k + 1) h.tail he
          have hshift : k + 1 + j = k + (j + 1) := by omega
          rw [hshift] at hrest
          rw [beatPass]
          split
          · rw [hnext, List.filter_cons_of_neg, hrest]
            simp
          · exact hrest

/-- A pass goes on to the entries with their next slots. -/
theorem beatPass_eq {c : Croniter} {entries : List BeatEntry} (tick : Tick) (h : HasNext c entries) :
  beatPass c tick 0 entries
    = ((beatPass c tick 0 entries).1, .ok (entries.map (BeatEntry.advance c tick.current)))
  := Prod.ext rfl (beatPass_snd h)

/-- The loop does not raise. -/
theorem beatLoop_snd {c : Croniter} {entries : List BeatEntry} (h : HasNext c entries)
    (ticks : List Tick) :
  (beatLoop c entries ticks).2 = none
  := by
  induction ticks generalizing entries with
  | nil => rfl
  | cons tick ticks ih =>
      rw [beatLoop]
      split
      · rfl
      · rw [beatPass_eq tick h]
        apply ih (h.advance tick.current)

/-- An entry of the loop follows the slots of its cron at the readings of the passes. -/
theorem firedBy_beatLoop {c : Croniter} {entries : List BeatEntry} {k : ℕ} {e : BeatEntry}
    (h : HasNext c entries) (he : entries[k]? = some e) (ticks : List Tick) :
  firedBy (beatLoop c entries ticks).1 k
    = Cadence.follow (nextSlot c e.cron) e.nextAt
        ((beatLoop c entries ticks).1.map Pass.reading)
  := by
  induction ticks generalizing entries e with
  | nil => rfl
  | cons tick ticks ih =>
      rw [beatLoop]
      split
      · rfl
      · rw [beatPass_eq tick h]
        have hnext : (entries.map (BeatEntry.advance c tick.current))[k]?
            = some (e.advance c tick.current) := by
          rw [List.getElem?_map, he]
          rfl
        have hrest := ih (h.advance tick.current) hnext
        have hdues : Pass.dues ⟨tick.current, (beatPass c tick 0 entries).1⟩ k
            = if e.nextAt ≤ tick.current then [e.nextAt] else [] := by
          rw [← filter_beatPass h he, Nat.zero_add]
          rfl
        rw [List.map_cons, Cadence.follow, firedBy, List.flatMap_cons, ← firedBy, hrest, hdues,
          advance_cron, BeatEntry.advance]
        split <;> rfl

/-- A pass of the loop is a pass over entries. -/
theorem mem_beatLoop {c : Croniter} {entries : List BeatEntry} {ticks : List Tick} {pass : Pass}
    (h : pass ∈ (beatLoop c entries ticks).1) :
  ∃ tick entries, pass.firings = (beatPass c tick 0 entries).1
  := by
  induction ticks generalizing entries with
  | nil => cases h
  | cons tick ticks ih =>
      rw [beatLoop] at h
      split at h
      · cases h
      · split at h
        · rename_i firings err hpass
          obtain rfl := List.mem_singleton.mp h
          exact ⟨tick, entries, by rw [hpass]⟩
        · rename_i firings after hpass
          rcases List.mem_cons.mp h with rfl | hrest
          · exact ⟨tick, entries, by rw [hpass]⟩
          · apply ih hrest

/-! ### A callback that raises -/

/-- The turn, with no callback raising. -/
def Tick.quiet (tick : Tick) : Tick := { tick with raises := fun _ => false }

/-- What a pass fired, and when. -/
def Pass.slots (pass : Pass) : Time × List (ℕ × Time) :=
  (pass.reading, pass.firings.map (fun f => (f.entry, f.due)))

/-- What callbacks raise changes neither what a pass fires nor what comes next. -/
theorem beatPass_quiet (c : Croniter) (tick : Tick) (k : ℕ) (entries : List BeatEntry) :
  (beatPass c tick.quiet k entries).1.map (fun f => (f.entry, f.due))
      = (beatPass c tick k entries).1.map (fun f => (f.entry, f.due))
    ∧ (beatPass c tick.quiet k entries).2 = (beatPass c tick k entries).2
  := by
  induction entries generalizing k with
  | nil => exact ⟨rfl, rfl⟩
  | cons e es ih =>
      obtain ⟨hfirings, hafter⟩ := ih (k + 1)
      have hcurrent : tick.quiet.current = tick.current := rfl
      rw [beatPass, beatPass, hcurrent]
      by_cases hdue : e.nextAt ≤ tick.current
      · cases hnext : getNextDatetime c e.cron tick.current <;> simp [hdue, hfirings, hafter]
      · simp [hdue, hfirings, hafter]

theorem beatLoop_quiet (c : Croniter) (entries : List BeatEntry) (ticks : List Tick) :
  (beatLoop c entries (ticks.map Tick.quiet)).1.map Pass.slots
    = (beatLoop c entries ticks).1.map Pass.slots
  := by
  induction ticks generalizing entries with
  | nil => rfl
  | cons tick ticks ih =>
      obtain ⟨hfirings, hafter⟩ := beatPass_quiet c tick 0 entries
      have hends : tick.quiet.ends entries = tick.ends entries := rfl
      rw [List.map_cons, beatLoop, beatLoop, hends]
      split
      · rfl
      · cases hpass : beatPass c tick 0 entries with
        | mk firings after =>
            cases hquiet : beatPass c tick.quiet 0 entries with
            | mk firings' after' =>
                rw [hpass, hquiet] at hfirings hafter
                cases hafter
                cases after with
                | error err => simpa [Pass.slots] using ⟨rfl, hfirings⟩
                | ok entries => simpa [Pass.slots, ih] using ⟨rfl, hfirings⟩

/-! ### A run of the loop -/

/-- What a run does for its `k`-th entry: it fires slots, in order, not early, at most one a
pass, and every slot between the start and the last reading exactly once when the readings do
not go backwards and no two slots lie between two of them. -/
structure FiresExactly (slots : Set Time) (start : Time) (passes : List Pass) (k : ℕ) : Prop where
  mem : ∀ due ∈ duesOf passes k, due ∈ slots
  increasing : (duesOf passes k).Pairwise (· < ·)
  notEarly : ∀ f ∈ firedBy passes k, f.slot ≤ f.reading
  onceAPass : ∀ pass ∈ passes, (pass.dues k).length ≤ 1
  complete : (start :: passes.map Pass.reading).IsChain (Cadence.Dense slots) →
    ∀ slot ∈ slots, start < slot →
      slot ≤ (start :: passes.map Pass.reading).getLast (List.cons_ne_nil _ _) →
      (duesOf passes k).count slot = 1

/-- Entries whose crons have next slots are built at their next slots. -/
theorem buildBeatEntries_eq_ok {c : Croniter} {schedules : List Schedule}
    {cleanupCron : Option String} {moment : Time}
    (h : ∀ job ∈ beatJobs schedules cleanupCron,
      getNextDatetime c job.1 moment = .ok (nextSlot c job.1 moment)) :
  buildBeatEntries c schedules cleanupCron moment
    = .ok ((beatJobs schedules cleanupCron).map (fun job =>
        ⟨job.1, job.2, nextSlot c job.1 moment⟩))
  := by
  rw [buildBeatEntries]
  generalize beatJobs schedules cleanupCron = jobs at h ⊢
  induction jobs with
  | nil => rfl
  | cons job jobs ih =>
      rw [List.forall_mem_cons] at h
      rw [List.mapM_cons, h.1, ih h.2]
      rfl

/-- An entry of the loop that is due at the first slot after the start fires exactly. -/
theorem beatLoop_fires {c : Croniter} {entries : List BeatEntry} {k : ℕ} {e : BeatEntry}
    {slots : Set Time} {start : Time} (h : HasNext c entries) (he : entries[k]? = some e)
    (hnext : ∀ t, Cadence.FirstAfter slots t (nextSlot c e.cron t))
    (hstart : Cadence.FirstAfter slots start e.nextAt) (ticks : List Tick) :
  FiresExactly slots start (beatLoop c entries ticks).1 k
  := by
  have hfollow := firedBy_beatLoop h he ticks
  constructor
  · intro due hdue
    rw [duesOf_eq, hfollow] at hdue
    obtain ⟨f, hf, rfl⟩ := List.mem_map.mp hdue
    apply Cadence.follow_mem hnext hstart.mem _ f hf
  · rw [duesOf_eq, hfollow]
    apply Cadence.follow_pairwise hnext
  · rw [hfollow]
    apply Cadence.slot_le_reading
  · intro pass hpass
    obtain ⟨tick, entries', hfirings⟩ := mem_beatLoop hpass
    rw [Pass.dues, List.length_map, hfirings]
    apply filter_beatPass_le
  · intro hdense slot hslot hafter hlast
    rw [duesOf_eq, hfollow]
    apply List.count_eq_one_of_mem
    · apply (Cadence.follow_pairwise hnext _ _).imp
      exact fun hlt => hlt.ne
    · apply Cadence.mem_follow hnext hstart hdense hslot hafter hlast

/-- With a next slot for every cron, a run of the beat scheduler does not raise, every entry
fires exactly, and what callbacks raise changes nothing of it. -/
theorem runBeat_fires (c : Croniter) (slots : String → Set Time) (schedules : List Schedule)
    (cleanupCron : Option String) (start : Time) (ticks : List Tick)
    (hnext : ∀ job ∈ beatJobs schedules cleanupCron, ∀ t, ∃ s,
      getNextDatetime c job.1 t = .ok s ∧ Cadence.FirstAfter (slots job.1) t s) :
  (runBeat c schedules cleanupCron start ticks).2 = none
    ∧ (∀ k job, (beatJobs schedules cleanupCron)[k]? = some job →
      FiresExactly (slots job.1) start (runBeat c schedules cleanupCron start ticks).1 k)
    ∧ (runBeat c schedules cleanupCron start (ticks.map Tick.quiet)).1.map Pass.slots
      = (runBeat c schedules cleanupCron start ticks).1.map Pass.slots
  := by
  have hslot : ∀ job ∈ beatJobs schedules cleanupCron, ∀ t,
      getNextDatetime c job.1 t = .ok (nextSlot c job.1 t)
        ∧ Cadence.FirstAfter (slots job.1) t (nextSlot c job.1 t) := by
    intro job hjob t
    obtain ⟨s, hs, hfirst⟩ := hnext job hjob t
    rw [nextSlot, hs]
    exact ⟨rfl, hfirst⟩
  have hbuild := buildBeatEntries_eq_ok (fun job hjob => (hslot job hjob start).1)
  rw [runBeat, runBeat, hbuild]
  cases hjobs : beatJobs schedules cleanupCron with
  | nil => simp
  | cons first jobs =>
      rw [← hjobs]
      set entries : List BeatEntry := (beatJobs schedules cleanupCron).map (fun job =>
        ⟨job.1, job.2, nextSlot c job.1 start⟩) with hentries
      have hnonempty : entries.isEmpty = false := by rw [hentries, hjobs]; rfl
      have hall : HasNext c entries := by
        intro e he t
        obtain ⟨job, hjob, rfl⟩ := List.mem_map.mp he
        exact (hslot job hjob t).1
      simp only [hnonempty, Bool.false_eq_true, if_false]
      use beatLoop_snd hall ticks
      constructor
      · intro k job hk
        have hmem := List.mem_of_getElem? hk
        have he : entries[k]? = some ⟨job.1, job.2, nextSlot c job.1 start⟩ := by
          rw [hentries, List.getElem?_map, hk]
          rfl
        apply beatLoop_fires hall he (fun t => (hslot job hmem t).2) (hslot job hmem start).2
      · apply beatLoop_quiet

/-- Whole minutes. -/
def minutes : Set Time := {t | 60000000 ∣ t}

/-- The first whole minute after `t` is after `t` and not after any later one. -/
theorem minute_after (t : ℤ) :
  t < (t / 60000000 + 1) * 60000000
    ∧ ∀ m, t < 60000000 * m → (t / 60000000 + 1) * 60000000 ≤ 60000000 * m
  := by
  constructor
  · omega
  · intro m hm
    omega

theorem minuteCroniter_next (t : Time) :
  getNextDatetime minuteCroniter "* * * * *" t = .ok ((t / 60000000 + 1) * 60000000)
    ∧ Cadence.FirstAfter minutes t ((t / 60000000 + 1) * 60000000)
  := by
  have hexpand : ∃ fields, minuteCroniter.expand "* * * * *" true = .ok fields := ⟨_, rfl⟩
  obtain ⟨fields, hfields⟩ := hexpand
  constructor
  · rw [getNextDatetime, hfields]
    rfl
  · constructor
    · exact ⟨Int.dvd_mul_left _ _, (minute_after t).1⟩
    · rintro s ⟨⟨m, rfl⟩, hlt⟩
      apply (minute_after t).2 m hlt

/-- A cleanup every minute, which raises, passed over a minute and a half after the start. -/
theorem runBeat_fires_minutes :
  (duesOf (runBeat minuteCroniter [] (some "* * * * *") 0
      [⟨false, 0, false, 90000000, fun _ => true⟩]).1 0).count 60000000 = 1
  := by
  have hrun := runBeat_fires minuteCroniter (fun _ => minutes) [] (some "* * * * *") 0
    [⟨false, 0, false, 90000000, fun _ => true⟩] (by
      intro job hjob t
      obtain rfl := List.mem_singleton.mp hjob
      exact ⟨_, minuteCroniter_next t⟩)
  have hpasses : (runBeat minuteCroniter [] (some "* * * * *") 0
      [⟨false, 0, false, 90000000, fun _ => true⟩]).1.map Pass.reading = [90000000] := rfl
  have hcomplete := (hrun.2.1 0 _ rfl).complete
  simp only [hpasses] at hcomplete
  apply hcomplete
  · rw [List.isChain_pair]
    constructor
    · decide
    · rintro _ ⟨⟨m, rfl⟩, hpos, hle⟩ _ ⟨⟨n, rfl⟩, hpos', hle'⟩
      have hone : ∀ k : ℤ, 0 < 60000000 * k → 60000000 * k ≤ 90000000 → k = 1 := by omega
      rw [hone m hpos hle, hone n hpos' hle']
  · exact ⟨1, rfl⟩
  · decide
  · simp only [List.getLast_cons_cons, List.getLast_singleton]
    decide

end DjangoAbsurd
