import DjangoAbsurd.Worker.Crew

/-!
# Bodies that keep their leases

Every step of a crew keeps its jobs leased, on time and apart, when the bodies that are claimed
fit into the claim timeout. A batch that is executed one by one fits when its bodies together do:
two bodies that each take less are not enough, and the task of the second one is then in hand
twice.
-/

namespace DjangoAbsurd.Worker

open Engine

/-! ### Steps -/

section

variable {setup : Setup} {w w' : Crew} {i m : ℕ} {job : Job} {s s' : QueueState}

/-- What a claim does. -/
theorem claims_eq_some {duration : Uuid → ℕ} (h : w.claims setup i duration = some w') :
  ∃ qty s claimed, i < setup.size ∧ (setup.options i).claimQty (w.hands i).length = some qty
    ∧ claimTask setup.pg w.queue w.clock (setup.options i).workerId
      (setup.options i).claimTimeout qty = .ok (s, claimed)
    ∧ w' = {
      queue := s
      clock := w.clock
      hands := Function.update w.hands i (startJobs w.clock (setup.options i).slots
        (w.hands i ++ claimed.filterMap (newJob s w.clock duration)))
      delivered := w.delivered ++ claimed }
  := by
  rw [Crew.claims] at h
  split at h
  · rename_i hi
    split at h
    · cases h
    · rename_i qty hqty
      split at h
      · cases h
      · rename_i s claimed hclaim
        exact ⟨qty, s, claimed, hi, hqty, hclaim, (Option.some.inj h).symm⟩
  · cases h

theorem claims_of {qty : ℤ} {claimed : List Uuid} (duration : Uuid → ℕ) (hi : i < setup.size)
    (hqty : (setup.options i).claimQty (w.hands i).length = some qty)
    (hclaim : claimTask setup.pg w.queue w.clock (setup.options i).workerId
      (setup.options i).claimTimeout qty = .ok (s, claimed)) :
  w.claims setup i duration = some {
    queue := s
    clock := w.clock
    hands := Function.update w.hands i (startJobs w.clock (setup.options i).slots
      (w.hands i ++ claimed.filterMap (newJob s w.clock duration)))
    delivered := w.delivered ++ claimed }
  := by
  simp only [Crew.claims, if_pos hi, hqty, hclaim]

theorem tick_of {t : Time} (hle : w.clock ≤ t)
    (hend : ∀ i < setup.size, ∀ job ∈ w.hands i,
      job.startedAt.all (fun σ => decide (t ≤ σ + job.duration))) :
  w.tick setup t = some { w with clock := t }
  := if_pos ⟨hle, hend⟩

/-- What a call of a body does. -/
theorem works_eq_some {call : BodyCall} (h : w.works setup i m call = some w') :
  ∃ job s, (w.hands i)[m]? = some job ∧ i < setup.size
    ∧ call.perform w.queue w.clock job = some s ∧ w' = { w with queue := s }
  := by
  rw [Crew.works] at h
  split at h
  · cases h
  · rename_i job hjob
    split at h
    · rename_i hi
      obtain ⟨s, hs, rfl⟩ := Option.map_eq_some_iff.mp h
      exact ⟨job, s, hjob, hi.1, hs, rfl⟩
    · cases h

theorem ends_of {l : Engine.Label} (hi : i < setup.size) (hjob : (w.hands i)[m]? = some job)
    (hover : job.startedAt.any (fun t => w.clock = t + job.duration))
    (hl : EndsRun job.runId l) (hs : Engine.step setup.pg w.queue l = some s) :
  w.ends setup i m (some l) = some { w with
    queue := s
    hands := Function.update w.hands i
      (startJobs w.clock (setup.options i).slots ((w.hands i).eraseIdx m))
    delivered := if Parked s job.runId then w.delivered.erase job.runId else w.delivered }
  := by
  have hguard : i < setup.size
      ∧ job.startedAt.any (fun t => w.clock = t + job.duration)
      ∧ (some l).all (EndsRun job.runId) := ⟨hi, hover, hl⟩
  simp only [Crew.ends, hjob, if_pos hguard, hs, Option.map_some]

/-- What the end of a body does: its call makes changes, if it does not fail. -/
theorem ends_eq_some {l : Option Engine.Label} (h : w.ends setup i m l = some w') :
  ∃ job s, (w.hands i)[m]? = some job ∧ i < setup.size
    ∧ job.startedAt.any (fun t => w.clock = t + job.duration)
    ∧ Lives (fun c => ∃ l, EndsRun job.runId l = true ∧ l.Makes c) w.queue s
    ∧ w' = { w with
        queue := s
        hands := Function.update w.hands i
          (startJobs w.clock (setup.options i).slots ((w.hands i).eraseIdx m))
        delivered := if Parked s job.runId then w.delivered.erase job.runId else w.delivered }
  := by
  rw [Crew.ends.eq_def] at h
  split at h
  · cases h
  · rename_i job hjob
    split at h
    · rename_i hguard
      obtain ⟨hi, hover, hends⟩ := hguard
      obtain ⟨s, hs, rfl⟩ := Option.map_eq_some_iff.mp h
      refine ⟨job, s, hjob, hi, hover, ?_, rfl⟩
      cases l with
      | none =>
          obtain rfl := Option.some.inj hs
          exact .refl
      | some l =>
          obtain ⟨cs, hrun, hmakes⟩ := refines_step hs
          exact ⟨cs, hrun, fun c hc => ⟨l, hends, hmakes c hc⟩⟩
    · cases h

/-- What a call of a body changes: the run of the body, and its claim only up to later moments. -/
theorem lives_perform {call : BodyCall} {timeout : ℤ} {now moment : Time}
    (hs : call.perform s now job = some s') (hkeeps : call.KeepsClaim timeout)
    (hlate : moment ≤ now + seconds timeout)
    (hown : ∀ r, s.runs.get? job.runId = some r → r.taskId = job.taskId) :
  Lives (fun c => ∃ r e, c = .adjust r e ∧ r.runId = job.runId ∧ e.Outlasts moment) s s'
  := by
  have hextends : ∀ {n : ℤ}, timeout ≤ n →
      (RunRow.extendClaim (now + seconds n)).Outlasts moment := by
    intro n hn
    apply outlasts_extendClaim
    apply hlate.trans
    exact Int.add_le_add_left (Int.mul_le_mul_of_nonneg_right hn (by decide)) now
  cases call with
  | heartbeat extendBy =>
      apply refines_extendClaim _ (Except.toOption_eq_some.mp hs)
      exact fun r hr => ⟨r, _, rfl, hr, hextends hkeeps⟩
  | checkpoint stepName state extendBy =>
      apply refines_setTaskCheckpointState _ (Except.toOption_eq_some.mp hs)
      rintro r n rfl hr
      exact ⟨r, _, rfl, hr, hextends (of_decide_eq_true hkeeps)⟩
  | await stepName eventName until_ =>
      rw [BodyCall.perform] at hs
      split at hs
      · rename_i hawait
        obtain rfl := Option.some.inj hs
        apply refines_awaitEvent hown _ _ hawait
        · rintro ⟨⟩
        · exact fun r e hr _ _ hclaim => ⟨r, e, rfl, hr, fun r' => .inl (hclaim r')⟩
      · cases hs

/-- The call a body ends with handles no other run. -/
theorem eq_of_ends {c : Change} {id runId : Uuid}
    (hc : ∃ l, EndsRun runId l = true ∧ l.Makes c) (hhandles : c.Handles id) :
  id = runId
  := by
  obtain ⟨l, hl, hmake⟩ := hc
  have htouch := touches_of_makes hmake hhandles
  cases l with
  | complete _ _ _ | fail _ _ _ _ | schedule _ _ | await _ _ _ _ _ _ =>
      exact htouch.symm.trans (of_decide_eq_true hl)
  | _ => cases hl

/-- The calls of others handle no run that is claimed. -/
theorem not_touches_of_othersCall {l : Engine.Label} (hl : OthersCall l = true) (id : Uuid) :
  ¬ l.Touches id
  := by
  cases l with
  | spawn _ _ _ _ | retry _ _ _ _ | cancel _ _ | emit _ _ _ | cleanupTasks _ _ _ _
  | cleanupEvents _ _ _ _ => exact not_false
  | _ => cases hl

/-- A run that is not parked is awake. -/
theorem awake_of_not_parked {id : Uuid} (hdrawn : id.index < s.life.drawn)
    (h : Parked s id = false) :
  Awake s.life id
  := by
  use hdrawn
  rintro r hr rfl hwaits
  have hget : s.runs.get? r.runId = some r := Keyed.Table.get?_of_mem hr
  rw [Parked, hget] at h
  exact absurd hwaits (of_decide_eq_false h)

namespace Crew.Sound

theorem create (setup : Setup) (storage : StorageMode) (clock : Time) :
  (Crew.create storage clock).Sound setup
  where
  consistent := .create storage
  onTime i _ := by
    rw [OnTime]
    split
    · trivial
    · rename_i hmany
      constructor
      · exact (Int.natCast_nonneg 0).trans (le_of_not_ge hmany |>.trans' (by decide))
      · rintro job ⟨⟩
  leased _ _ := by rintro job ⟨⟩
  apart := ⟨fun _ => .nil, fun _ _ _ => by rintro job ⟨⟩⟩
  idle _ _ := rfl
  awake := by rintro id ⟨⟩
  once := .nil

/-- The clock moves on. -/
theorem tick {t : Time} (h : w.Sound setup) (hs : w.tick setup t = some w') :
  w'.Sound setup
  := by
  rw [Crew.tick] at hs
  split at hs
  · rename_i hguard
    obtain rfl := Option.some.inj hs
    obtain ⟨hle, hend⟩ := hguard
    exact { h with onTime := fun i hi => (h.onTime i hi).tick hle (hend i hi) }
  · cases hs

/-- A job in hand has not expired. -/
theorem before (h : w.Sound setup) (hi : i < setup.size) (hjob : job ∈ w.hands i) :
  w.clock < job.claimedAt + setup.timeout i
  := ((h.onTime i hi).inTime hjob).2

theorem lt_size (h : w.Sound setup) (hjob : job ∈ w.hands i) :
  i < setup.size
  := by
  by_contra hi
  rw [h.idle i (not_lt.mp hi)] at hjob
  cases hjob

/-- The tables change, and no job in hand loses its lease. -/
theorem withQueue {P : Change → Prop} (h : w.Sound setup) (hlives : Lives P w.queue s)
    (hpark : ∀ c, P c → ∀ id, ¬ c.ParksRun id)
    (hleased : ∀ i < setup.size, ∀ job ∈ w.hands i,
      Leased s.life job.runId job.taskId (job.claimedAt + setup.timeout i)) :
  { w with queue := s }.Sound setup
  :=
  { h with
    consistent := hlives.consistent h.consistent
    leased := hleased
    awake := fun id hid => awake_lives (hlives.mono (fun c hc => hpark c hc id)) (h.awake id hid) }

/-- Somebody else makes a call. -/
theorem call {l : Engine.Label} (h : w.Sound setup) (hl : OthersCall l = true)
    (hs : Engine.step setup.pg w.queue l = some s) :
  { w with queue := s }.Sound setup
  := by
  have hnot : ∀ c, l.Makes c → ∀ id, ¬ c.Handles id := fun c hmake id hhandles =>
    not_touches_of_othersCall hl id (touches_of_makes hmake hhandles)
  apply h.withQueue (refines_step hs) (fun c hmake id hparks => hnot c hmake id hparks.handles)
  intro i hi job hjob
  apply leased_lives h.consistent (refines_step hs) _ (h.leased i hi job hjob)
  exact fun k c hmake hk hc => leased_apply hk hc (hnot c hmake job.runId)

/-- A body makes a call and goes on. -/
theorem works {call : BodyCall} (h : w.Sound setup) (hfits : Fits setup w (.works i m call))
    (hs : w.works setup i m call = some w') :
  w'.Sound setup
  := by
  obtain ⟨job, s, hjob, hi, hperform, rfl⟩ := works_eq_some hs
  have hmem : job ∈ w.hands i := List.mem_of_getElem? hjob
  have hlate : job.claimedAt + setup.timeout i
      ≤ w.clock + seconds (setup.options i).claimTimeout :=
    Int.add_le_add_right ((h.onTime i hi).inTime hmem).1 _
  have hlives := lives_perform hperform hfits hlate (fun r hr =>
    (h.leased i hi job hmem).own r (Keyed.Table.mem_of_get? hr) (Keyed.Table.key_of_get? hr))
  apply h.withQueue hlives
  · rintro c ⟨r, e, rfl, -, -⟩ id
    exact not_false
  · intro i' hi' job' hjob'
    apply leased_lives h.consistent hlives _ (h.leased i' hi' job' hjob')
    rintro k c ⟨r, e, rfl, hr, he⟩ hk hc hleased
    by_cases hsame : job'.runId = job.runId
    · obtain ⟨rfl, rfl⟩ := h.apart.eq_of_runId hjob' hmem hsame
      exact leased_adjust hk hc he hleased
    · apply leased_apply hk hc _ hleased
      exact fun hhandles => hsame (hhandles.symm.trans hr)

/-- The jobs of a claim are no jobs in hand. -/
theorem differ_newJobs {worker : String} {timeout qty : ℤ} {claimed : List Uuid}
    {duration : Uuid → ℕ} {job' : Job} (h : w.Sound setup)
    (hclaim : claimTask setup.pg w.queue w.clock worker timeout qty = .ok (s, claimed))
    (hjob : job ∈ w.hands i) (hjob' : job' ∈ claimed.filterMap (newJob s w.clock duration)) :
  Differ job.ids job'.ids
  := by
  obtain ⟨hid, -, -, -, r, hr, hrun, htask⟩ := mem_newJobs hjob'
  have hi := h.lt_size hjob
  rw [← hrun] at hid
  obtain ⟨hneRun, hneTask⟩ :=
    ne_of_claimed h.consistent hclaim (h.before hi hjob) (h.leased i hi job hjob) hr hid
  rw [hrun] at hneRun
  rw [htask] at hneTask
  exact ⟨hneRun.symm, hneTask.symm⟩

/-- The jobs of a claim are of runs and tasks of their own. -/
theorem pairwise_newJobs {worker : String} {timeout qty : ℤ} {claimed : List Uuid}
    {duration : Uuid → ℕ} (h : w.Sound setup)
    (hclaim : claimTask setup.pg w.queue w.clock worker timeout qty = .ok (s, claimed)) :
  ((claimed.filterMap (newJob s w.clock duration)).map Job.ids).Pairwise Differ
  := by
  rw [List.pairwise_map]
  have hpairs : (claimed.filterMap (newJob s w.clock duration)).Pairwise
      (fun job job' => job.runId ≠ job'.runId) := by
    rw [← List.pairwise_map, map_runId_newJobs (fun id hid => found_claimed hclaim hid)]
    exact nodup_claimed hclaim
  apply hpairs.imp_of_mem
  intro job job' hjob hjob' hne
  obtain ⟨hid, -, -, -, r, hr, hrun, htask⟩ := mem_newJobs hjob
  obtain ⟨hid', -, -, -, r', hr', hrun', htask'⟩ := mem_newJobs hjob'
  rw [← hrun] at hid
  rw [← hrun'] at hid'
  have hneTask : r.taskId ≠ r'.taskId := by
    apply taskId_ne_of_claimed h.consistent hclaim hr hid hr' hid'
    rwa [hrun, hrun']
  rw [htask, htask'] at hneTask
  exact ⟨hne, hneTask⟩

theorem apart_claims {worker : String} {timeout qty : ℤ} {claimed : List Uuid} {n : ℕ}
    {duration : Uuid → ℕ} (h : w.Sound setup)
    (hclaim : claimTask setup.pg w.queue w.clock worker timeout qty = .ok (s, claimed)) :
  Apart (Function.update w.hands i (startJobs w.clock n
    (w.hands i ++ claimed.filterMap (newJob s w.clock duration))))
  := by
  apply h.apart.update
  · rw [map_ids_startJobs, List.map_append, List.pairwise_append]
    refine ⟨h.apart.within i, h.pairwise_newJobs hclaim, ?_⟩
    intro ids hmem ids' hmem'
    obtain ⟨job, hjob, rfl⟩ := List.mem_map.mp hmem
    obtain ⟨job', hjob', rfl⟩ := List.mem_map.mp hmem'
    exact h.differ_newJobs hclaim hjob hjob'
  · intro i' hne job hjob job' hjob'
    obtain ⟨job₀, hjob₀, hids, -⟩ := mem_startJobs hjob
    rw [hids]
    rcases List.mem_append.mp hjob₀ with hjob₀ | hjob₀
    · exact h.apart.across i i' hne.symm job₀ hjob₀ job' hjob'
    · exact (h.differ_newJobs hclaim hjob' hjob₀).symm

/-- A worker claims runs. -/
theorem claims {duration : Uuid → ℕ} (h : w.Sound setup)
    (hfits : Fits setup w (.claims i duration)) (hs : w.claims setup i duration = some w') :
  w'.Sound setup
  := by
  obtain ⟨qty, s, claimed, hi, hqty, hclaim, rfl⟩ := claims_eq_some hs
  obtain ⟨hshort, hsum⟩ := hfits qty s claimed hqty hclaim
  have hfound : ∀ id ∈ claimed, ∃ r, s.runs.get? id = some r :=
    fun id hid => found_claimed hclaim hid
  set new := claimed.filterMap (newJob s w.clock duration) with hnewdef
  have hids : new.map Job.runId = claimed := map_runId_newJobs hfound
  have hnew : ∀ job ∈ new, job.runId ∈ claimed ∧ job.claimedAt = w.clock ∧ job.startedAt = none
      ∧ job.duration = duration job.runId
      ∧ ∃ r ∈ s.runs.rows, r.runId = job.runId ∧ r.taskId = job.taskId :=
    fun job hjob => mem_newJobs hjob
  constructor
  · exact consistent_claimTask h.consistent hclaim
  · intro i' hi'
    by_cases hsame : i' = i
    · subst hsame
      simp only [Function.update_self]
      apply (h.onTime i' hi').append hqty
      · intro job hjob
        obtain ⟨hid, hclaimed, hwaits, hduration, -⟩ := hnew job hjob
        rw [hduration]
        exact ⟨hclaimed, hwaits, hshort job.runId hid⟩
      · intro hone
        have hmap : new.map Job.duration = claimed.map duration := by
          rw [← hids, List.map_map]
          apply List.map_congr_left
          intro job hjob
          exact (hnew job hjob).2.2.2.1
        rw [hmap]
        exact hsum hone
      · have hlength : new.length = claimed.length := by
          rw [← hids, List.length_map]
        rw [hlength]
        exact length_claimed hclaim
    · simp only [Function.update_of_ne hsame]
      exact h.onTime i' hi'
  · intro i' hi' job hjob
    have hold : ∀ job ∈ w.hands i',
        Leased s.life job.runId job.taskId (job.claimedAt + setup.timeout i') := fun job hjob =>
      leased_claimTask h.consistent hclaim (h.before hi' hjob) (h.leased i' hi' job hjob)
    by_cases hsame : i' = i
    · subst hsame
      simp only [Function.update_self] at hjob
      obtain ⟨job₀, hjob₀, hjobIds, hclaimed⟩ := mem_startJobs hjob
      obtain ⟨hrun, htask⟩ := Prod.mk.inj hjobIds
      rw [hrun, htask, hclaimed]
      rcases List.mem_append.mp hjob₀ with hjob₀ | hjob₀
      · exact hold job₀ hjob₀
      · obtain ⟨hid, hnow, -, -, r, hr, hrun₀, htask₀⟩ := hnew job₀ hjob₀
        rw [← hrun₀] at hid
        rw [← hrun₀, ← htask₀, hnow]
        exact leased_of_claimed h.consistent hclaim hr hid
    · simp only [Function.update_of_ne hsame] at hjob
      exact hold job hjob
  · exact h.apart_claims hclaim
  · intro i' hi'
    have hne : i' ≠ i := by
      rintro rfl
      exact absurd hi (not_lt.mpr hi')
    simp only [Function.update_of_ne hne]
    exact h.idle i' hi'
  · intro id hid
    rcases List.mem_append.mp hid with hid | hid
    · exact awake_step (step_claim hclaim) not_false (h.awake id hid)
    · obtain ⟨r, hr⟩ := hfound id hid
      obtain rfl := Keyed.Table.key_of_get? hr
      exact awake_of_leased (consistent_claimTask h.consistent hclaim)
        (leased_of_claimed h.consistent hclaim (Keyed.Table.mem_of_get? hr) hid)
  · apply List.Nodup.append h.once (nodup_claimed hclaim)
    intro id hold hid
    exact not_awake_of_claimed hclaim hid (h.awake id hold)

/-- A body is over. -/
theorem ends {l : Option Engine.Label} (h : w.Sound setup) (hs : w.ends setup i m l = some w') :
  w'.Sound setup
  := by
  obtain ⟨job, s, hjob, hi, hover, hlives, rfl⟩ := ends_eq_some hs
  have hmem : job ∈ w.hands i := List.mem_of_getElem? hjob
  have hother : ∀ {id taskId moment}, id ≠ job.runId → Leased w.queue.life id taskId moment →
      Leased s.life id taskId moment := by
    intro id taskId moment hne hleased
    apply leased_lives h.consistent hlives _ hleased
    exact fun k c hc hk hallowed =>
      leased_apply hk hallowed (fun hhandles => hne (eq_of_ends hc hhandles))
  have hawake : ∀ id ∈ w.delivered, id ≠ job.runId → Awake s.life id := by
    intro id hid hne
    apply awake_lives (hlives.mono _) (h.awake id hid)
    exact fun c hc hparks => hne (eq_of_ends hc hparks.handles)
  have hrest : ∀ {job'}, job' ∈ startJobs w.clock (setup.options i).slots
      ((w.hands i).eraseIdx m) → ∃ job₀ ∈ (w.hands i).eraseIdx m, job'.ids = job₀.ids
        ∧ job'.claimedAt = job₀.claimedAt ∧ Differ job₀.ids job.ids := by
    intro job' hjob'
    obtain ⟨job₀, hjob₀, hids, hclaimed⟩ := mem_startJobs hjob'
    exact ⟨job₀, hjob₀, hids, hclaimed,
      (differ_of_mem_eraseIdx (h.apart.within i) hjob hjob₀).symm⟩
  constructor
  · exact hlives.consistent h.consistent
  · intro i' hi'
    by_cases hsame : i' = i
    · subst hsame
      simp only [Function.update_self]
      exact (h.onTime i' hi').eraseIdx hjob hover
    · simp only [Function.update_of_ne hsame]
      exact h.onTime i' hi'
  · intro i' hi' job' hjob'
    by_cases hsame : i' = i
    · subst hsame
      simp only [Function.update_self] at hjob'
      obtain ⟨job₀, hjob₀, hids, hclaimed, hdiffer⟩ := hrest hjob'
      obtain ⟨hrun, htask⟩ := Prod.mk.inj hids
      rw [hrun, htask, hclaimed]
      exact hother hdiffer.1 (h.leased i' hi' job₀ (List.mem_of_mem_eraseIdx hjob₀))
    · simp only [Function.update_of_ne hsame] at hjob'
      exact hother (h.apart.across i' i hsame job' hjob' job hmem).1 (h.leased i' hi' job' hjob')
  · apply h.apart.update
    · rw [map_ids_startJobs]
      exact (h.apart.within i).sublist ((List.eraseIdx_sublist _ m).map Job.ids)
    · intro i' hne job' hjob' job'' hjob''
      obtain ⟨job₀, hjob₀, hids, -⟩ := hrest hjob'
      rw [hids]
      exact h.apart.across i i' hne.symm job₀ (List.mem_of_mem_eraseIdx hjob₀) job'' hjob''
  · intro i' hi'
    have hne : i' ≠ i := by
      rintro rfl
      exact absurd hi (not_lt.mpr hi')
    simp only [Function.update_of_ne hne]
    exact h.idle i' hi'
  · intro id hid
    split at hid
    · have hne : id ≠ job.runId := by
        rintro rfl
        exact h.once.not_mem_erase hid
      exact hawake id (List.mem_of_mem_erase hid) hne
    · rename_i hparked
      by_cases hne : id = job.runId
      · subst hne
        apply awake_of_not_parked _ (Bool.eq_false_iff.mpr hparked)
        exact (h.awake job.runId hid).1.trans_le (drawn_le_lives hlives)
      · exact hawake id hid hne
  · dsimp only
    split
    · exact h.once.erase job.runId
    · exact h.once

theorem step {move : Move} (h : w.Sound setup) (hfits : Fits setup w move)
    (hs : w.step setup move = some w') :
  w'.Sound setup
  := by
  cases move with
  | tick t => exact h.tick hs
  | call l =>
      rw [Crew.step] at hs
      split at hs
      · rename_i hl
        obtain ⟨s, hcall, rfl⟩ := Option.map_eq_some_iff.mp hs
        exact h.call hl hcall
      · cases hs
  | claims i duration => exact h.claims hfits hs
  | works i m call => exact h.works hfits hs
  | ends i m l => exact h.ends hs

end Crew.Sound

/-- Take any steps of any workers from the creation of a queue, where the bodies of the runs that
are claimed take less time than the claim timeout, and those of a batch that is executed one by one
together do. No run in hand has expired, no run and no task is in hand twice, and no run is
delivered twice unless it was suspended. -/
theorem lease_kept {storage : StorageMode} {clock : Time} {moves : List Move}
    (hfits : (crewMachine setup).Along (Fits setup) (Crew.create storage clock) moves)
    (hrun : (crewMachine setup).run (Crew.create storage clock) moves = some w) :
  (∀ i, ∀ job ∈ w.hands i, w.clock < job.claimedAt + setup.timeout i
      ∧ ∀ r ∈ w.queue.runs.rows, r.runId = job.runId → ¬ r.Expired w.clock)
    ∧ Apart w.hands ∧ w.delivered.Nodup
  := by
  have hsound : w.Sound setup :=
    Machine.invariant_along (I := Crew.Sound setup) (fun _ _ _ hfits h hs => h.step hfits hs)
      hfits (.create setup storage clock) hrun
  refine ⟨?_, hsound.apart, hsound.once⟩
  intro i job hjob
  have hi := hsound.lt_size hjob
  use hsound.before hi hjob
  intro r hr hid hexpired
  exact runId_ne_of_expired hsound.consistent (hsound.leased i hi job hjob) (hsound.before hi hjob)
    hr hexpired hid

end

/-! ### Two tasks claimed at once -/

/-- Two workers with one slot and batches of two. -/
def batchSetup : Setup where
  pg := plainPostgres
  size := 2
  options _ := { concurrency := 1, batchSize := some 2, claimTimeout := 10, workerId := "worker" }

/-- Two tasks are spawned. -/
def twoSpawned : QueueState :=
  let s := insertSpawned (.create .unpartitioned) 0
    (spawnedTask (.create .unpartitioned) 0 "tasks.add" bareCall ⟨none, none, none, none, none⟩)
  insertSpawned s 0 (spawnedTask s 0 "tasks.add" bareCall ⟨none, none, none, none, none⟩)

/-- Their runs are claimed. -/
def twoClaimed : QueueState :=
  [newRun ⟨1⟩ ⟨0⟩ 1 .pending 0 0, newRun ⟨3⟩ ⟨2⟩ 1 .pending 0 0].foldl
    (markClaimed 0 "worker" (some (seconds 10))) twoSpawned

/-- The first one is completed. -/
def oneCompleted (now : Time) : QueueState :=
  markCompleted twoClaimed now (crashedRun ⟨1⟩ ⟨0⟩) none

/-- The hands of the workers where the first one has some jobs. -/
def firstHands (jobs : List Job) : ℕ → List Job := Function.update (fun _ => []) 0 jobs

theorem claimTask_twoSpawned :
  claimTask plainPostgres twoSpawned 0 "worker" 10 2 = .ok (twoClaimed, [⟨1⟩, ⟨3⟩])
  := by
  have hsorted : [newRun ⟨1⟩ ⟨0⟩ 1 .pending 0 0, newRun ⟨3⟩ ⟨2⟩ 1 .pending 0 0].Pairwise
      (fun r r' => availableBefore plainPostgres r r') := by
    rw [List.pairwise_pair]
    rfl
  exact claimTask_all rfl rfl rfl hsorted le_rfl

/-- Spawning two tasks and claiming their runs, whose bodies take so long. -/
def claimTwo (duration : ℕ) : List Move :=
  [.call (.spawn 0 "tasks.add" bareCall (.obj [])), .call (.spawn 0 "tasks.add" bareCall (.obj [])),
    .claims 0 (fun _ => duration)]

/-- The workers once they did. -/
def twoInHand (duration : ℕ) : Crew where
  queue := twoClaimed
  clock := 0
  hands := firstHands [⟨⟨1⟩, ⟨0⟩, duration, 0, some 0⟩, ⟨⟨3⟩, ⟨2⟩, duration, 0, none⟩]
  delivered := [⟨1⟩, ⟨3⟩]

theorem step_claimTwo (duration : ℕ) :
  Crew.step batchSetup ⟨twoSpawned, 0, fun _ => [], []⟩ (.claims 0 (fun _ => duration))
    = some (twoInHand duration)
  := by
  have hqty : (batchSetup.options 0).claimQty 0 = some 2 := rfl
  have hclaim : claimTask batchSetup.pg twoSpawned 0
      (batchSetup.options 0).workerId (batchSetup.options 0).claimTimeout 2
      = .ok (twoClaimed, [⟨1⟩, ⟨3⟩]) := claimTask_twoSpawned
  have hjobs : [⟨1⟩, ⟨3⟩].filterMap (newJob twoClaimed 0 (fun _ => duration))
      = [⟨⟨1⟩, ⟨0⟩, duration, 0, none⟩, ⟨⟨3⟩, ⟨2⟩, duration, 0, none⟩] := rfl
  rw [Crew.step, claims_of (w := ⟨twoSpawned, 0, fun _ => [], []⟩) (fun _ => duration)
    Nat.zero_lt_two hqty hclaim]
  rw [hjobs]
  rfl

theorem run_claimTwo (duration : ℕ) :
  (crewMachine batchSetup).run (.create .unpartitioned 0) (claimTwo duration)
    = some (twoInHand duration)
  := by
  apply Machine.run_cons.mpr
  refine ⟨_, rfl, Machine.run_cons.mpr ⟨⟨twoSpawned, 0, fun _ => [], []⟩, rfl, ?_⟩⟩
  apply Machine.run_cons.mpr
  exact ⟨twoInHand duration, step_claimTwo duration, rfl⟩

theorem mem_firstHands {i : ℕ} {job : Job} {jobs : List Job} (h : job ∈ firstHands jobs i) :
  job ∈ jobs
  := by
  rw [firstHands, Function.update_apply] at h
  split at h
  · exact h
  · cases h

/-- The first body is over and its run is completed. -/
def endFirst (now : Time) : List Move := [.tick now, .ends 0 0 (some (.complete now ⟨1⟩ none))]

/-- The workers when the second body has started. -/
def secondInHand (duration : ℕ) : Crew where
  queue := oneCompleted duration
  clock := duration
  hands := firstHands [⟨⟨3⟩, ⟨2⟩, duration, 0, some (duration : ℤ)⟩]
  delivered := [⟨1⟩, ⟨3⟩]

theorem step_tickFirst (duration : ℕ) :
  Crew.step batchSetup (twoInHand duration) (.tick duration)
    = some { twoInHand duration with clock := duration }
  := by
  apply tick_of (w := twoInHand duration) (Int.natCast_nonneg duration)
  intro i _ job hjob
  rcases List.mem_cons.mp (mem_firstHands hjob) with rfl | hjob
  · exact decide_eq_true (Int.zero_add _).ge
  · obtain rfl := List.mem_singleton.mp hjob
    rfl

theorem step_endsFirst (duration : ℕ) :
  Crew.step batchSetup { twoInHand duration with clock := duration }
    (.ends 0 0 (some (.complete duration ⟨1⟩ none))) = some (secondInHand duration)
  := by
  have hover : (some 0 : Option Time).any (fun t => ((duration : ℤ) : Time) = t + duration) :=
    decide_eq_true (Int.zero_add _).symm
  have hcall : Engine.step plainPostgres twoClaimed (.complete duration ⟨1⟩ none)
      = some (oneCompleted duration) := rfl
  rw [Crew.step, ends_of (w := { twoInHand duration with clock := duration }) Nat.zero_lt_two rfl
    hover rfl hcall]
  have hhands : Function.update (firstHands [⟨⟨1⟩, ⟨0⟩, duration, 0, some 0⟩,
      ⟨⟨3⟩, ⟨2⟩, duration, 0, none⟩]) 0 [⟨⟨3⟩, ⟨2⟩, duration, 0, some (duration : ℤ)⟩]
      = firstHands [⟨⟨3⟩, ⟨2⟩, duration, 0, some (duration : ℤ)⟩] :=
    Function.update_idem ..
  rw [secondInHand, ← hhands]
  rfl

theorem run_endFirst (duration : ℕ) :
  (crewMachine batchSetup).run (twoInHand duration) (endFirst duration)
    = some (secondInHand duration)
  := by
  apply Machine.run_cons.mpr
  refine ⟨_, step_tickFirst duration, Machine.run_cons.mpr ?_⟩
  exact ⟨_, step_endsFirst duration, rfl⟩

theorem along_batch :
  (crewMachine batchSetup).Along (Fits batchSetup) (.create .unpartitioned 0)
    (claimTwo 3000000 ++ endFirst (3000000 : ℕ))
  := by
  apply (Machine.along_cons rfl).mpr
  use trivial
  apply (Machine.along_cons
    (show _ = some (⟨twoSpawned, 0, fun _ => [], []⟩ : Crew) from rfl)).mpr
  use trivial
  apply (Machine.along_cons (step_claimTwo 3000000)).mpr
  constructor
  · intro qty s claimed hqty hclaim
    have hqty₂ : (batchSetup.options 0).claimQty 0 = some 2 := rfl
    obtain rfl : qty = 2 := Option.some.inj (hqty.symm.trans hqty₂)
    have hclaimed := hclaim.symm.trans claimTask_twoSpawned
    cases hclaimed
    have hshort : (3000000 : ℤ) < batchSetup.timeout 0 := by decide
    exact ⟨fun _ _ => hshort, fun _ => by decide⟩
  · apply (Machine.along_cons (step_tickFirst 3000000)).mpr
    exact ⟨trivial, trivial, fun _ _ => trivial⟩

/-- Two bodies of three seconds are over in time. -/
theorem lease_kept_batch :
  (3000000 : ℤ) < 0 + batchSetup.timeout 0 ∧ Apart (secondInHand 3000000).hands
    ∧ (secondInHand 3000000).delivered.Nodup
  := by
  have hrun : (crewMachine batchSetup).run (.create .unpartitioned 0)
      (claimTwo 3000000 ++ endFirst (3000000 : ℕ)) = some (secondInHand 3000000) := by
    rw [Machine.run_append (run_claimTwo 3000000)]
    exact run_endFirst 3000000
  obtain ⟨hhands, hapart, honce⟩ := lease_kept along_batch hrun
  exact ⟨(hhands 0 _ (List.mem_singleton_self _)).1, hapart, honce⟩

/-! ### A batch that takes too long -/

/-- The claim of the second run has expired, and it is attempted again. -/
def secondRetried : QueueState :=
  failRetried (oneCompleted (6000000 : ℕ)) (seconds 10) (crashedRun ⟨3⟩ ⟨2⟩)
    (claimTimeout plainPostgres (crashedRun ⟨3⟩ ⟨2⟩)) (seconds 10)

/-- The other worker claims the next attempt. -/
def secondReclaimed : QueueState :=
  markClaimed (seconds 10) "worker" (some (seconds 20)) secondRetried
    (newRun ⟨4⟩ ⟨2⟩ 2 .pending (seconds 10) (seconds 10))

theorem claimTask_expired :
  claimTask plainPostgres (oneCompleted (6000000 : ℕ)) (seconds 10) "worker" 10 2
    = .ok (secondReclaimed, [⟨4⟩])
  := by
  have hdue : cancelCandidates plainPostgres (oneCompleted (6000000 : ℕ)) (seconds 10) = .ok [] := by
    have hnone : ((oneCompleted (6000000 : ℕ)).tasks.rows.filter
        (fun t => !t.state.terminal)).filterM (cancellationDue plainPostgres (seconds 10))
        = .ok [] := rfl
    rw [cancelCandidates, hnone]
    exact congrArg Except.ok List.mergeSort_nil
  have hexpired : expiredRuns plainPostgres (oneCompleted (6000000 : ℕ)) (seconds 10) 2
      = [crashedRun ⟨3⟩ ⟨2⟩] := by
    have hone : (oneCompleted (6000000 : ℕ)).runs.rows.filter (fun r => r.Expired (seconds 10))
        = [crashedRun ⟨3⟩ ⟨2⟩] := rfl
    rw [expiredRuns]
    change (List.mergeSort ((oneCompleted (6000000 : ℕ)).runs.rows.filter
      (fun r => r.Expired (seconds 10))) (expiresBefore plainPostgres)).take 2 = _
    rw [hone, List.mergeSort_singleton]
    rfl
  have hnext : nextAvailable plainPostgres (seconds 10) none 1 none = some (seconds 10) := by
    change some (max (seconds 10 + ⌊(0 : ℚ) * 1000000 + 1 / 2⌋) (seconds 10)) = some (seconds 10)
    norm_num
  have hfail : failRun plainPostgres (oneCompleted (6000000 : ℕ)) (seconds 10) ⟨3⟩
      (claimTimeout plainPostgres (crashedRun ⟨3⟩ ⟨2⟩)) none = .ok secondRetried := by
    change (nextAvailable plainPostgres (seconds 10) none 1 none).elim
      (Except.ok (failForGood (oneCompleted (6000000 : ℕ)) (seconds 10) (crashedRun ⟨3⟩ ⟨2⟩)
        (claimTimeout plainPostgres (crashedRun ⟨3⟩ ⟨2⟩))))
      (fun available => Except.ok (failRetried (oneCompleted (6000000 : ℕ)) (seconds 10)
        (crashedRun ⟨3⟩ ⟨2⟩) (claimTimeout plainPostgres (crashedRun ⟨3⟩ ⟨2⟩)) available)) = _
    rw [hnext]
    rfl
  have hsweep : sweep plainPostgres (seconds 10)
      (expiredRuns plainPostgres (oneCompleted (6000000 : ℕ)) (seconds 10) 2)
      (oneCompleted (6000000 : ℕ))
      = .ok secondRetried := by
    rw [hexpired]
    exact Except.foldlM_cons_eq_ok.mpr ⟨secondRetried, hfail, rfl⟩
  have hcandidates : claimCandidates plainPostgres secondRetried (seconds 10) 2
      = [newRun ⟨4⟩ ⟨2⟩ 2 .pending (seconds 10) (seconds 10)] := by
    have hone : secondRetried.runs.rows.filter (fun r => (r.state = .pending ∨ r.state = .sleeping)
        ∧ (secondRetried.tasks.get? r.taskId).any (fun t => !t.state.terminal)
        ∧ r.availableAt ≤ ((seconds 10 : Time) : WithTop Time))
        = [newRun ⟨4⟩ ⟨2⟩ 2 .pending (seconds 10) (seconds 10)] := rfl
    rw [claimCandidates, hone, List.mergeSort_singleton]
    rfl
  have hclaim : claimTask plainPostgres (oneCompleted (6000000 : ℕ)) (seconds 10) "worker" 10 2
      = .ok ((claimCandidates plainPostgres secondRetried (seconds 10) 2).foldl _ secondRetried,
        (claimCandidates plainPostgres secondRetried (seconds 10) 2).map RunRow.runId) :=
    claimTask_of_sweep hdue hsweep
  rw [hcandidates] at hclaim
  exact hclaim

/-- The second body goes on while the other worker claims its task. -/
def claimSecond : List Move := [.tick (seconds 10), .claims 1 (fun _ => 6000000)]

/-- The workers with the task in hand twice. -/
def twiceInHand : Crew :=
  ⟨secondReclaimed, seconds 10, Function.update
    (firstHands [⟨⟨3⟩, ⟨2⟩, 6000000, 0, some (6000000 : ℕ)⟩]) 1
    [⟨⟨4⟩, ⟨2⟩, 6000000, seconds 10, some (seconds 10)⟩],
    [⟨1⟩, ⟨3⟩, ⟨4⟩]⟩

theorem run_claimSecond :
  (crewMachine batchSetup).run (secondInHand 6000000) claimSecond = some twiceInHand
  := by
  apply Machine.run_cons.mpr
  refine ⟨{ secondInHand 6000000 with clock := seconds 10 }, ?_, Machine.run_cons.mpr ?_⟩
  · change Crew.tick batchSetup (secondInHand 6000000) (seconds 10) = _
    apply tick_of
    · decide
    · intro i _ job hjob
      obtain rfl := List.mem_singleton.mp (mem_firstHands hjob)
      decide
  · refine ⟨twiceInHand, ?_, rfl⟩
    have hqty : (batchSetup.options 1).claimQty 0 = some 2 := rfl
    have hclaim : claimTask batchSetup.pg (oneCompleted (6000000 : ℕ)) (seconds 10)
        (batchSetup.options 1).workerId (batchSetup.options 1).claimTimeout 2
        = .ok (secondReclaimed, [⟨4⟩]) := claimTask_expired
    have hjobs : [⟨4⟩].filterMap (newJob secondReclaimed (seconds 10) (fun _ => 6000000))
        = [⟨⟨4⟩, ⟨2⟩, 6000000, seconds 10, none⟩] := rfl
    change Crew.claims batchSetup { secondInHand 6000000 with clock := seconds 10 } 1
      (fun _ => 6000000) = _
    rw [claims_of (w := { secondInHand 6000000 with clock := seconds 10 }) (fun _ => 6000000)
      Nat.one_lt_two hqty hclaim]
    rw [hjobs]
    rfl

/-- A body that takes less than the claim timeout does not run once where its worker executes a
batch one by one. -/
theorem batch_delivered_twice :
  ¬ ∀ (setup : Setup) (storage : StorageMode) (clock : Time) (moves : List Move) (w : Crew),
    (∀ i duration, .claims i duration ∈ moves → ∀ id, duration id < setup.timeout i) →
      (∀ i m call, .works i m call ∈ moves → call.KeepsClaim (setup.options i).claimTimeout) →
      (crewMachine setup).run (Crew.create storage clock) moves = some w →
        (∀ i, ∀ job ∈ w.hands i, w.clock < job.claimedAt + setup.timeout i) ∧ Apart w.hands
  := by
  intro h
  have hrun : (crewMachine batchSetup).run (.create .unpartitioned 0)
      (claimTwo 6000000 ++ (endFirst (6000000 : ℕ) ++ claimSecond)) = some twiceInHand := by
    rw [Machine.run_append (run_claimTwo 6000000), Machine.run_append (run_endFirst 6000000)]
    exact run_claimSecond
  have hworks : ∀ i m call, Move.works i m call
      ∉ claimTwo 6000000 ++ (endFirst (6000000 : ℕ) ++ claimSecond) := by
    intro i m call hmem
    simp [claimTwo, endFirst, claimSecond] at hmem
  have hshort : ∀ i duration, Move.claims i duration
      ∈ claimTwo 6000000 ++ (endFirst (6000000 : ℕ) ++ claimSecond) →
      ∀ id, (duration id : ℤ) < batchSetup.timeout i := by
    intro i duration hmem id
    have hmem' : duration = fun _ => 6000000 := by
      simp only [claimTwo, endFirst, claimSecond, List.cons_append, List.nil_append, List.mem_cons,
        reduceCtorEq, Move.claims.injEq, List.not_mem_nil, or_false, false_or] at hmem
      rcases hmem with ⟨-, rfl⟩ | ⟨-, rfl⟩
      all_goals rfl
    rw [hmem']
    exact (by decide : (6000000 : ℤ) < batchSetup.timeout 0)
  obtain ⟨-, hapart⟩ := h _ _ _ _ _ hshort
    (fun i m call hmem => absurd hmem (hworks i m call)) hrun
  have hdiffer := hapart.across 0 1 (by decide) ⟨⟨3⟩, ⟨2⟩, 6000000, 0, some (6000000 : ℕ)⟩
    (List.mem_singleton_self _) ⟨⟨4⟩, ⟨2⟩, 6000000, seconds 10, some (seconds 10)⟩
    (List.mem_singleton_self _)
  exact hdiffer.2 rfl

end DjangoAbsurd.Worker
