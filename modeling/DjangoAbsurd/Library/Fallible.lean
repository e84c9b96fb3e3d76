import Mathlib.Tactic.Common

/-!
# Computations that may fail

What a computation that succeeded came from: a mapped one from a value, one after another from
both, a list of them from the values of each, a fold from its steps, a filter from the verdicts on
each.
-/

universe u v w

namespace Except

variable {ε : Type u} {α : Type v} {β : Type w}

theorem toOption_eq_some {x : Except ε α} {a : α} :
  x.toOption = some a ↔ x = .ok a
  := by
  cases x <;> simp [Except.toOption]

theorem map_eq_ok {f : α → β} {x : Except ε α} {b : β} (h : x.map f = .ok b) :
  ∃ a, x = .ok a ∧ f a = b
  := by
  cases x with
  | error e => cases h
  | ok a => exact ⟨a, rfl, Except.ok.inj h⟩

theorem mapError_eq_ok {ε' : Type w} {f : ε → ε'} {x : Except ε α} {a : α} :
  x.mapError f = .ok a ↔ x = .ok a
  := by
  cases x <;> simp [Except.mapError]

/-- A computation followed by another succeeds when both do. -/
theorem bind_eq_ok {ε : Type u} {α β : Type v} {x : Except ε α} {f : α → Except ε β} {b : β} :
  x >>= f = .ok b ↔ ∃ a, x = .ok a ∧ f a = .ok b
  := by
  cases x <;> simp [Bind.bind, Except.bind]

/-- A computation followed by another fails when the first does, or the second. -/
theorem bind_eq_error {ε : Type u} {α β : Type v} {x : Except ε α} {f : α → Except ε β} {e : ε} :
  x >>= f = .error e ↔ x = .error e ∨ ∃ a, x = .ok a ∧ f a = .error e
  := by
  cases x <;> simp [Bind.bind, Except.bind]

/-- A list of computations succeeds with the values of each. -/
theorem mapM_of_map_eq {ε α β : Type} {f : α → Except ε β} :
    ∀ {as : List α} {bs : List β}, as.map f = bs.map .ok → as.mapM f = .ok bs
  | [], [], _ => rfl
  | a :: as, b :: bs, h => by
      obtain ⟨hhead, htail⟩ := List.cons.inj h
      rw [List.mapM_cons, hhead, mapM_of_map_eq htail]
      rfl

theorem map_eq_of_mapM {ε α β : Type} {f : α → Except ε β} :
    ∀ {as : List α} {bs : List β}, as.mapM f = .ok bs → as.map f = bs.map .ok
  | [], bs, h => by
      cases h
      rfl
  | a :: as, bs, h => by
      rw [List.mapM_cons] at h
      cases hhead : f a with
      | error e =>
          rw [hhead] at h
          cases h
      | ok b =>
          cases htail : as.mapM f with
          | error e =>
              rw [hhead, htail] at h
              cases h
          | ok bs' =>
              rw [hhead, htail] at h
              cases h
              rw [List.map_cons, hhead, map_eq_of_mapM htail]
              rfl

/-- Every computation of a list that succeeds has its value among those of the list. -/
theorem exists_of_mapM {ε α β : Type} {f : α → Except ε β} {as : List α} {bs : List β}
    (h : as.mapM f = .ok bs) {a : α} (ha : a ∈ as) :
  ∃ b ∈ bs, f a = .ok b
  := by
  have hvalue : f a ∈ bs.map .ok := map_eq_of_mapM h ▸ List.mem_map_of_mem ha
  obtain ⟨b, hb, heq⟩ := List.mem_map.mp hvalue
  exact ⟨b, hb, heq.symm⟩

/-- Every value of a list of computations is that of one of them. -/
theorem exists_of_mem_mapM {ε α β : Type} {f : α → Except ε β} {as : List α} {bs : List β}
    (h : as.mapM f = .ok bs) {b : β} (hb : b ∈ bs) :
  ∃ a ∈ as, f a = .ok b
  := by
  have hvalue : .ok b ∈ as.map f := map_eq_of_mapM h ▸ List.mem_map_of_mem hb
  exact List.mem_map.mp hvalue

/-! ### Folds and filters -/

/-- The first step of a fold that succeeds, and the rest of it. -/
theorem foldlM_cons_eq_ok {ε α σ : Type} {f : σ → α → Except ε σ} {s s' : σ} {a : α}
    {as : List α} :
  (a :: as).foldlM f s = .ok s' ↔ ∃ s₁, f s a = .ok s₁ ∧ as.foldlM f s₁ = .ok s'
  := by
  rw [List.foldlM_cons]
  cases hstep : f s a with
  | error e => simp [Bind.bind, Except.bind]
  | ok s₁ => simp [Bind.bind, Except.bind]

theorem filterAuxM_eq_ok {ε α : Type} {f : α → Except ε Bool} :
    ∀ {as acc bs : List α}, as.filterAuxM f acc = .ok bs →
      (∀ a ∈ as, ∃ b, f a = .ok b) ∧ ∀ a, a ∈ bs ↔ a ∈ acc ∨ (a ∈ as ∧ f a = .ok true)
  | [], acc, bs, h => by
      obtain rfl := Except.ok.inj h
      simp
  | a :: as, acc, bs, h => by
      rw [List.filterAuxM] at h
      cases ha : f a with
      | error e =>
          rw [ha] at h
          cases h
      | ok b =>
          rw [ha] at h
          obtain ⟨hall, hmem⟩ := filterAuxM_eq_ok h
          constructor
          · intro a' ha'
            rcases List.mem_cons.mp ha' with rfl | ha'
            · exact ⟨b, ha⟩
            · exact hall a' ha'
          · intro a'
            rw [hmem]
            cases b <;> grind

/-- What a filter that succeeds keeps. -/
theorem filterM_eq_ok {ε α : Type} {f : α → Except ε Bool} {as bs : List α}
    (h : as.filterM f = .ok bs) :
  (∀ a ∈ as, ∃ b, f a = .ok b) ∧ ∀ a, a ∈ bs ↔ a ∈ as ∧ f a = .ok true
  := by
  rw [List.filterM] at h
  cases haux : as.filterAuxM f [] with
  | error e =>
      rw [haux] at h
      cases h
  | ok cs =>
      rw [haux] at h
      obtain rfl := Except.ok.inj h
      obtain ⟨hall, hmem⟩ := filterAuxM_eq_ok haux
      use hall
      intro a
      rw [List.mem_reverse, hmem]
      simp

/-- A filter that keeps nothing succeeds. -/
theorem filterM_eq_nil {ε α : Type} {f : α → Except ε Bool} {as : List α}
    (h : ∀ a ∈ as, f a = .ok false) :
  as.filterM f = .ok []
  := by
  have haux : as.filterAuxM f [] = .ok [] := by
    induction as with
    | nil => rfl
    | cons a as ih =>
        rw [List.filterAuxM, h a List.mem_cons_self]
        exact ih (fun a' ha' => h a' (List.mem_cons_of_mem a ha'))
  rw [List.filterM, haux]
  rfl

end Except

namespace Option

/-- A list of computations succeeds with the values of each. -/
theorem mapM_eq_some {α : Type v} {β : Type w} {f : α → Option β} {as : List α} {bs : List β} :
  as.mapM f = some bs ↔ as.map f = bs.map some
  := by
  induction as generalizing bs with
  | nil => cases bs <;> simp [pure]
  | cons a as ih =>
      rw [List.mapM_cons]
      cases hhead : f a with
      | none => cases bs <;> simp [hhead]
      | some b =>
          cases bs with
          | nil => cases htail : as.mapM f <;> simp
          | cons b' bs => cases htail : as.mapM f <;> simp [hhead, ← ih, htail]

/-- Lists of computations agree when their computations do. -/
theorem mapM_congr {α γ : Type v} {β : Type w} {f : α → Option β} {g : γ → Option β}
    {as : List α} {cs : List γ} (h : as.map f = cs.map g) :
  as.mapM f = cs.mapM g
  := by
  ext bs
  rw [mapM_eq_some, mapM_eq_some, h]

theorem isSome_mapM {α : Type v} {β : Type w} {f : α → Option β} {as : List α} :
  (as.mapM f).isSome ↔ ∀ a ∈ as, (f a).isSome
  := by
  induction as with
  | nil => simp
  | cons a as ih =>
      rw [List.mapM_cons, List.forall_mem_cons, ← ih]
      cases hhead : f a with
      | none => simp
      | some b => cases htail : as.mapM f <;> simp

theorem map_map_mapM {α : Type u} {β γ : Type v} {f : α → Option β} (g : β → γ) (as : List α) :
  (as.mapM f).map (List.map g) = as.mapM (fun a => (f a).map g)
  := by
  induction as with
  | nil => rfl
  | cons a as ih =>
      rw [List.mapM_cons, List.mapM_cons, ← ih]
      cases hhead : f a with
      | none => rfl
      | some b => cases htail : as.mapM f <;> rfl

/-- Values may be sorted before or after they are computed, when a computation keeps the rank. -/
theorem map_mergeSort_mapM {α : Type v} {β : Type w} {f : α → Option β} (lt : α → α → Bool)
    (lt' : β → β → Bool)
    (h : ∀ a a' b b', f a = some b → f a' = some b' → lt a a' = lt' b b') (as : List α) :
  (as.mapM f).map (·.mergeSort lt') = (as.mergeSort lt).mapM f
  := by
  by_cases hall : ∀ a ∈ as, (f a).isSome
  · obtain ⟨bs, hbs⟩ := Option.isSome_iff_exists.mp (isSome_mapM.mpr hall)
    let ltOption : Option β → Option β → Bool :=
      fun x y => x.elim false (fun b => y.elim false (lt' b))
    rw [hbs, Option.map_some]
    symm
    apply mapM_eq_some.mpr
    calc (as.mergeSort lt).map f
        = (as.map f).mergeSort ltOption := by
          apply List.map_mergeSort
          intro a ha a' ha'
          obtain ⟨b, hb⟩ := Option.isSome_iff_exists.mp (hall a ha)
          obtain ⟨b', hb'⟩ := Option.isSome_iff_exists.mp (hall a' ha')
          rw [h a a' b b' hb hb', hb, hb']
          rfl
      _ = (bs.map some).mergeSort ltOption := by
          rw [mapM_eq_some.mp hbs]
      _ = (bs.mergeSort lt').map some := by
          symm
          apply List.map_mergeSort
          intro b _ b' _
          rfl
  · have hnone : as.mapM f = none := by
      rw [← Option.not_isSome_iff_eq_none, isSome_mapM]
      exact hall
    have hsorted : (as.mergeSort lt).mapM f = none := by
      rw [← Option.not_isSome_iff_eq_none, isSome_mapM]
      simpa only [List.mem_mergeSort] using hall
    rw [hnone, hsorted, Option.map_none]

end Option
