import Mathlib.Logic.Basic

/-!
# Machines

A machine has states and labels and a partial step: in a state, a label is either refused
or leads to the next state. A run is a list of labels none of which is refused. An
invariant of the steps is an invariant of the runs, and a property of the steps of a run
is stated by `Machine.Along`.
-/

universe u v

/-- A partial step function: `step s l = none` when `l` is refused in `s`. -/
structure Machine (State : Type u) (Label : Type v) where
  step : State → Label → Option State

namespace Machine

variable {State : Type u} {Label : Type v} (m : Machine State Label)

/-- The state a list of labels leads to, if none of them is refused. -/
def run : State → List Label → Option State
  | s, [] => some s
  | s, l :: ls => (m.step s l).bind (fun s' => run s' ls)

/-- The steps a list of labels takes from `s` satisfy `P`, as far as they are not
refused. -/
def Along (P : State → Label → Prop) : State → List Label → Prop
  | _, [] => True
  | s, l :: ls => P s l ∧ ∀ s', m.step s l = some s' → Along P s' ls

variable {m}

@[simp]
theorem along_nil (P : State → Label → Prop) (s : State) : m.Along P s [] := trivial

theorem run_cons {s s' : State} {l : Label} {ls : List Label} :
  m.run s (l :: ls) = some s' ↔ ∃ s₁, m.step s l = some s₁ ∧ m.run s₁ ls = some s'
  := by
  simp [run, Option.bind_eq_some_iff]

theorem along_cons {P : State → Label → Prop} {s s₁ : State} {l : Label} {ls : List Label}
    (h : m.step s l = some s₁) :
  m.Along P s (l :: ls) ↔ P s l ∧ m.Along P s₁ ls
  := by
  simp [Along, h]

theorem run_append {s s₁ : State} {ls ls' : List Label} (h : m.run s ls = some s₁) :
  m.run s (ls ++ ls') = m.run s₁ ls'
  := by
  induction ls generalizing s with
  | nil =>
      obtain rfl := Option.some.inj h
      rfl
  | cons l ls ih =>
      obtain ⟨s₂, hs, hr⟩ := run_cons.mp h
      rw [List.cons_append, run, hs, Option.bind_some]
      apply ih hr

/-- What holds of every state and every label of the list holds along it. -/
theorem along_of_forall {P : State → Label → Prop} :
    ∀ {ls : List Label} {s : State}, (∀ s, ∀ l ∈ ls, P s l) → m.Along P s ls
  | [], _, _ => trivial
  | l :: _, s, h =>
      ⟨h s l List.mem_cons_self, fun _ _ =>
        along_of_forall (fun s l' hl' => h s l' (List.mem_cons_of_mem l hl'))⟩

/-- What holds along a list of labels holds along the labels after a run of the first
ones. -/
theorem Along.append {P : State → Label → Prop} {ls ls' : List Label} {s s₁ : State}
    (h : m.Along P s (ls ++ ls')) (hr : m.run s ls = some s₁) :
  m.Along P s ls ∧ m.Along P s₁ ls'
  := by
  induction ls generalizing s with
  | nil =>
      obtain rfl := Option.some.inj hr
      exact ⟨trivial, h⟩
  | cons l ls ih =>
      obtain ⟨s₂, hs, hr⟩ := run_cons.mp hr
      rw [List.cons_append] at h
      obtain ⟨hl, hrest⟩ := (along_cons hs).mp h
      obtain ⟨hfirst, hlast⟩ := ih hrest hr
      exact ⟨(along_cons hs).mpr ⟨hl, hfirst⟩, hlast⟩

/-- Two properties that hold along a list of labels hold along it together. -/
theorem Along.and {P Q : State → Label → Prop} :
    ∀ {ls : List Label} {s : State}, m.Along P s ls → m.Along Q s ls →
      m.Along (fun s l => P s l ∧ Q s l) s ls
  | [], _, _, _ => trivial
  | _ :: _, _, hP, hQ => ⟨⟨hP.1, hQ.1⟩, fun s' hs => Along.and (hP.2 s' hs) (hQ.2 s' hs)⟩

/-- A machine that takes the steps of another that satisfy `P` has the runs along which `P`
holds. -/
theorem run_restricted_iff {m' : Machine State Label} {P : State → Label → Prop}
    (hstep : ∀ s l s', m'.step s l = some s' ↔ m.step s l = some s' ∧ P s l) :
    ∀ {ls : List Label} {s s' : State},
      m'.run s ls = some s' ↔ m.run s ls = some s' ∧ m.Along P s ls
  | [], _, _ => (and_iff_left trivial).symm
  | l :: ls, s, s' => by
      rw [run_cons, run_cons]
      constructor
      · rintro ⟨s₁, hs, hr⟩
        obtain ⟨hs, hl⟩ := (hstep s l s₁).mp hs
        obtain ⟨hr, hP⟩ := (run_restricted_iff hstep).mp hr
        exact ⟨⟨s₁, hs, hr⟩, (along_cons hs).mpr ⟨hl, hP⟩⟩
      · rintro ⟨⟨s₁, hs, hr⟩, hP⟩
        obtain ⟨hl, hP⟩ := (along_cons hs).mp hP
        exact ⟨s₁, (hstep s l s₁).mpr ⟨hs, hl⟩, (run_restricted_iff hstep).mpr ⟨hr, hP⟩⟩

/-- A property every step satisfying `P` preserves holds after every run whose steps
satisfy `P`. -/
theorem invariant_along {P : State → Label → Prop} {I : State → Prop}
    (hstep : ∀ s l s', P s l → I s → m.step s l = some s' → I s') :
    ∀ {ls : List Label} {s s' : State}, m.Along P s ls → I s → m.run s ls = some s' → I s'
  | [], _, _, _, hI, hr => Option.some.inj hr ▸ hI
  | l :: _, s, _, hP, hI, hr => by
      obtain ⟨s₁, hs, hr⟩ := run_cons.mp hr
      obtain ⟨hl, hP⟩ := (along_cons hs).mp hP
      apply invariant_along hstep hP (hstep s l s₁ hl hI hs) hr

/-- A property every step preserves holds after every run. -/
theorem invariant {I : State → Prop} (hstep : ∀ s l s', I s → m.step s l = some s' → I s')
    {ls : List Label} {s s' : State} (hI : I s) (hr : m.run s ls = some s') :
  I s'
  := by
  have hP : m.Along (fun _ _ => True) s ls := along_of_forall (fun _ _ _ => trivial)
  apply invariant_along (fun s l s' _ hI hs => hstep s l s' hI hs) hP hI hr

/-- A property every step satisfying `P` preserves holds along a run whose steps satisfy `P`. -/
theorem Along.invariant {P : State → Label → Prop} {I : State → Prop}
    (hstep : ∀ s l s', P s l → I s → m.step s l = some s' → I s') :
    ∀ {ls : List Label} {s : State}, m.Along P s ls → I s → m.Along (fun s l => I s ∧ P s l) s ls
  | [], _, _, _ => trivial
  | l :: _, s, hP, hI =>
      ⟨⟨hI, hP.1⟩, fun s' hs => Along.invariant hstep (hP.2 s' hs) (hstep s l s' hP.1 hI hs)⟩

/-- A property of the steps follows along a run from a property that implies it. -/
theorem Along.mono {P Q : State → Label → Prop} (h : ∀ s l, P s l → Q s l) :
    ∀ {ls : List Label} {s : State}, m.Along P s ls → m.Along Q s ls
  | [], _, _ => trivial
  | l :: _, s, hP => ⟨h s l hP.1, fun s' hs => Along.mono h (hP.2 s' hs)⟩

/-! ### Refinement -/

variable {State' : Type u} {Label' : Type v} {m' : Machine State' Label'}

/-- When every step is a run of another machine over an abstraction of the states, so is
every run. -/
theorem run_refines {abs : State → State'} {I : State → Prop} {P : Label → Label' → Prop}
    (hstep : ∀ s l s', I s → m.step s l = some s' →
      I s' ∧ ∃ cs, m'.run (abs s) cs = some (abs s') ∧ ∀ c ∈ cs, P l c)
    {ls : List Label} {s s' : State} (hI : I s) (hr : m.run s ls = some s') :
  ∃ cs, m'.run (abs s) cs = some (abs s') ∧ ∀ c ∈ cs, ∃ l ∈ ls, P l c
  := by
  induction ls generalizing s with
  | nil =>
      obtain rfl := Option.some.inj hr
      exact ⟨[], rfl, fun c hc => absurd hc List.not_mem_nil⟩
  | cons l ls ih =>
      obtain ⟨s₁, hs, hr⟩ := run_cons.mp hr
      obtain ⟨hI₁, cs, hcs, hP⟩ := hstep s l s₁ hI hs
      obtain ⟨cs', hcs', hP'⟩ := ih hI₁ hr
      apply Exists.intro (cs ++ cs')
      constructor
      · rw [run_append hcs, hcs']
      · intro c hc
        rcases List.mem_append.mp hc with hc | hc
        · exact ⟨l, List.mem_cons_self, hP c hc⟩
        · obtain ⟨l', hl', hPc⟩ := hP' c hc
          exact ⟨l', List.mem_cons_of_mem l hl', hPc⟩

end Machine
