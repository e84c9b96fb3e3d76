import Mathlib.Data.Set.Function

/-!
# Memo tables

A memo table keeps, under a key computed from the argument, the value of the first call
made with that key, and returns it to every later call. A call returns the value of its
own argument after every history of calls exactly when the key tells arguments with
different values apart.
-/

universe u v w

variable {α : Type u} {κ : Type v} {β : Type w} [DecidableEq κ]

/-- The values kept so far, under their keys. -/
abbrev Memo (κ : Type v) (β : Type w) := List (κ × β)

namespace Memo

/-- The value kept under the key `k`. -/
def lookup (m : Memo κ β) (k : κ) : Option β :=
  (m.find? (fun e => e.1 = k)).map Prod.snd

/-- A call: the value kept under the key of `a`, or else the value of `a`, kept from now
on. -/
def call (key : α → κ) (value : α → β) (m : Memo κ β) (a : α) : β × Memo κ β :=
  match m.lookup (key a) with
  | some b => (b, m)
  | none => (value a, m ++ [(key a, value a)])

/-- The memo after a sequence of calls. -/
def calls (key : α → κ) (value : α → β) (m : Memo κ β) (history : List α) : Memo κ β :=
  history.foldl (fun m a => (m.call key value a).2) m

variable {key : α → κ} {value : α → β} {m : Memo κ β}

theorem lookup_append_single (m : Memo κ β) (k k' : κ) (b : β) :
  lookup (m ++ [(k, b)]) k' = (m.lookup k').or (if k = k' then some b else none)
  := by
  simp only [lookup, List.find?_append]
  cases m.find? (fun e => e.1 = k') with
  | some e => simp
  | none => by_cases h : k = k' <;> simp [h]

/-- After a call with the key `k`, the value kept under `k` is the one it returned. -/
theorem lookup_call_self (a : α) :
  lookup (m.call key value a).2 (key a) = some (m.call key value a).1
  := by
  unfold call
  split
  · assumption
  · rename_i h
    simp [lookup_append_single, h]

/-- A call does not change what is kept under another key. -/
theorem lookup_call_of_ne {a : α} {k : κ} (h : key a ≠ k) :
  lookup (m.call key value a).2 k = m.lookup k
  := by
  unfold call
  split
  · rfl
  · simp [lookup_append_single, h]

theorem call_fst (a : α) :
  (m.call key value a).1 = (m.lookup (key a)).getD (value a)
  := by
  unfold call
  cases m.lookup (key a) <;> rfl

/-- A call does not change what a call with another key returns. -/
theorem call_call_of_ne {a a' : α} (h : key a' ≠ key a) :
  ((m.call key value a').2.call key value a).1 = (m.call key value a).1
  := by
  rw [call_fst, call_fst, lookup_call_of_ne h]

/-- A call returns the same again. -/
theorem call_call_self (a : α) :
  ((m.call key value a).2.call key value a).1 = (m.call key value a).1
  := by
  rw [call_fst, lookup_call_self, Option.getD_some]

/-- A kept value stays. -/
theorem lookup_call_of_some {a : α} {k : κ} {b : β} (h : m.lookup k = some b) :
  lookup (m.call key value a).2 k = some b
  := by
  unfold call
  split
  · exact h
  · simp [lookup_append_single, h]

theorem lookup_calls_of_some {k : κ} {b : β} (history : List α) (h : m.lookup k = some b) :
  lookup (m.calls key value history) k = some b
  := by
  induction history generalizing m with
  | nil => exact h
  | cons a history ih =>
      apply ih
      apply lookup_call_of_some h

/-- Whatever is kept after a sequence of calls was kept before, or is the value of one of
the calls. -/
theorem lookup_calls {k : κ} {b : β} (history : List α)
    (h : lookup (m.calls key value history) k = some b) :
  m.lookup k = some b ∨ ∃ a ∈ history, key a = k ∧ value a = b
  := by
  induction history generalizing m with
  | nil => exact .inl h
  | cons a history ih =>
      rcases ih h with h | ⟨a', ha', hk, hv⟩
      · by_cases hk : key a = k
        · cases hm : m.lookup (key a) with
          | some b' =>
              left
              rw [← hk, lookup_call_of_some hm] at h
              rw [← hk, hm, h]
          | none =>
              right
              use a, List.mem_cons_self, hk
              rw [← hk, lookup_call_self] at h
              simpa [call, hm] using h
        · left
          rwa [lookup_call_of_ne hk] at h
      · right
        use a', List.mem_cons_of_mem _ ha', hk, hv

/-- Every call with arguments from `S` returns the value of its argument, after every
history of such calls. -/
def Faithful (key : α → κ) (value : α → β) (m : Memo κ β) (S : Set α) : Prop :=
  ∀ history : List α, (∀ a ∈ history, a ∈ S) →
    ∀ a ∈ S, ((m.calls key value history).call key value a).1 = value a

/-- A memo that keeps nothing under the keys of `S` is faithful on `S` exactly when the
key tells the members of `S` with different values apart. -/
theorem faithful_iff {S : Set α} (hm : ∀ a ∈ S, m.lookup (key a) = none) :
  Faithful key value m S ↔ ∀ a ∈ S, ∀ b ∈ S, key a = key b → value a = value b
  := by
  constructor
  · intro h a ha b hb hk
    have hcall : (m.call key value a).1 = value a := h [] (by simp) a ha
    have hkept : lookup (m.calls key value [a]) (key b) = some (value a) := by
      rw [← hk, ← hcall]
      exact lookup_call_self a
    have hb' := h [a] (by simpa using ha) b hb
    simpa [call, hkept] using hb'
  · intro h history hS a ha
    unfold call
    split
    · rename_i b hb
      rcases lookup_calls history hb with hb | ⟨a', ha', hk, rfl⟩
      · simp [hm a ha] at hb
      · apply h a' (hS a' ha') a ha hk
    · rfl

end Memo
