import Mathlib.Data.Nat.Notation
import Mathlib.Tactic.Basic

/-!
# While loops

The body of a loop is a partial function on the variables of the loop, undefined where the condition
of the loop fails. A loop may not end.

* `Ends`: the loop, entered in one state, ends in another; `Ends.unique`;
* **`total`**: an invariant that the body keeps while a measure decreases; then the loop ends, and
  it ends where the invariant holds and the condition fails.
-/

namespace While

variable {S : Type*} {body : S → Option S} {s t t' : S}

/-- The loop, entered in `s`, ends in `t`. -/
inductive Ends (body : S → Option S) : S → S → Prop
  | done {s : S} (h : body s = none) : Ends body s s
  | next {s s' t : S} (h : body s = some s') (ht : Ends body s' t) : Ends body s t

theorem Ends.unique (h : Ends body s t) (h' : Ends body s t') : t = t' := by
  induction h with
  | done hs =>
    cases h' with
    | done => rfl
    | next hs' => rw [hs] at hs'; cases hs'
  | next hs _ ih =>
    cases h' with
    | done hs' => rw [hs] at hs'; cases hs'
    | next hs' ht' =>
      rw [hs] at hs'
      cases hs'
      exact ih ht'

/-- **Total correctness.** -/
theorem total {I : S → Prop} (μ : S → ℕ) (hi : I s)
    (hstep : ∀ s s', I s → body s = some s' → I s' ∧ μ s' < μ s) :
    ∃ t, Ends body s t ∧ I t ∧ body t = none := by
  induction hn : μ s using Nat.strongRecOn generalizing s with
  | _ n ih =>
    cases hs : body s with
    | none => exact ⟨s, .done hs, hi, hs⟩
    | some s' =>
      obtain ⟨hi', hlt⟩ := hstep s s' hi hs
      obtain ⟨t, ht, hit⟩ := ih (μ s') (hn ▸ hlt) hi' rfl
      exact ⟨t, .next hs ht, hit⟩

end While
