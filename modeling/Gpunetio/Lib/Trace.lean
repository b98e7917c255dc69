import Mathlib.Data.List.Basic

/-!
# Histories

A machine takes the events of a list one after the other. A property of single steps holds along a
history if it holds at each of its steps, in the state the events before have led to.

* `run`, `Along`; `Along.of_invariant`: the induction rule;
* **`along_iff`**: if in every good state a step is right exactly when a condition on the state and
  the event holds, and then leads to a good state, the whole history is right exactly when all its
  steps meet the condition.
-/

namespace Trace

variable {S E : Type*} (step : S → E → S)

/-- The state after a history. -/
def run : S → List E → S := List.foldl step

/-- The property holds at each step of a history. -/
def Along (R : S → E → Prop) : S → List E → Prop
  | _, [] => True
  | s, e :: es => R s e ∧ Along R (step s e) es

variable {step} {R C : S → E → Prop} {I : S → Prop} {s : S} {es : List E}

theorem along_iff (hi : I s) (hstep : ∀ s e, I s → (R s e ↔ C s e))
    (hkeep : ∀ s e, I s → C s e → I (step s e)) : Along step R s es ↔ Along step C s es := by
  induction es generalizing s with
  | nil => exact Iff.rfl
  | cons e es ih =>
    constructor
    · rintro ⟨hr, hrs⟩
      have hc := (hstep s e hi).1 hr
      exact ⟨hc, (ih (hkeep s e hi hc)).1 hrs⟩
    · rintro ⟨hc, hcs⟩
      exact ⟨(hstep s e hi).2 hc, (ih (hkeep s e hi hc)).2 hcs⟩

/-- The induction rule: steps that meet the condition are right and keep the invariant. -/
theorem Along.of_invariant (h : Along step C s es) (hi : I s)
    (hstep : ∀ s e, I s → C s e → R s e ∧ I (step s e)) : Along step R s es := by
  induction es generalizing s with
  | nil => trivial
  | cons e es ih =>
    have hs := hstep s e hi h.1
    exact ⟨hs.1, ih h.2 hs.2⟩

end Trace
