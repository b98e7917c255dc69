import Mathlib.Logic.Function.Basic
import Mathlib.Logic.Relation

/-!
# Transition systems

A system is a set of initial states and a step relation. Everything about runs is stated for the
states that runs reach.

* `Reachable init step s`: some run from an initial state ends in `s`;
* `Reachable.invariant`: what holds initially and is kept by every step holds of every reachable
  state; `Reachable.strengthen` lets the step lemma use what is already known of reachable states;
* **`Reachable.simulate`**: a map that sends initial states to initial states and every step to a
  run sends reachable states to reachable states;
* `update_eq_some`: where an agent is after one agent has moved.
-/

namespace Transition

open Relation

variable {S T : Type*}

/-- The states that a run from an initial state reaches. -/
def Reachable (init : S → Prop) (step : S → S → Prop) (s : S) : Prop :=
  ∃ s₀, init s₀ ∧ ReflTransGen step s₀ s

variable {init : S → Prop} {step : S → S → Prop} {s s' : S}

theorem Reachable.start (h : init s) : Reachable init step s := ⟨s, h, .refl⟩

theorem Reachable.next (h : Reachable init step s) (hs : step s s') : Reachable init step s' := by
  obtain ⟨s₀, h₀, hr⟩ := h
  exact ⟨s₀, h₀, hr.tail hs⟩

theorem Reachable.run (h : Reachable init step s) (hs : ReflTransGen step s s') :
    Reachable init step s' := by
  obtain ⟨s₀, h₀, hr⟩ := h
  exact ⟨s₀, h₀, hr.trans hs⟩

/-- The induction rule of reachable states. -/
theorem Reachable.strengthen {P : S → Prop} (h : Reachable init step s)
    (h₀ : ∀ s, init s → P s)
    (hstep : ∀ s s', Reachable init step s → P s → step s s' → P s') : P s := by
  obtain ⟨s₀, hi, hr⟩ := h
  induction hr with
  | refl => exact h₀ s₀ hi
  | tail hr hs ih => exact hstep _ _ ⟨s₀, hi, hr⟩ ih hs

theorem Reachable.invariant {P : S → Prop} (h : Reachable init step s)
    (h₀ : ∀ s, init s → P s) (hstep : ∀ s s', P s → step s s' → P s') : P s :=
  h.strengthen h₀ fun s s' _ => hstep s s'

/-- **Simulation.** A map that turns every step into a run keeps reachability. -/
theorem Reachable.simulate {init' : T → Prop} {step' : T → T → Prop} (f : S → T)
    (h : Reachable init step s) (h₀ : ∀ s, init s → init' (f s))
    (hstep : ∀ s s', Reachable init step s → Reachable init' step' (f s) → step s s' →
      ReflTransGen step' (f s) (f s')) :
    Reachable init' step' (f s) := by
  obtain ⟨s₀, hi, hr⟩ := h
  induction hr with
  | refl => exact .start (h₀ s₀ hi)
  | tail hr hs ih => exact ih.run (hstep _ _ ⟨s₀, hi, hr⟩ ih hs)

/-- In a system with a place for each agent, one agent moves at a time. -/
theorem update_eq_some {A P : Type*} [DecidableEq A] {place : A → Option P} {a b : A}
    {o : Option P} {p : P} :
    Function.update place a o b = some p ↔ b = a ∧ o = some p ∨ b ≠ a ∧ place b = some p := by
  rw [Function.update_apply]
  split
  · simp [*]
  · simp [*]

end Transition
