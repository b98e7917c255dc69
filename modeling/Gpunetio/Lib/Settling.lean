import Mathlib.Data.Nat.Notation
import Mathlib.Logic.Relation
import Mathlib.Tactic.Basic

/-!
# Systems that settle

In some systems a step either changes nothing, such as a read in a loop that waits, or brings a
measure down. If some step changes something wherever the goal is not reached, the system comes to
the goal.

* `Settles`: the steps keep an invariant and lower a measure, up to the goal;
* `Settles.reaches`: some run from a good state reaches the goal;
* `Fair`: a scheduler that does not pick steps without effect for ever while others are there;
* **`Settles.eventually`**: under a fair scheduler every run reaches the goal.
-/

namespace Settling

open Relation

variable {S : Type*}

/-- Up to the goal `G` the measure can go down, and it never goes up. -/
structure Settles (step : S → S → Prop) (I G : S → Prop) (μ : S → ℕ) : Prop where
  keep : ∀ s s', I s → step s s' → I s'
  lower : ∀ s s', I s → step s s' → s' = s ∨ μ s' < μ s
  move : ∀ s, I s → ¬ G s → ∃ s', step s s' ∧ s' ≠ s

/-- Where a step could change the state, sooner or later one does. -/
def Fair (step : S → S → Prop) (σ : ℕ → S) : Prop :=
  ∀ i, (∃ s', step (σ i) s' ∧ s' ≠ σ i) → ∃ j, i ≤ j ∧ σ (j + 1) ≠ σ j

variable {step : S → S → Prop} {I G : S → Prop} {μ : S → ℕ} {s : S}

theorem Settles.reaches (h : Settles step I G μ) (hi : I s) :
    ∃ t, ReflTransGen step s t ∧ I t ∧ G t := by
  induction hn : μ s using Nat.strongRecOn generalizing s with
  | _ n ih =>
    by_cases hg : G s
    · exact ⟨s, .refl, hi, hg⟩
    · obtain ⟨s', hs, hne⟩ := h.move s hi hg
      have hlt : μ s' < μ s := (h.lower s s' hi hs).resolve_left hne
      obtain ⟨t, hr, ht⟩ := ih (μ s') (hn ▸ hlt) (h.keep s s' hi hs) rfl
      exact ⟨t, .head hs hr, ht⟩

/-- **Eventually.** -/
theorem Settles.eventually (h : Settles step I G μ) {σ : ℕ → S} (hi : I (σ 0))
    (hs : ∀ i, step (σ i) (σ (i + 1))) (hf : Fair step σ) : ∃ i, I (σ i) ∧ G (σ i) := by
  have hinv : ∀ i, I (σ i) := by
    intro i
    induction i with
    | zero => exact hi
    | succ i ih => exact h.keep _ _ ih (hs i)
  have hmono : ∀ i d, μ (σ (i + d)) ≤ μ (σ i) := by
    intro i d
    induction d with
    | zero => exact Nat.le_refl _
    | succ d ih =>
      obtain heq | hlt := h.lower _ _ (hinv (i + d)) (hs (i + d))
      · exact Nat.le_trans (Nat.le_of_eq (congrArg μ heq)) ih
      · exact Nat.le_trans (Nat.le_of_lt hlt) ih
  -- by induction on the measure: the scheduler lowers it unless the goal is reached
  have hmain : ∀ n i, μ (σ i) = n → ∃ j, I (σ j) ∧ G (σ j) := by
    intro n
    induction n using Nat.strongRecOn with
    | _ n ih =>
      intro i hn
      by_cases hg : G (σ i)
      · exact ⟨i, hinv i, hg⟩
      · obtain ⟨j, hij, hne⟩ := hf i (h.move _ (hinv i) hg)
        have hlt : μ (σ (j + 1)) < μ (σ j) := (h.lower _ _ (hinv j) (hs j)).resolve_left hne
        have hle : μ (σ j) ≤ n := by
          rw [← hn, ← Nat.add_sub_cancel' hij]
          exact hmono i (j - i)
        exact ih _ (Nat.lt_of_lt_of_le hlt hle) (j + 1) rfl
  exact hmain _ 0 rfl

end Settling
