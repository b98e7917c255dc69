import Mathlib.Data.Nat.Notation
import Mathlib.Order.RelClasses
import Mathlib.Tactic.Basic
import Mathlib.Tactic.Choose

/-!
# Responses along infinite runs

A goal is reached in a run if helpful steps are taken again and again, each of them brings a rank
down, and no other step brings it up. The rank is in any well-founded order, so one step may pass
from one phase to the next and begin a count there that was not bounded before.

* `Ranked`: what each step does to the rank, up to the goal;
* **`Ranked.eventually`**: the goal is reached;
* `exists_run`: a run that goes on for ever.
-/

namespace Response

variable {S R : Type*} [Preorder R]

/-- Up to the goal `G` no step raises the rank, and the helpful ones lower it. -/
structure Ranked (step help : S → S → Prop) (P G : S → Prop) (rank : S → R) : Prop where
  keep : ∀ s s', P s → step s s' → G s' ∨ P s' ∧ rank s' ≤ rank s
  lower : ∀ s s', P s → help s s' → G s' ∨ rank s' < rank s

variable {step help : S → S → Prop} {P G : S → Prop} {rank : S → R} {σ : ℕ → S}

/-- Along the run the rank stays below what it was, unless the goal is reached. -/
theorem Ranked.stays (h : Ranked step help P G rank) (hs : ∀ i, step (σ i) (σ (i + 1))) {i : ℕ}
    (hp : P (σ i)) (d : ℕ) :
    (∃ j, i ≤ j ∧ G (σ j)) ∨ P (σ (i + d)) ∧ rank (σ (i + d)) ≤ rank (σ i) := by
  induction d with
  | zero => exact .inr ⟨hp, le_rfl⟩
  | succ d ih =>
    obtain hgoal | ⟨hp', hle⟩ := ih
    · exact .inl hgoal
    · obtain hgoal | ⟨hp'', hle'⟩ := h.keep _ _ hp' (hs (i + d))
      · exact .inl ⟨i + d + 1, by omega, hgoal⟩
      · exact .inr ⟨hp'', hle'.trans hle⟩

/-- **The goal is reached**, if at every time either it will be, or a helpful step will be taken. -/
theorem Ranked.eventually [WellFoundedLT R] (h : Ranked step help P G rank)
    (hs : ∀ i, step (σ i) (σ (i + 1)))
    (hf : ∀ i, ∃ j, i ≤ j ∧ (G (σ j) ∨ help (σ j) (σ (j + 1)))) {i : ℕ} (hp : P (σ i)) :
    ∃ j, i ≤ j ∧ G (σ j) := by
  induction hr : rank (σ i) using WellFoundedLT.induction generalizing i with
  | _ r ih =>
    obtain ⟨j, hij, hgoal | hhelp⟩ := hf i
    · exact ⟨j, hij, hgoal⟩
    · obtain hgoal | ⟨hpj, hle⟩ := h.stays hs hp (j - i)
      · exact hgoal
      · rw [Nat.add_sub_cancel' hij] at hpj hle
        obtain hgoal | hlt := h.lower _ _ hpj hhelp
        · exact ⟨j + 1, by omega, hgoal⟩
        · obtain hgoal | ⟨hpj', -⟩ := h.keep _ _ hpj (hs j)
          · exact ⟨j + 1, by omega, hgoal⟩
          · obtain ⟨k, hk, hgoal⟩ := ih _ (hr ▸ hlt.trans_le hle) hpj' rfl
            exact ⟨k, by omega, hgoal⟩

/-- From a state with a property that some step always keeps, a run goes on for ever. -/
theorem exists_run (h : ∀ s, P s → ∃ s', step s s' ∧ P s') {s : S} (hs : P s) :
    ∃ σ : ℕ → S, σ 0 = s ∧ ∀ i, P (σ i) ∧ step (σ i) (σ (i + 1)) := by
  choose f hf using h
  let τ : ℕ → {s // P s} := Nat.rec ⟨s, hs⟩ fun _ t => ⟨f t.1 t.2, (hf t.1 t.2).2⟩
  exact ⟨fun i => (τ i).1, rfl, fun i => ⟨(τ i).2, (hf (τ i).1 (τ i).2).1⟩⟩

end Response
