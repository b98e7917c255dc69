import Mathlib.Data.Nat.ModEq

/-!
# Truncated serial numbers

A counter that only ever grows is stored modulo `m`. A reader that knows a lower bound `c` of the
counter recovers the least value from `c` on with the stored residue.

* `nextAt m c x`: the least `y ≥ c` with residue `x` modulo `m`;
* **`nextAt_mod_eq`**: from the residue of `y` the reader gets `y` less the whole multiples of `m`
  that lie between `c` and `y`.
-/

namespace Serial

variable {m c y : ℕ}

/-- The least value from `c` on with residue `x`. -/
def nextAt (m c x : ℕ) : ℕ := c / m * m + x + if x < c % m then m else 0

theorem nextAt_mod_eq (hm : 0 < m) (h : c ≤ y) : nextAt m c (y % m) = c + (y - c) % m := by
  obtain ⟨d, rfl⟩ := Nat.exists_eq_add_of_le h
  have hc := Nat.div_add_mod' c m
  have hlt := Nat.mod_lt c hm
  have hd := Nat.mod_lt d hm
  unfold nextAt
  rw [Nat.add_sub_cancel_left, Nat.add_mod]
  rcases Nat.lt_or_ge (c % m + d % m) m with hs | hs
  · rw [Nat.mod_eq_of_lt hs, if_neg (by omega)]
    omega
  · rw [Nat.mod_eq_sub_mod hs, Nat.mod_eq_of_lt (by omega), if_pos (by omega)]
    omega

end Serial
