import Mathlib.Data.Nat.Bitwise
import Mathlib.Data.Nat.Log
import Mathlib.Order.Closure

/-!
# Filling a number with ones

`x ||| x >>> 1`, then the same with `2`, with `4` and so on, sets every bit below the highest one.

* `Filled k w x`: the highest bit of `x` is `k`, and the `w` bits from there down are set;
* `Filled.of_log2`, `Filled.or_shiftRight`, `Filled.eq`: the first step, a step, and the end;
* **`log2_pred_succ`**: one more than the highest bit of `n - 1` is the logarithm of `n`, rounded
  up;
* `powCeil`, `isClosed_powCeil`, **`isLeast_powCeil`**: rounding up to a power, a closure operator.
-/

namespace Smear

/-- The bits from `k` down are set, `w` of them at least, and none above. -/
structure Filled (k w x : ℕ) : Prop where
  above : ∀ i, k < i → x.testBit i = false
  set : ∀ i ≤ k, k < i + w → x.testBit i = true

variable {k w x : ℕ}

theorem Filled.of_log2 (h : x ≠ 0) : Filled x.log2 1 x := by
  refine ⟨fun i hi => ?_, fun i hi hk => ?_⟩
  · exact Nat.testBit_eq_false_of_lt ((Nat.log2_lt h).1 hi)
  · obtain rfl : i = x.log2 := by omega
    exact Nat.testBit_log2 h

/-- A step doubles what is filled. -/
theorem Filled.or_shiftRight (h : Filled k w x) : Filled k (2 * w) (x ||| x >>> w) := by
  refine ⟨fun i hi => ?_, fun i hi hk => ?_⟩
  · rw [Nat.testBit_or, Nat.testBit_shiftRight, h.above i hi, h.above (w + i) (by omega),
      Bool.or_false]
  · rw [Nat.testBit_or, Nat.testBit_shiftRight]
    by_cases hiw : k < i + w
    · rw [h.set i hi hiw, Bool.true_or]
    · rw [h.set (w + i) (by omega) (by omega), Bool.or_true]

theorem Filled.eq (h : Filled k w x) (hk : k < w) : x = 2 ^ (k + 1) - 1 := by
  apply Nat.eq_of_testBit_eq
  intro i
  rw [Nat.testBit_two_pow_sub_one]
  by_cases hi : i ≤ k
  · rw [h.set i hi (by omega), decide_eq_true (by omega)]
  · rw [h.above i (by omega), decide_eq_false (by omega)]

theorem log2_pred_succ {n : ℕ} (h : 1 < n) : (n - 1).log2 + 1 = Nat.clog 2 n := by
  have hne : n - 1 ≠ 0 := by omega
  apply eq_of_forall_ge_iff
  intro c
  rw [Nat.clog_le_iff_le_pow Nat.one_lt_two, Nat.succ_le_iff, Nat.log2_lt hne]
  have := Nat.two_pow_pos c
  omega

/-! ## Rounding up to a power -/

section PowCeil

variable {b : ℕ} (hb : 1 < b)

/-- The power of `b` with the logarithm rounded up. -/
def powCeil : ClosureOperator ℕ :=
  GaloisConnection.closureOperator (l := Nat.clog b) (u := fun k => b ^ k) fun _ _ =>
    Nat.clog_le_iff_le_pow hb

theorem powCeil_apply (n : ℕ) : powCeil hb n = b ^ Nat.clog b n := rfl

/-- The powers are what rounding up leaves alone. -/
theorem isClosed_powCeil {n : ℕ} : (powCeil hb).IsClosed n ↔ ∃ k, n = b ^ k := by
  rw [ClosureOperator.isClosed_iff]
  show b ^ Nat.clog b n = n ↔ _
  constructor
  · intro h
    exact ⟨_, h.symm⟩
  · rintro ⟨k, rfl⟩
    rw [Nat.clog_pow b k hb]

/-- **Rounding up gives the least power that is not smaller.** -/
theorem isLeast_powCeil (n : ℕ) : IsLeast {p | (∃ k, p = b ^ k) ∧ n ≤ p} (powCeil hb n) := by
  constructor
  · exact ⟨⟨_, powCeil_apply hb n⟩, (powCeil hb).le_closure n⟩
  · intro p hp
    exact (powCeil hb).closure_min hp.2 ((isClosed_powCeil hb).2 hp.1)

end PowCeil

end Smear
