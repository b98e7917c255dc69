import Gpunetio.Host.Create

/-!
# Rounding to a power of two

Every queue size goes through `doca_internal_utils_next_power_of_two`, which fills its argument with
ones, or is checked by `doca_internal_utils_is_power_of_two`. Both work on 64-bit numbers.

* `nextPowerOfTwo_eq_powCeil`: the function is the rounding of `Smear`, up to `2 ^ 63`;
* `nextPowerOfTwo_of_gt`, `nextPowerOfTwo_eq_self_iff`: the other numbers of 64 bits, and all the
  fixed points;
* **`nextPowerOfTwo_spec`**: what the function is for.
-/

namespace Gpunetio

open Smear

variable {x : ℕ}

/-- As `powCeil` computes it. -/
theorem nextPowerOfTwo_eq_powCeil (hx : x ∈ Set.Icc 1 (2 ^ 63)) :
    nextPowerOfTwo x = powCeil Nat.one_lt_two x :=
  nextPowerOfTwo_eq hx.1 hx.2

/-- The range is closed under rounding. -/
theorem nextPowerOfTwo_mem (hx : x ∈ Set.Icc 1 (2 ^ 63)) :
    nextPowerOfTwo x ∈ Set.Icc 1 (2 ^ 63) := by
  rw [nextPowerOfTwo_eq_powCeil hx]
  constructor
  · exact hx.1.trans ((powCeil _).le_closure x)
  · exact (powCeil _).closure_min hx.2 ((isClosed_powCeil _).2 ⟨63, rfl⟩)

/-- Above the range all 64 bits are filled, and the increment wraps. -/
theorem nextPowerOfTwo_of_gt (hx : 2 ^ 63 < x) (hlt : x < 2 ^ 64) : nextPowerOfTwo x = 0 := by
  have hne : x - 1 ≠ 0 := by omega
  have hlog : (x - 1).log2 = 63 := by
    have hlo := (Nat.le_log2 hne).2 (show 2 ^ 63 ≤ x - 1 by omega)
    have hhi := (Nat.log2_lt hne).2 (show x - 1 < 2 ^ 64 by omega)
    omega
  rw [nextPowerOfTwo_eq_log2 (by omega) hlt, hlog, Nat.mod_self]

/-- The fixed points are the powers of two and zero. -/
theorem nextPowerOfTwo_eq_self_iff (hlt : x < 2 ^ 64) :
    nextPowerOfTwo x = x ↔ isPowerOfTwo x = true ∨ x = 0 := by
  rw [isPowerOfTwo_iff]
  obtain rfl | hpos := Nat.eq_zero_or_pos x
  · exact iff_of_true (by decide) (.inr rfl)
  rw [or_iff_left hpos.ne']
  obtain hle | hgt := le_or_gt x (2 ^ 63)
  · rw [nextPowerOfTwo_eq_powCeil ⟨hpos, hle⟩, ← isClosed_powCeil Nat.one_lt_two]
    exact (ClosureOperator.isClosed_iff _).symm
  · rw [nextPowerOfTwo_of_gt hgt hlt]
    refine iff_of_false hpos.ne fun ⟨k, hk⟩ => ?_
    -- between `2 ^ 63` and `2 ^ 64` there is no power of two
    rw [hk] at hgt hlt
    have hlo := (Nat.pow_lt_pow_iff_right Nat.one_lt_two).1 hgt
    have hhi := (Nat.pow_lt_pow_iff_right Nat.one_lt_two).1 hlt
    omega

/-- **Rounding up to a power of two.** From `1` to `2 ^ 63` the function returns the least power of
two that is not smaller than its argument. It is idempotent and monotone there, and its fixed points
are what `doca_internal_utils_is_power_of_two` accepts. -/
theorem nextPowerOfTwo_spec (hx : x ∈ Set.Icc 1 (2 ^ 63)) :
    IsLeast {p | (∃ k, p = 2 ^ k) ∧ x ≤ p} (nextPowerOfTwo x) ∧
      nextPowerOfTwo (nextPowerOfTwo x) = nextPowerOfTwo x ∧
      (∀ y ∈ Set.Icc 1 (2 ^ 63), x ≤ y → nextPowerOfTwo x ≤ nextPowerOfTwo y) ∧
      (isPowerOfTwo x = true ↔ nextPowerOfTwo x = x) := by
  have heq := nextPowerOfTwo_eq_powCeil hx
  refine ⟨?_, ?_, fun y hy hxy => ?_, ?_⟩
  · rw [heq]
    exact isLeast_powCeil _ x
  · rw [nextPowerOfTwo_eq_powCeil (nextPowerOfTwo_mem hx), heq]
    exact (powCeil _).idempotent x
  · rw [heq, nextPowerOfTwo_eq_powCeil hy]
    exact (powCeil _).monotone hxy
  · have hpos : x ≠ 0 := Nat.one_le_iff_ne_zero.1 hx.1
    rw [nextPowerOfTwo_eq_self_iff (hx.2.trans_lt (by decide)), or_iff_left hpos]

/-- A depth of five becomes eight. -/
theorem nextPowerOfTwo_spec_five :
    IsLeast {p | (∃ k, p = 2 ^ k) ∧ 5 ≤ p} (nextPowerOfTwo 5) ∧
      nextPowerOfTwo (nextPowerOfTwo 5) = nextPowerOfTwo 5 ∧
      (∀ y ∈ Set.Icc 1 (2 ^ 63), 5 ≤ y → nextPowerOfTwo 5 ≤ nextPowerOfTwo y) ∧
      (isPowerOfTwo 5 = true ↔ nextPowerOfTwo 5 = 5) :=
  nextPowerOfTwo_spec ⟨by decide, by decide⟩

end Gpunetio
