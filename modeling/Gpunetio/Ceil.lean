import Gpunetio.OneSided
import Mathlib.Algebra.Order.Floor.Div

/-!
# Rounding a quotient up

The chunks of a transfer are counted by two functions that divide by a power of two and round up,
`doca_gpu_dev_verbs_div_ceil_aligned_pow2` in 64 bits, and with `_32bits` in 32. The second one
looks for a remainder in the low half of the dividend only, with a funnel shift.

* `ceilDiv_eq`: a quotient rounded up, by its remainder;
* `ushiftRight_and_not`, `and_pred_ne_zero`, `funnelshiftR_ne_zero`: what the bit operations do;
* `toNat_divCeilAlignedPow2`, `toNat_divCeilAlignedPow2Bits32`: each function as a number;
* **`divCeil_agree`**: both round up, where the result fits in 32 bits.
-/

namespace Gpunetio

/-- There is one more if there is a remainder. -/
theorem ceilDiv_eq {n d : ℕ} (hd : 0 < d) : n ⌈/⌉ d = n / d + if n % d ≠ 0 then 1 else 0 := by
  have hn := Nat.div_add_mod n d
  apply eq_of_forall_ge_iff
  intro c
  rw [ceilDiv_le_iff_le_mul hd]
  split_ifs with hr
  · have hlt : n < d * c ↔ n / d < c := by rw [mul_comm, Nat.div_lt_iff_lt_mul hd]
    rw [Nat.succ_le_iff, ← hlt]
    refine ⟨fun hle => lt_of_le_of_ne hle fun heq => hr ?_, le_of_lt⟩
    rw [heq, Nat.mul_mod_right]
  · rw [not_not] at hr
    rw [hr, Nat.add_zero] at hn
    rw [Nat.add_zero, ← hn, Nat.mul_div_cancel_left _ hd, Nat.mul_le_mul_left_iff hd]

variable {x : BitVec 64} {s : ℕ}

theorem toNat_pow_pred (hs : s < 64) : ((1#64 <<< s) - 1#64).toNat = 2 ^ s - 1 := by
  have hlt : 2 ^ s < 2 ^ 64 := Nat.pow_lt_pow_right (by decide) hs
  have hpos := Nat.two_pow_pos s
  have hpow : (1#64 <<< s).toNat = 2 ^ s := by
    rw [BitVec.toNat_shiftLeft]
    show 1 <<< s % 2 ^ 64 = 2 ^ s
    rw [Nat.shiftLeft_eq, Nat.one_mul, Nat.mod_eq_of_lt hlt]
  rw [BitVec.toNat_sub, hpow]
  show (2 ^ 64 - 1 + 2 ^ s) % 2 ^ 64 = 2 ^ s - 1
  omega

/-- Masking out the low bits before the shift changes nothing. -/
theorem ushiftRight_and_not (hs : s < 64) :
    (x &&& ~~~((1#64 <<< s) - 1#64)) >>> s = x >>> s := by
  apply BitVec.eq_of_getLsbD_eq
  intro i hi
  rw [BitVec.getLsbD_ushiftRight, BitVec.getLsbD_ushiftRight, BitVec.getLsbD_and]
  obtain hlt | hge := Nat.lt_or_ge (s + i) 64
  · have hmask : ((1#64 <<< s) - 1#64).getLsbD (s + i) = false := by
      rw [← BitVec.testBit_toNat, toNat_pow_pred hs, Nat.testBit_two_pow_sub_one,
        decide_eq_false (by omega)]
    rw [BitVec.getLsbD_not, hmask, decide_eq_true hlt, Bool.not_false, Bool.true_and,
      Bool.and_true]
  · rw [BitVec.getLsbD_of_ge x (s + i) hge, Bool.false_and]

/-- The low bits are the remainder. -/
theorem and_pred_ne_zero (hs : s < 64) :
    x &&& ((1#64 <<< s) - 1#64) ≠ 0#64 ↔ x.toNat % 2 ^ s ≠ 0 := by
  have hlow : (x &&& ((1#64 <<< s) - 1#64)).toNat = x.toNat % 2 ^ s := by
    rw [BitVec.toNat_and, toNat_pow_pred hs]
    exact Nat.and_two_pow_sub_one_eq_mod x.toNat s
  rw [← hlow, ne_eq, ← BitVec.toNat_inj]
  rfl

/-- The funnel shift moves the low bits of its upper half to the top, where they are the remainder.
-/
theorem funnelshiftR_ne_zero (hs : s < 32) :
    funnelshiftR 0#32 (x.setWidth 32) s ≠ 0#32 ↔ x.toNat % 2 ^ s ≠ 0 := by
  have hpow : 2 ^ 32 = 2 ^ s * 2 ^ (32 - s) := by rw [← Nat.pow_add, Nat.add_sub_cancel' hs.le]
  have hdvd : 2 ^ s ∣ 2 ^ 32 := Dvd.intro _ hpow.symm
  -- what is shifted out of the lower half is zero
  have hval : (funnelshiftR 0#32 (x.setWidth 32) s).toNat = x.toNat % 2 ^ s * 2 ^ (32 - s) := by
    unfold funnelshiftR
    rw [Nat.mod_eq_of_lt hs, BitVec.toNat_setWidth, BitVec.toNat_ushiftRight, BitVec.toNat_append,
      BitVec.toNat_setWidth, Nat.shiftRight_eq_div_pow, Nat.shiftLeft_eq]
    show (x.toNat % 2 ^ 32 * 2 ^ 32 ||| 0) / 2 ^ s % 2 ^ 32 = _
    calc (x.toNat % 2 ^ 32 * 2 ^ 32 ||| 0) / 2 ^ s % 2 ^ 32
        = x.toNat % 2 ^ 32 * 2 ^ 32 / 2 ^ s % 2 ^ 32 := by rw [Nat.or_zero]
      _ = x.toNat % 2 ^ 32 * 2 ^ (32 - s) % 2 ^ 32 := by
        rw [hpow, mul_left_comm, Nat.mul_div_cancel_left _ (Nat.two_pow_pos s)]
      _ = x.toNat % 2 ^ 32 % 2 ^ s * 2 ^ (32 - s) := by
        conv_lhs => rw [hpow, Nat.mul_mod_mul_right]
        rw [← hpow]
      _ = x.toNat % 2 ^ s * 2 ^ (32 - s) := by rw [Nat.mod_mod_of_dvd _ hdvd]
  rw [ne_eq, ← BitVec.toNat_inj, hval]
  show ¬ x.toNat % 2 ^ s * 2 ^ (32 - s) = 0 ↔ _
  rw [Nat.mul_eq_zero, or_iff_left (Nat.two_pow_pos _).ne']

/-- The rounded quotient is not larger than the dividend, so it fits in 64 bits. -/
theorem ceilDiv_lt : x.toNat ⌈/⌉ 2 ^ s < 2 ^ 64 := by
  have hle : x.toNat ⌈/⌉ 2 ^ s ≤ x.toNat := by
    rw [ceilDiv_le_iff_le_mul (Nat.two_pow_pos s)]
    exact Nat.le_mul_of_pos_left _ (Nat.two_pow_pos s)
  exact hle.trans_lt x.isLt

/-- The 64-bit function rounds up. -/
theorem toNat_divCeilAlignedPow2 (hs : s < 64) :
    (divCeilAlignedPow2 x s).toNat = x.toNat ⌈/⌉ 2 ^ s := by
  have hlt := ceilDiv_lt (x := x) (s := s)
  rw [ceilDiv_eq (Nat.two_pow_pos s)] at hlt ⊢
  unfold divCeilAlignedPow2
  dsimp only
  rw [ushiftRight_and_not hs, BitVec.toNat_add, BitVec.toNat_ushiftRight,
    Nat.shiftRight_eq_div_pow]
  simp only [and_pred_ne_zero hs]
  split_ifs at hlt ⊢ <;> exact Nat.mod_eq_of_lt hlt

/-- The 32-bit function rounds up, and keeps the low 32 bits of the result. -/
theorem toNat_divCeilAlignedPow2Bits32 (hs : s < 32) :
    (divCeilAlignedPow2Bits32 x s).toNat = x.toNat ⌈/⌉ 2 ^ s % 2 ^ 32 := by
  rw [ceilDiv_eq (Nat.two_pow_pos s)]
  unfold divCeilAlignedPow2Bits32
  rw [BitVec.toNat_add, BitVec.toNat_setWidth, BitVec.toNat_ushiftRight,
    Nat.shiftRight_eq_div_pow]
  simp only [funnelshiftR_ne_zero hs]
  split_ifs <;> exact Nat.mod_add_mod _ _ _

/-- **Rounding up in 32 bits and in 64.** For every dividend and every shift for which the result
fits in 32 bits, both functions return the quotient rounded up. -/
theorem divCeil_agree (x : BitVec 64) {s : ℕ} (hs : s ≤ 31) (hfit : x.toNat ⌈/⌉ 2 ^ s < 2 ^ 32) :
    (divCeilAlignedPow2Bits32 x s).toNat = (divCeilAlignedPow2 x s).toNat ∧
      (divCeilAlignedPow2 x s).toNat = x.toNat ⌈/⌉ 2 ^ s := by
  have hceil := toNat_divCeilAlignedPow2 (x := x) (hs.trans_lt (by decide))
  refine ⟨?_, hceil⟩
  rw [toNat_divCeilAlignedPow2Bits32 (Nat.lt_succ_of_le hs), hceil, Nat.mod_eq_of_lt hfit]

/-- One byte more than four chunks is five chunks. -/
theorem divCeil_agree_five :
    (divCeilAlignedPow2Bits32 0x100000001#64 30).toNat =
        (divCeilAlignedPow2 0x100000001#64 30).toNat ∧
      (divCeilAlignedPow2 0x100000001#64 30).toNat = (0x100000001#64).toNat ⌈/⌉ 2 ^ 30 :=
  divCeil_agree _ (by decide) (by decide)

end Gpunetio
