import Mathlib.Data.Nat.Bitwise
import Mathlib.Data.Nat.Notation
import Mathlib.Tactic.IntervalCases

/-!
# Device words

The big-endian words the device code stores for the NIC, as the bit vectors they are in memory on
a little-endian GPU. Indices are 64-bit counters in the source; they start at zero, grow by one for
each work request and are natural numbers here. Every narrower use of an index is truncated where
the source truncates it.

* `bswap32`, `bswap16`, `bswap64`;
* `prepareDbr`, `dbrIndex`: the doorbell record and the index the NIC reads from it;
* `prepareDb`, `dbIndex`: the doorbell word and the index the NIC reads from it;
* `slot_eq_mod`, `lapMask_ne_zero`: masking an index by a power of two.
-/

namespace Gpunetio

/-- `doca_gpu_dev_verbs_bswap32`. -/
def bswap32 (x : BitVec 32) : BitVec 32 :=
  x.extractLsb' 0 8 ++ x.extractLsb' 8 8 ++ x.extractLsb' 16 8 ++ x.extractLsb' 24 8

/-- `doca_gpu_dev_verbs_bswap16`. -/
def bswap16 (x : BitVec 16) : BitVec 16 := x.extractLsb' 0 8 ++ x.extractLsb' 8 8

/-- `doca_gpu_dev_verbs_bswap64`. -/
def bswap64 (x : BitVec 64) : BitVec 64 :=
  bswap32 (x.extractLsb' 0 32) ++ bswap32 (x.extractLsb' 32 32)

@[simp] theorem bswap32_bswap32 (x : BitVec 32) : bswap32 (bswap32 x) = x := by
  apply BitVec.eq_of_getLsbD_eq
  intro i hi
  simp only [bswap32, BitVec.getLsbD_append, BitVec.getLsbD_extractLsb']
  interval_cases i <;> rfl

@[simp] theorem bswap64_bswap64 (x : BitVec 64) : bswap64 (bswap64 x) = x := by
  have h : bswap64 (bswap64 x) = x.extractLsb' 32 32 ++ x.extractLsb' 0 32 := by
    unfold bswap64
    rw [BitVec.extractLsb'_append_eq_right, BitVec.extractLsb'_append_eq_left, bswap32_bswap32,
      bswap32_bswap32]
  rw [h]
  exact BitVec.extractLsb'_append_extractLsb'

/-- `doca_gpu_dev_verbs_prepare_dbr`: `HTOBE32(prod_index & 0xffff)`. -/
def prepareDbr (prodIndex : ℕ) : BitVec 32 := bswap32 (BitVec.ofNat 32 prodIndex &&& 0xffff#32)

/-- `doca_gpu_dev_common_prepare_db`: the first eight bytes of a control segment, `qpn_ds` above
`opmod_idx_opcode`. -/
def prepareDb (qpnDs : BitVec 32) (prodIndex : ℕ) : BitVec 64 :=
  qpnDs ++ bswap32 (BitVec.ofNat 32 (prodIndex <<< 8))

/-- The producer index in a doorbell record. -/
def dbrIndex (dbrec : BitVec 32) : ℕ := (bswap32 dbrec).toNat % 2 ^ 16

/-- The producer index in a doorbell word. -/
def dbIndex (db : BitVec 64) : ℕ := (bswap32 (db.setWidth 32)).toNat / 2 ^ 8 % 2 ^ 16

theorem dbrIndex_prepareDbr (p : ℕ) : dbrIndex (prepareDbr p) = p % 2 ^ 16 := by
  have h : (BitVec.ofNat 32 p &&& 0xffff#32).toNat = p % 2 ^ 16 := by
    rw [BitVec.toNat_and, BitVec.toNat_ofNat, BitVec.toNat_ofNat]
    exact (Nat.and_two_pow_sub_one_eq_mod _ 16).trans (Nat.mod_mod_of_dvd p (by decide))
  rw [dbrIndex, prepareDbr, bswap32_bswap32, h, Nat.mod_mod]

theorem dbIndex_prepareDb (qpnDs : BitVec 32) (p : ℕ) :
    dbIndex (prepareDb qpnDs p) = p % 2 ^ 16 := by
  rw [dbIndex, prepareDb, BitVec.setWidth_append_eq_right, bswap32_bswap32, BitVec.toNat_ofNat,
    Nat.shiftLeft_eq]
  omega

/-- `idx & (num - 1)` is the slot of `idx` in a ring of `num = 2 ^ b` entries. -/
theorem slot_eq_mod (k b : ℕ) : k &&& (2 ^ b - 1) = k % 2 ^ b := Nat.and_two_pow_sub_one_eq_mod k b

/-- `!!(idx & num)` is the parity of the lap `idx` belongs to. -/
theorem lapMask_ne_zero (k b : ℕ) : k &&& 2 ^ b ≠ 0 ↔ k / 2 ^ b % 2 = 1 := by
  rw [Nat.and_two_pow, Nat.testBit_eq_decide_div_mod_eq]
  by_cases h : k / 2 ^ b % 2 = 1 <;> simp [h]

end Gpunetio
