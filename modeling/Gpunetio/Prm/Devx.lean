import Gpunetio.Lib.BitField
import Gpunetio.Proxy.Model

/-!
# DEVX messages

The host writes commands for the device's firmware as arrays of big-endian words, with macros that
take a member of a structure of bits, and reads the answers with their counterparts. `DEVX_SET` is
for members within a word of 32 bits, `DEVX_SET64` for members that are words of 64 bits, and
`memcpy` for members that are arrays of bytes.

* `devxSet`, `devxSet64`, `devxGet`, `memcpy`, `memcpyFrom`: the accesses;
* **`bits_devxSet`**, `bits_devxSet64`, `toNat_devxGet`: what they are in bits;
* `DevxOp`, `exec`: the statements that make a command;
* **`bits_exec`**: where each is of the kind its member is meant for, they are writes by name.
-/

namespace Gpunetio.Prm

open BitField

/-- `__devx_mask`. -/
def devxMask (bitSz : ℕ) : BitVec 32 := ((1#64 <<< bitSz) - 1#64).setWidth 32

/-- `__devx_dw_bit_off`. -/
def devxDwBitOff (bitSz bitOff : ℕ) : ℕ := 32 - bitSz - bitOff % 32

/-- `__devx_dw_mask`. -/
def devxDwMask (bitSz bitOff : ℕ) : BitVec 32 := devxMask bitSz <<< devxDwBitOff bitSz bitOff

/-- `_devx_set`, for the structure at `p`. On a little-endian host `be32toh` is `htobe32`. -/
def devxSet (p : ℕ) (value : BitVec 32) (bitOff bitSz : ℕ) (m : ByteMem) : ByteMem :=
  let fld := p + 4 * (bitOff / 32)
  m.store fld (htobe32 (htobe32 (m.load 32 fld) &&& ~~~devxDwMask bitSz bitOff |||
    (value &&& devxMask bitSz) <<< devxDwBitOff bitSz bitOff))

/-- `_devx_get`. -/
def devxGet (p bitOff bitSz : ℕ) (m : ByteMem) : BitVec 32 :=
  htobe32 (m.load 32 (p + 4 * (bitOff / 32))) >>> devxDwBitOff bitSz bitOff &&& devxMask bitSz

/-- `_devx_set64`; `htobe64` of a little-endian host is `bswap64`. -/
def devxSet64 (p : ℕ) (v : BitVec 64) (bitOff : ℕ) (m : ByteMem) : ByteMem :=
  m.store (p + 8 * (bitOff / 64)) (bswap64 v)

/-- `memcpy` of bytes, that are given as one number in the order of the network. -/
def memcpy {w : ℕ} (p : ℕ) (src : BitVec w) (m : ByteMem) : ByteMem := m.storeBe p src

/-- `memcpy` out of a message. -/
def memcpyFrom (w p : ℕ) (m : ByteMem) : BitVec w := BitVec.ofNat w (Field.get ⟨8 * p, w⟩ m.bits)

/-! ## The accesses in bits -/

theorem getLsbD_bswap32 (x : BitVec 32) {i : ℕ} (hi : i < 32) :
    (bswap32 x).getLsbD i = x.getLsbD (24 - 8 * (i / 8) + i % 8) := by
  simp only [bswap32, BitVec.getLsbD_append, BitVec.getLsbD_extractLsb']
  interval_cases i <;> rfl

theorem getLsbD_bswap64 (x : BitVec 64) {i : ℕ} (hi : i < 64) :
    (bswap64 x).getLsbD i = x.getLsbD (56 - 8 * (i / 8) + i % 8) := by
  unfold bswap64
  rw [BitVec.getLsbD_append]
  by_cases h : i < 32
  · have hbit : 24 - 8 * (i / 8) + i % 8 < 32 := by omega
    have hpos : 32 + (24 - 8 * (i / 8) + i % 8) = 56 - 8 * (i / 8) + i % 8 := by omega
    rw [if_pos h, getLsbD_bswap32 _ h, BitVec.getLsbD_extractLsb', decide_eq_true hbit,
      Bool.true_and, hpos]
  · have hlow : i - 32 < 32 := by omega
    have hbit : 24 - 8 * ((i - 32) / 8) + (i - 32) % 8 < 32 := by omega
    have hpos : 24 - 8 * ((i - 32) / 8) + (i - 32) % 8 = 56 - 8 * (i / 8) + i % 8 := by omega
    rw [if_neg h, getLsbD_bswap32 _ hlow, BitVec.getLsbD_extractLsb', decide_eq_true hbit,
      Bool.true_and, Nat.zero_add, hpos]

theorem store_htobe32 (p : ℕ) (x : BitVec 32) (m : ByteMem) :
    m.store p (htobe32 x) = m.storeBe p x := by
  funext a
  unfold ByteMem.store ByteMem.storeBe
  split
  · rename_i ha
    apply BitVec.eq_of_getLsbD_eq
    intro i hi
    have hbit : 8 * (a - p) + i < 32 := by omega
    have hpos : 24 - 8 * ((8 * (a - p) + i) / 8) + (8 * (a - p) + i) % 8 =
        32 - 8 - 8 * (a - p) + i := by omega
    rw [BitVec.getLsbD_extractLsb', BitVec.getLsbD_extractLsb', htobe32_eq, getLsbD_bswap32 _ hbit,
      hpos]
  · rfl

theorem store_bswap64 (p : ℕ) (x : BitVec 64) (m : ByteMem) :
    m.store p (bswap64 x) = m.storeBe p x := by
  funext a
  unfold ByteMem.store ByteMem.storeBe
  split
  · rename_i ha
    apply BitVec.eq_of_getLsbD_eq
    intro i hi
    have hbit : 8 * (a - p) + i < 64 := by omega
    have hpos : 56 - 8 * ((8 * (a - p) + i) / 8) + (8 * (a - p) + i) % 8 =
        64 - 8 - 8 * (a - p) + i := by omega
    rw [BitVec.getLsbD_extractLsb', BitVec.getLsbD_extractLsb', getLsbD_bswap64 _ hbit, hpos]
  · rfl

/-- A word that the host has loaded, bit by bit. -/
theorem getLsbD_load (m : ByteMem) (p : ℕ) {i : ℕ} (hi : i < 32) :
    (htobe32 (m.load 32 p)).getLsbD i = m.bits (8 * p + 31 - i) := by
  have hbit : 24 - 8 * (i / 8) + i % 8 < 32 := by omega
  have hbyte : (24 - 8 * (i / 8) + i % 8) / 8 = (8 * p + 31 - i) / 8 - p := by omega
  have hpos : (24 - 8 * (i / 8) + i % 8) % 8 = 7 - (8 * p + 31 - i) % 8 := by omega
  have haddr : p + ((8 * p + 31 - i) / 8 - p) = (8 * p + 31 - i) / 8 := by omega
  rw [htobe32_eq, getLsbD_bswap32 _ hi, ByteMem.getLsbD_load hbit, hbyte, hpos, haddr]
  rfl

theorem getLsbD_devxMask {bitSz : ℕ} (h : bitSz ≤ 32) (i : ℕ) :
    (devxMask bitSz).getLsbD i = decide (i < bitSz) := by
  have hmask : devxMask bitSz = BitVec.ofNat 32 (2 ^ bitSz - 1) := by
    unfold devxMask
    apply BitVec.eq_of_toNat_eq
    have hlt : 2 ^ bitSz < 2 ^ 64 := Nat.pow_lt_pow_right (by decide) (by omega)
    have hpos : 0 < 2 ^ bitSz := Nat.two_pow_pos bitSz
    have hshift : (1#64 <<< bitSz).toNat = 2 ^ bitSz := by
      rw [BitVec.toNat_shiftLeft, Nat.shiftLeft_eq]
      simpa using hlt
    have hsub : (1#64 <<< bitSz - 1#64).toNat = 2 ^ bitSz - 1 := by
      rw [BitVec.toNat_sub_of_le (by rw [BitVec.le_def, hshift]; exact hpos), hshift]
      rfl
    rw [BitVec.toNat_setWidth, hsub, BitVec.toNat_ofNat]
  rw [hmask, BitVec.getLsbD_ofNat, Nat.testBit_two_pow_sub_one]
  by_cases hi : i < bitSz
  · rw [decide_eq_true hi, decide_eq_true (by omega)]
    rfl
  · rw [decide_eq_false hi, Bool.and_false]

/-- **`DEVX_SET`** writes a member that is within a word. -/
theorem bits_devxSet {bitOff bitSz : ℕ} (h : bitOff % 32 + bitSz ≤ 32) (p : ℕ) (v : BitVec 32)
    (m : ByteMem) :
    (devxSet p v bitOff bitSz m).bits = Field.put ⟨8 * p + bitOff, bitSz⟩ v.toNat m.bits := by
  unfold devxSet
  dsimp only
  rw [store_htobe32, ByteMem.bits_storeBe (by decide)]
  funext k
  by_cases hw : Field.Has ⟨8 * (p + 4 * (bitOff / 32)), 32⟩ k
  · obtain ⟨hlo, hhi⟩ := id hw
    dsimp only at hlo hhi
    rw [Field.put_of_has hw, BitVec.testBit_toNat]
    dsimp only
    have hk : 8 * (p + 4 * (bitOff / 32)) + 32 - 1 - k < 32 := by omega
    have hpos : 8 * (p + 4 * (bitOff / 32)) + 31 -
        (8 * (p + 4 * (bitOff / 32)) + 32 - 1 - k) = k := by omega
    rw [BitVec.getLsbD_or, BitVec.getLsbD_and, BitVec.getLsbD_not, getLsbD_load m _ hk, hpos,
      devxDwMask, BitVec.getLsbD_shiftLeft, BitVec.getLsbD_shiftLeft, BitVec.getLsbD_and,
      getLsbD_devxMask (by omega), decide_eq_true hk]
    unfold devxDwBitOff
    by_cases hf : Field.Has ⟨8 * p + bitOff, bitSz⟩ k
    · obtain ⟨hlo', hhi'⟩ := id hf
      dsimp only at hlo' hhi'
      rw [Field.put_of_has hf, BitVec.testBit_toNat]
      dsimp only
      have hge : ¬ 8 * (p + 4 * (bitOff / 32)) + 32 - 1 - k < 32 - bitSz - bitOff % 32 := by omega
      have hin : 8 * (p + 4 * (bitOff / 32)) + 32 - 1 - k - (32 - bitSz - bitOff % 32) =
          8 * p + bitOff + bitSz - 1 - k := by omega
      have hsz : 8 * p + bitOff + bitSz - 1 - k < bitSz := by omega
      rw [hin, decide_eq_false hge, decide_eq_true hsz]
      simp
    · have hout : 8 * (p + 4 * (bitOff / 32)) + 32 - 1 - k < 32 - bitSz - bitOff % 32 ∨
          ¬ 8 * (p + 4 * (bitOff / 32)) + 32 - 1 - k - (32 - bitSz - bitOff % 32) < bitSz := by
        unfold Field.Has at hf
        dsimp only at hf
        omega
      rw [Field.put_of_not_has hf]
      obtain hlow | hhigh := hout
      · rw [decide_eq_true hlow]
        simp
      · rw [decide_eq_false hhigh]
        simp
  · have hf : ¬ Field.Has ⟨8 * p + bitOff, bitSz⟩ k := by
      unfold Field.Has at hw ⊢
      dsimp only at hw ⊢
      omega
    rw [Field.put_of_not_has hw, Field.put_of_not_has hf]

/-- `DEVX_SET64` writes all of the 64 bits around the member's first one. -/
theorem bits_devxSet64 (p : ℕ) (v : BitVec 64) (bitOff : ℕ) (m : ByteMem) :
    (devxSet64 p v bitOff m).bits =
      Field.put ⟨8 * p + 64 * (bitOff / 64), 64⟩ v.toNat m.bits := by
  have hoff : 8 * (p + 8 * (bitOff / 64)) = 8 * p + 64 * (bitOff / 64) := by omega
  rw [devxSet64, store_bswap64, ByteMem.bits_storeBe (by decide), hoff]

/-- **`DEVX_GET`** reads a member that is within a word. -/
theorem toNat_devxGet {bitOff bitSz : ℕ} (h : bitOff % 32 + bitSz ≤ 32) (p : ℕ) (m : ByteMem) :
    (devxGet p bitOff bitSz m).toNat = Field.get ⟨8 * p + bitOff, bitSz⟩ m.bits := by
  apply Nat.eq_of_testBit_eq
  intro j
  unfold devxGet devxDwBitOff
  rw [Field.testBit_get, BitVec.testBit_toNat, BitVec.getLsbD_and, getLsbD_devxMask (by omega),
    BitVec.getLsbD_ushiftRight]
  dsimp only
  by_cases hj : j < bitSz
  · have hpos : 8 * (p + 4 * (bitOff / 32)) + 31 - (32 - bitSz - bitOff % 32 + j) =
        8 * p + bitOff + bitSz - 1 - j := by omega
    rw [getLsbD_load m _ (by omega), hpos, Bool.and_comm]
  · rw [decide_eq_false hj, Bool.and_false, Bool.false_and]

/-! ## Commands -/

/-- A statement that writes a command. Members are at their places in the command: the contexts
begin at whole words of 64 bits, so the macros find the same words from there. -/
inductive DevxOp (N : Type)
  | set (n : N) (v : BitVec 32)
  | set64 (n : N) (v : BitVec 64)
  | memcpy (n : N) (w : ℕ) (src : BitVec w)
  | cond (c : Bool) (op : DevxOp N)

namespace DevxOp

variable {N : Type} [DecidableEq N] (F : Format N)

/-- What a statement does. -/
def apply : DevxOp N → ByteMem → ByteMem
  | set n v, m => devxSet 0 v (F.field n).off (F.field n).sz m
  | set64 n v, m => devxSet64 0 v (F.field n).off m
  | memcpy n _ src, m => Prm.memcpy ((F.field n).off / 8) src m
  | cond c op, m => if c then op.apply m else m

/-- The macro is of the kind that the member is meant for. -/
def proper : DevxOp N → Bool
  | set n _ => (F.field n).off % 32 + (F.field n).sz ≤ 32
  | set64 n _ => (F.field n).off % 64 == 0 && (F.field n).sz == 64
  | memcpy n w _ => (F.field n).off % 8 == 0 && (F.field n).sz == w && w % 8 == 0
  | cond _ op => op.proper

/-- The statement as a write by name. -/
def write : DevxOp N → Write N
  | set n v => ⟨true, n, v.toNat⟩
  | set64 n v => ⟨true, n, v.toNat⟩
  | memcpy n _ src => ⟨true, n, src.toNat⟩
  | cond c op => { op.write with guard := op.write.guard && c }

variable {F}

omit [DecidableEq N] in
theorem bits_apply {op : DevxOp N} (h : op.proper F = true) (m : ByteMem) :
    (op.apply F m).bits = F.write op.write m.bits := by
  induction op with
  | set n v =>
    show (devxSet 0 v _ _ m).bits = Field.put (F.field n) v.toNat m.bits
    rw [bits_devxSet (of_decide_eq_true h), Nat.mul_zero, Nat.zero_add]
  | set64 n v =>
    obtain ⟨hoff, hsz⟩ := Bool.and_eq_true_iff.1 h
    rw [beq_iff_eq] at hoff hsz
    show (devxSet64 0 v _ m).bits = Field.put (F.field n) v.toNat m.bits
    have hbase : 8 * 0 + 64 * ((F.field n).off / 64) = (F.field n).off := by omega
    have hfield : (⟨(F.field n).off, 64⟩ : Field) = F.field n := by rw [← hsz]
    rw [bits_devxSet64, hbase, hfield]
  | memcpy n w src =>
    obtain ⟨h, hw⟩ := Bool.and_eq_true_iff.1 h
    obtain ⟨hoff, hsz⟩ := Bool.and_eq_true_iff.1 h
    rw [beq_iff_eq] at hoff hsz hw
    subst hsz
    show (ByteMem.storeBe _ src m).bits = Field.put (F.field n) src.toNat m.bits
    have hbase : 8 * ((F.field n).off / 8) = (F.field n).off := by omega
    rw [ByteMem.bits_storeBe (Nat.dvd_of_mod_eq_zero hw), hbase]
  | cond c op ih =>
    have hwrite : F.write (cond c op).write m.bits =
        if c then F.write op.write m.bits else m.bits := by
      cases c <;> simp [Format.write, write]
    rw [hwrite]
    cases c with
    | false => rfl
    | true => exact ih h

variable (F)

/-- Statements, one after the other. -/
def exec (ops : List (DevxOp N)) (m : ByteMem) : ByteMem := ops.foldl (fun m op => op.apply F m) m

variable {F}

omit [DecidableEq N] in
/-- **A command** is the message of its writes. -/
theorem bits_exec {ops : List (DevxOp N)} (h : ops.all (proper F) = true) (m : ByteMem) :
    (exec F ops m).bits = F.run (ops.map write) m.bits := by
  induction ops generalizing m with
  | nil => rfl
  | cons op ops ih =>
    obtain ⟨hop, hops⟩ := Bool.and_eq_true_iff.1 h
    have hexec : exec F (op :: ops) m = exec F ops (op.apply F m) := rfl
    rw [hexec, ih hops, bits_apply hop]
    rfl

end DevxOp

end Gpunetio.Prm
