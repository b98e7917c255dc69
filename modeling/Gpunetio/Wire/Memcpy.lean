import Gpunetio.Ceil
import Gpunetio.Lib.Region
import Gpunetio.Lib.While
import Gpunetio.Wire.Decode

/-!
# Copying data of any alignment

`doca_gpu_dev_verbs_memcpy_data` copies with accesses of eight, four, two or one bytes, and chooses
the width anew in every iteration, from both pointers and from what remains. Pointers and counts are
64-bit words here, and a region may go over the end of the address space.

* `isaligned`, `CopyState`, `memcpyDataBody`: the loop; its variables are the two pointers and
  `remaining_bytes`, with the memory and a record of the accesses;
* `byteAddr`, `Copied`: the addresses of a region, and what a copy should do;
* `copiedSize_spec`, `CopyInv`, `CopyInv.copy`: the width of an access, and what it keeps;
* **`memcpyData_copies`**: the loop ends, and it copies;
* `memcpyData_eq`: the copy of the WQE encoders is this one.
-/

namespace Gpunetio.Memcpy

open ByteMem While

/-- `doca_gpu_dev_verbs_isaligned`. -/
def isaligned (ptr alignment : BitVec 64) : Bool := ptr &&& (alignment - 1#64) = 0#64

/-- A load from `src` and a store to `dst`, of as many bytes. -/
structure Access where
  dst : BitVec 64
  src : BitVec 64
  width : ℕ
deriving DecidableEq, Repr

/-- The variables of the loop, the memory and the accesses so far. -/
structure CopyState where
  dst : BitVec 64
  src : BitVec 64
  remainingBytes : BitVec 64
  mem : ByteMem
  accesses : List Access

namespace CopyState

/-- `copied_size`. -/
def copiedSize (s : CopyState) : ℕ :=
  if isaligned s.dst 8#64 && isaligned s.src 8#64 && 8#64 ≤ s.remainingBytes then 8
  else if isaligned s.dst 4#64 && isaligned s.src 4#64 && 4#64 ≤ s.remainingBytes then 4
  else if isaligned s.dst 2#64 && isaligned s.src 2#64 && 2#64 ≤ s.remainingBytes then 2
  else 1

/-- One access of `w` bytes, and the updates after it. -/
def copy (s : CopyState) (w : ℕ) : CopyState :=
  { dst := s.dst + BitVec.ofNat 64 w
    src := s.src + BitVec.ofNat 64 w
    remainingBytes := s.remainingBytes - BitVec.ofNat 64 w
    mem := s.mem.store s.dst.toNat (s.mem.load (8 * w) s.src.toNat)
    accesses := ⟨s.dst, s.src, w⟩ :: s.accesses }

end CopyState

/-- The body of the loop of **`doca_gpu_dev_verbs_memcpy_data`**. -/
def memcpyDataBody (s : CopyState) : Option CopyState :=
  if 0#64 < s.remainingBytes then some (s.copy s.copiedSize) else none

/-- The loop is entered. -/
def memcpyDataStart (dst src bytes : BitVec 64) (m : ByteMem) : CopyState :=
  ⟨dst, src, bytes, m, []⟩

/-! ## What it should do -/

/-- The address of byte `i` of the region at `p`. -/
def byteAddr (p : BitVec 64) (i : ℕ) : ℕ := (p + BitVec.ofNat 64 i).toNat

/-- Both addresses are multiples of the width. -/
def Access.Aligned (x : Access) : Prop := x.width ∣ x.dst.toNat ∧ x.width ∣ x.src.toNat

/-- The destination is what the source was, nothing else has changed, and all accesses are aligned.
-/
structure Copied (dst src : BitVec 64) (n : ℕ) (m : ByteMem) (t : CopyState) : Prop where
  copied : ∀ i < n, t.mem (byteAddr dst i) = m (byteAddr src i)
  frame : ∀ a, (∀ i < n, a ≠ byteAddr dst i) → t.mem a = m a
  aligned : ∀ x ∈ t.accesses, x.Aligned

/-! ## Addresses -/

variable {p dst src bytes : BitVec 64} {m : ByteMem} {s t : CopyState} {w k n : ℕ}

theorem byteAddr_add (j : ℕ) : byteAddr (p + BitVec.ofNat 64 k) j = byteAddr p (k + j) := by
  unfold byteAddr
  rw [BitVec.add_assoc, BitVec.ofNat_add]

theorem byteAddr_inj {i j : ℕ} (hi : i < 2 ^ 64) (hj : j < 2 ^ 64)
    (h : byteAddr p i = byteAddr p j) : i = j :=
  Region.offset_inj hi hj (BitVec.toNat_inj.1 h)

/-- An aligned access does not go over the end of the address space. -/
theorem byteAddr_of_dvd (hw : w ∣ 2 ^ 64) (hp : w ∣ p.toNat) {j : ℕ} (hj : j < w) :
    byteAddr p j = p.toNat + j := by
  have hfit : p.toNat + w ≤ 2 ^ 64 := by
    obtain ⟨a, ha⟩ := hp
    obtain ⟨b, hb⟩ := hw
    have hlt : w * a < w * b := ha ▸ hb ▸ p.isLt
    have hle := Nat.mul_le_mul_left w (Nat.succ_le_of_lt (Nat.lt_of_mul_lt_mul_left hlt))
    rwa [Nat.mul_succ, ← ha, ← hb] at hle
  unfold byteAddr
  rw [BitVec.toNat_add, BitVec.toNat_ofNat, Nat.mod_eq_of_lt (show j < 2 ^ 64 by omega),
    Nat.mod_eq_of_lt (by omega)]

/-! ## One iteration -/

theorem isaligned_iff (hk : k < 64) : isaligned p (1#64 <<< k) = true ↔ 2 ^ k ∣ p.toNat := by
  unfold isaligned
  rw [decide_eq_true_iff, Nat.dvd_iff_mod_eq_zero, ← not_iff_not]
  exact and_pred_ne_zero hk

/-- The width divides both pointers, and no more is copied than remains. -/
theorem copiedSize_spec (s : CopyState) (h : 0 < s.remainingBytes.toNat) :
    0 < s.copiedSize ∧ s.copiedSize ≤ s.remainingBytes.toNat ∧ s.copiedSize ∣ 2 ^ 64 ∧
      s.copiedSize ∣ s.dst.toNat ∧ s.copiedSize ∣ s.src.toNat := by
  -- each width that is tried is a power of two
  have htry : ∀ k < 64, (isaligned s.dst (1#64 <<< k) && isaligned s.src (1#64 <<< k) &&
      1#64 <<< k ≤ s.remainingBytes) = true → (1#64 <<< k).toNat = 2 ^ k →
      0 < 2 ^ k ∧ 2 ^ k ≤ s.remainingBytes.toNat ∧ 2 ^ k ∣ 2 ^ 64 ∧ 2 ^ k ∣ s.dst.toNat ∧
        2 ^ k ∣ s.src.toNat := by
    intro k hk hif hpow
    rw [Bool.and_eq_true, Bool.and_eq_true, isaligned_iff hk, isaligned_iff hk, decide_eq_true_iff,
      BitVec.le_def, hpow] at hif
    exact ⟨Nat.two_pow_pos k, hif.2, Nat.pow_dvd_pow 2 hk.le, hif.1⟩
  unfold CopyState.copiedSize
  split_ifs with h8 h4 h2
  · exact htry 3 (by decide) h8 rfl
  · exact htry 2 (by decide) h4 rfl
  · exact htry 1 (by decide) h2 rfl
  · exact ⟨Nat.one_pos, h, Nat.one_dvd _, Nat.one_dvd _, Nat.one_dvd _⟩

/-- One access copies the bytes of its region, and no others. -/
theorem copy_mem (hw : w ∣ 2 ^ 64) (hdst : w ∣ s.dst.toNat) (hsrc : w ∣ s.src.toNat) :
    (∀ j < w, (s.copy w).mem (byteAddr s.dst j) = s.mem (byteAddr s.src j)) ∧
      ∀ a, (∀ j < w, a ≠ byteAddr s.dst j) → (s.copy w).mem a = s.mem a := by
  have hdiv : 8 * w / 8 = w := Nat.mul_div_cancel_left _ (by decide)
  have hval : ∀ a, (s.copy w).mem a =
      if s.dst.toNat ≤ a ∧ a < s.dst.toNat + w then s.mem (s.src.toNat + (a - s.dst.toNat))
      else s.mem a := by
    intro a
    show s.mem.store s.dst.toNat (s.mem.load (8 * w) s.src.toNat) a = _
    rw [store_load (Nat.dvd_mul_right 8 w), hdiv]
  constructor
  · intro j hj
    rw [byteAddr_of_dvd hw hdst hj, byteAddr_of_dvd hw hsrc hj, hval, if_pos (by omega),
      Nat.add_sub_cancel_left]
  · intro a ha
    rw [hval, if_neg]
    rintro ⟨hlo, hhi⟩
    have hne := ha (a - s.dst.toNat) (by omega)
    rw [byteAddr_of_dvd hw hdst (by omega), Nat.add_sub_cancel' hlo] at hne
    exact hne rfl

/-! ## The loop -/

/-- After `k` bytes: the pointers have moved on, and the copy is right as far as it has come. -/
structure CopyInv (dst src bytes : BitVec 64) (m : ByteMem) (k : ℕ) (s : CopyState) : Prop where
  dstAt : s.dst = dst + BitVec.ofNat 64 k
  srcAt : s.src = src + BitVec.ofNat 64 k
  remaining : s.remainingBytes.toNat + k = bytes.toNat
  copied : Copied dst src k m s

theorem CopyInv.start : CopyInv dst src bytes m 0 (memcpyDataStart dst src bytes m) where
  dstAt := (BitVec.add_zero dst).symm
  srcAt := (BitVec.add_zero src).symm
  remaining := Nat.add_zero _
  copied := ⟨nofun, fun _ _ => rfl, nofun⟩

/-- **One iteration.** The bytes it reads have not been written before, since the regions do not
overlap. -/
theorem CopyInv.copy (hapart : Region.Apart ⟨dst, bytes.toNat⟩ ⟨src, bytes.toNat⟩)
    (h : CopyInv dst src bytes m k s) (hw : w ∣ 2 ^ 64) (hdst : w ∣ s.dst.toNat)
    (hsrc : w ∣ s.src.toNat) (hle : w ≤ s.remainingBytes.toNat) :
    CopyInv dst src bytes m (k + w) (s.copy w) := by
  obtain ⟨hd, hs, hrem, hcopied, hframe, haligned⟩ := h
  have hbytes := bytes.isLt
  obtain ⟨hnew, hold⟩ := copy_mem hw hdst hsrc
  simp only [hd, hs, byteAddr_add] at hnew hold
  refine ⟨?_, ?_, ?_, ?_, ?_, ?_⟩
  · show s.dst + _ = _
    rw [hd, BitVec.add_assoc, BitVec.ofNat_add]
  · show s.src + _ = _
    rw [hs, BitVec.add_assoc, BitVec.ofNat_add]
  · show (s.remainingBytes - BitVec.ofNat 64 w).toNat + (k + w) = _
    have hwlt : (BitVec.ofNat 64 w).toNat = w := by
      rw [BitVec.toNat_ofNat, Nat.mod_eq_of_lt (by omega)]
    rw [BitVec.toNat_sub_of_le (by rw [BitVec.le_def, hwlt]; exact hle), hwlt]
    omega
  · intro i hi
    obtain hlt | hge := Nat.lt_or_ge i k
    · have hother : ∀ j < w, byteAddr dst i ≠ byteAddr dst (k + j) := by
        intro j hj heq
        have := byteAddr_inj (by omega) (by omega) heq
        omega
      rw [hold _ hother, hcopied i hlt]
    · have hread : s.mem (byteAddr src i) = m (byteAddr src i) :=
        hframe _ fun j hj heq => hapart j (show j < bytes.toNat by omega) i
          (show i < bytes.toNat by omega) (BitVec.toNat_inj.1 heq.symm)
      have hcopy := hnew (i - k) (by omega)
      rwa [Nat.add_sub_cancel' hge, hread] at hcopy
  · intro a ha
    rw [hold a fun j hj => ha (k + j) (by omega), hframe a fun i hi => ha i (by omega)]
  · intro x hx
    obtain rfl | hx := List.mem_cons.1 hx
    · exact ⟨hdst, hsrc⟩
    · exact haligned x hx

theorem memcpyDataBody_some {s' : CopyState} (h : memcpyDataBody s = some s') :
    0 < s.remainingBytes.toNat ∧ s' = s.copy s.copiedSize := by
  obtain ⟨hpos, heq⟩ := Option.ite_none_right_eq_some.1 h
  exact ⟨hpos, (Option.some.inj heq).symm⟩

theorem memcpyDataBody_none (h : memcpyDataBody s = none) : s.remainingBytes.toNat = 0 := by
  by_contra hne
  have hpos : 0#64 < s.remainingBytes := Nat.pos_of_ne_zero hne
  rw [memcpyDataBody, if_pos hpos] at h
  cases h

/-- The loop ends, and has gone through all bytes. -/
theorem exists_copyInv (hapart : Region.Apart ⟨dst, bytes.toNat⟩ ⟨src, bytes.toNat⟩) :
    ∃ t, Ends memcpyDataBody (memcpyDataStart dst src bytes m) t ∧
      CopyInv dst src bytes m bytes.toNat t := by
  obtain ⟨t, ht, ⟨k, hinv⟩, hnone⟩ := total (I := fun s => ∃ k, CopyInv dst src bytes m k s)
    (fun s => s.remainingBytes.toNat) ⟨0, CopyInv.start⟩ fun s s' ⟨k, hinv⟩ hs => by
      obtain ⟨hpos, rfl⟩ := memcpyDataBody_some hs
      obtain ⟨hw, hle, hdvd, hdst, hsrc⟩ := copiedSize_spec s hpos
      have hinv' := hinv.copy hapart hdvd hdst hsrc hle
      have hrem := hinv.remaining
      have hrem' := hinv'.remaining
      exact ⟨⟨_, hinv'⟩, by omega⟩
  have hk : k = bytes.toNat := by
    have hrem := hinv.remaining
    rwa [memcpyDataBody_none hnone, Nat.zero_add] at hrem
  exact ⟨t, ht, hk ▸ hinv⟩

/-- **`doca_gpu_dev_verbs_memcpy_data`.** For regions of any address, any alignment and any length
that do not overlap, the loop ends; then the destination is what the source was, no other byte has
changed, and every access has been aligned on both sides. -/
theorem memcpyData_copies (dst src bytes : BitVec 64) (m : ByteMem)
    (hapart : Region.Apart ⟨dst, bytes.toNat⟩ ⟨src, bytes.toNat⟩) :
    ∃ t, Ends memcpyDataBody (memcpyDataStart dst src bytes m) t ∧
      Copied dst src bytes.toNat m t := by
  obtain ⟨t, ht, hinv⟩ := exists_copyInv (m := m) hapart
  exact ⟨t, ht, hinv.copied⟩

/-- Thirteen bytes, from an odd address to an even one. -/
theorem memcpyData_copies_thirteen :
    ∃ t, Ends memcpyDataBody
        (memcpyDataStart 0x1002#64 0x2001#64 13#64 fun a => BitVec.ofNat 8 a) t ∧
      Copied 0x1002#64 0x2001#64 13 (fun a => BitVec.ofNat 8 a) t :=
  memcpyData_copies _ _ _ _ (by unfold Region.Apart; decide)

/-- For regions within the address space it is the copy of the WQE encoders. -/
theorem memcpyData_eq (hapart : Region.Apart ⟨dst, bytes.toNat⟩ ⟨src, bytes.toNat⟩)
    (hdst : dst.toNat + bytes.toNat ≤ 2 ^ 64) (hsrc : src.toNat + bytes.toNat ≤ 2 ^ 64)
    (h : Ends memcpyDataBody (memcpyDataStart dst src bytes m) t) :
    t.mem = Wire.memcpyData m dst.toNat src.toNat bytes.toNat m := by
  obtain ⟨t', ht', hinv⟩ := exists_copyInv (m := m) hapart
  obtain rfl := h.unique ht'
  obtain ⟨hcopied, hframe, -⟩ := hinv.copied
  have haddr : ∀ p : BitVec 64, p.toNat + bytes.toNat ≤ 2 ^ 64 → ∀ i < bytes.toNat,
      byteAddr p i = p.toNat + i := by
    intro p hp i hi
    unfold byteAddr
    rw [BitVec.toNat_add, BitVec.toNat_ofNat, Nat.mod_eq_of_lt (show i < 2 ^ 64 by omega),
      Nat.mod_eq_of_lt (by omega)]
  funext a
  rw [Wire.memcpyData_apply]
  split_ifs with hin
  · have hbyte := hcopied (a - dst.toNat) (by omega)
    rwa [haddr dst hdst _ (by omega), haddr src hsrc _ (by omega), Nat.add_sub_cancel' hin.1]
      at hbyte
  · refine hframe a fun i hi heq => hin ?_
    rw [haddr dst hdst i hi] at heq
    omega

end Gpunetio.Memcpy
