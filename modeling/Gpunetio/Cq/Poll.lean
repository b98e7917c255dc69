import Gpunetio.Word

/-!
# Polling a completion queue

The poll functions of the device code, cut at their two loads. Both load `cqe_ci`, may return on
it, then load the CQE in the slot of the index polled for and decide; `poll_cq_at` loops,
`poll_one_cq_at` does not. What a function does with the values it has loaded is a pure function
here; the systems built on this module say which state each load sees.

* `Cqe64`, `chunk`: a CQE and the word the older variant loads from it;
* `ownerMismatch`, `observedCompletion`: the completion test, for both values of `Arch`;
* `pollOneCi`, `pollOneCqe`: the two halves of `poll_one_cq_at`; `privPollOneCqAt` on one snapshot;
* `pollAtCi`, `pollAtCqe`: the two halves of one iteration of `poll_cq_at`; `privPollCqAt` on one
  snapshot, with the number of iterations bounded by fuel;
* **`observedCompletion_iff`**: the test in terms of the owner bit and the counter.
-/

namespace Gpunetio

/-- `doca_gpunetio_ib_mlx5_cqe64`, the last four bytes; `wqeCounter` is big-endian in memory. -/
structure Cqe64 where
  wqeCounter : BitVec 16
  signature : BitVec 8
  opOwn : BitVec 8
deriving DecidableEq, Repr

/-- The variants selected by `__CUDA_ARCH__ >= 900`. -/
inductive Arch
  | preSm90
  | sm90
deriving DecidableEq, Repr

/-- `EBUSY`. -/
def eBusy : ℤ := 16

/-- `EIO`. -/
def eIo : ℤ := 5

/-- `DOCA_GPUNETIO_IB_MLX5_CQE_OWNER_MASK`. -/
def ownerMask : BitVec 8 := 1#8

/-- `DOCA_GPUNETIO_IB_MLX5_CQE_REQ_ERR`. -/
def cqeReqErr : BitVec 8 := 13#8

/-- `DOCA_GPUNETIO_IB_MLX5_CQE_INVALID`. -/
def cqeInvalid : BitVec 8 := 15#8

/-- `opown >> DOCA_GPUNETIO_VERBS_MLX5_CQE_OPCODE_SHIFT`. -/
def opcode (opown : BitVec 8) : BitVec 8 := opown >>> 4

/-- The constant fields of `doca_gpu_dev_verbs_cq` that polling reads. -/
structure CqAttr where
  cqeNum : ℕ
  cqeRsvd : ℕ
deriving DecidableEq, Repr

namespace Cqe64

/-- The 32-bit load from `&cqe64->wqe_counter`. -/
def chunk (e : Cqe64) : BitVec 32 := e.opOwn ++ e.signature ++ bswap16 e.wqeCounter

/-- The owner bit. -/
def owner (e : Cqe64) : Bool := e.opOwn &&& ownerMask != 0#8

end Cqe64

/-- The byte each variant calls `opown`. -/
def loadOpown (arch : Arch) (e : Cqe64) : BitVec 8 :=
  match arch with
  | .sm90 => e.opOwn
  | .preSm90 => (bswap32 e.chunk &&& 0xff#32).setWidth 8

/-- The older variant's `wqe_counter`. -/
def loadCounter (e : Cqe64) : BitVec 16 := (bswap32 e.chunk >>> 16).setWidth 16

/-- `(opown & OWNER_MASK) ^ !!(cons_index_in_cq & cqe_num)`. -/
def ownerMismatch (opown : BitVec 8) (consIndexInCq cqeNum : ℕ) : Bool :=
  (opown &&& ownerMask) ^^^ (if consIndexInCq &&& cqeNum ≠ 0 then 1#8 else 0#8) != 0#8

/-- `cons_index_in_cq`: the running index of the CQE, over all sessions of the CQ. -/
def consIndexInCq (cq : CqAttr) (consIndex : ℕ) : ℕ := consIndex + cq.cqeRsvd

/-- `observed_completion`. -/
def observedCompletion (arch : Arch) (cq : CqAttr) (consIndex : ℕ) (e : Cqe64) : Bool :=
  match arch with
  | .sm90 => !ownerMismatch (loadOpown arch e) (consIndexInCq cq consIndex) cq.cqeNum
  | .preSm90 => !ownerMismatch (loadOpown arch e) (consIndexInCq cq consIndex) cq.cqeNum &&
      loadCounter e == BitVec.ofNat 16 consIndex

/-- `(opcode == REQ_ERR) * -EIO`. -/
def cqeStatus (opown : BitVec 8) : ℤ := if opcode opown = cqeReqErr then -eIo else 0

/-- `idx`, the slot of an index. -/
def cqIdx (cq : CqAttr) (consIndex : ℕ) : ℕ := consIndexInCq cq consIndex &&& (cq.cqeNum - 1)

/-! ## `poll_one_cq_at` -/

/-- The slot `doca_priv_gpu_dev_verbs_poll_one_cq_at` reads: its byte offset is a 32-bit product. -/
def pollOneSlot (cq : CqAttr) (consIndex : ℕ) : ℕ := cqIdx cq consIndex * 64 % 2 ^ 32 / 64

/-- The value it returns on `cqe_ci` alone, if it does. -/
def pollOneCi (cq : CqAttr) (consIndex cqeCi : ℕ) : Option ℤ :=
  if consIndex < cqeCi then some 0
  else if cqeCi + cq.cqeNum ≤ consIndex then some eBusy
  else none

/-- The value it returns on the CQE. -/
def pollOneCqe (arch : Arch) (cq : CqAttr) (consIndex : ℕ) (e : Cqe64) : ℤ :=
  if !observedCompletion arch cq consIndex e then eBusy else cqeStatus (loadOpown arch e)

/-- `doca_priv_gpu_dev_verbs_poll_one_cq_at` on one snapshot of the queue. -/
def privPollOneCqAt (arch : Arch) (cq : CqAttr) (consIndex cqeCi : ℕ) (ring : ℕ → Cqe64) : ℤ :=
  (pollOneCi cq consIndex cqeCi).getD
    (pollOneCqe arch cq consIndex (ring (pollOneSlot cq consIndex)))

/-! ## `poll_cq_at` -/

/-- The value `doca_priv_gpu_dev_verbs_poll_cq_at` returns on `cqe_ci` alone, if it does. -/
def pollAtCi (consIndex cqeCi : ℕ) : Option ℤ := if consIndex < cqeCi then some 0 else none

/-- The value it returns on the CQE, if it leaves the loop. -/
def pollAtCqe (arch : Arch) (cq : CqAttr) (consIndex cqeCi : ℕ) (e : Cqe64) : Option ℤ :=
  if cqeCi + cq.cqeNum ≤ consIndex ∨
      (cqeCi ≤ consIndex ∧ observedCompletion arch cq consIndex e = false) then none
  else some (cqeStatus (loadOpown arch e))

/-- One iteration on one snapshot of the queue. -/
def pollAtIter (arch : Arch) (cq : CqAttr) (consIndex cqeCi : ℕ) (ring : ℕ → Cqe64) : Option ℤ :=
  (pollAtCi consIndex cqeCi).or (pollAtCqe arch cq consIndex cqeCi (ring (cqIdx cq consIndex)))

/-- `doca_priv_gpu_dev_verbs_poll_cq_at` on one snapshot of the queue, for `fuel` iterations. -/
def privPollCqAt (arch : Arch) (cq : CqAttr) (consIndex cqeCi : ℕ) (ring : ℕ → Cqe64) :
    ℕ → Option ℤ
  | 0 => none
  | fuel + 1 =>
    match pollAtIter arch cq consIndex cqeCi ring with
    | some st => some st
    | none => privPollCqAt arch cq consIndex cqeCi ring fuel

/-- `doca_gpu_dev_verbs_poll_one_cq_at` and `doca_gpu_dev_verbs_poll_cq_at` once their private part
has returned: the new `cqe_ci`. -/
def pollDone (consIndex cqeCi : ℕ) (status : ℤ) : ℕ :=
  if status = 0 then max cqeCi (consIndex + 1) else cqeCi

/-! ## What the tests say -/

theorem bswap32_chunk (e : Cqe64) : bswap32 e.chunk = e.wqeCounter ++ (e.signature ++ e.opOwn) := by
  apply BitVec.eq_of_getLsbD_eq
  intro i hi
  simp only [bswap32, bswap16, Cqe64.chunk, BitVec.getLsbD_append, BitVec.getLsbD_extractLsb']
  interval_cases i <;> rfl

@[simp] theorem loadOpown_eq (arch : Arch) (e : Cqe64) : loadOpown arch e = e.opOwn := by
  cases arch
  · rw [loadOpown, bswap32_chunk]
    apply BitVec.eq_of_getLsbD_eq
    intro i hi
    simp only [BitVec.getLsbD_setWidth, BitVec.getLsbD_and, BitVec.getLsbD_append]
    interval_cases i <;> simp
  · rfl

@[simp] theorem loadCounter_eq (e : Cqe64) : loadCounter e = e.wqeCounter := by
  rw [loadCounter, bswap32_chunk]
  apply BitVec.eq_of_getLsbD_eq
  intro i hi
  simp only [BitVec.getLsbD_setWidth, BitVec.getLsbD_ushiftRight, BitVec.getLsbD_append]
  simp [hi]

theorem ownerMismatch_eq (opown : BitVec 8) (k b : ℕ) :
    ownerMismatch opown k (2 ^ b) =
      ((opown &&& ownerMask != 0#8) != decide (k / 2 ^ b % 2 = 1)) := by
  have hbit : opown &&& ownerMask = 0#8 ∨ opown &&& ownerMask = 1#8 := by
    revert opown
    decide
  unfold ownerMismatch
  rw [if_congr (lapMask_ne_zero k b) rfl rfl]
  by_cases hk : k / 2 ^ b % 2 = 1 <;> rcases hbit with h | h <;> simp [h, hk]

/-- **The completion test.** -/
theorem observedCompletion_iff (arch : Arch) {cq : CqAttr} {b : ℕ} (hb : cq.cqeNum = 2 ^ b)
    (k : ℕ) (e : Cqe64) :
    observedCompletion arch cq k e = true ↔
      e.owner = decide ((k + cq.cqeRsvd) / cq.cqeNum % 2 = 1) ∧
        (arch = .preSm90 → e.wqeCounter = BitVec.ofNat 16 k) := by
  cases arch <;>
    simp [observedCompletion, consIndexInCq, hb, ownerMismatch_eq, Cqe64.owner]

theorem cqIdx_eq {cq : CqAttr} {b : ℕ} (hb : cq.cqeNum = 2 ^ b) (k : ℕ) :
    cqIdx cq k = (k + cq.cqeRsvd) % cq.cqeNum := by
  rw [cqIdx, consIndexInCq, hb, slot_eq_mod]

/-- The 32-bit product does not wrap on a ring of less than 4 GiB. -/
theorem pollOneSlot_eq {cq : CqAttr} {b : ℕ} (hb : cq.cqeNum = 2 ^ b)
    (hfit : cq.cqeNum * 64 ≤ 2 ^ 32) (k : ℕ) : pollOneSlot cq k = (k + cq.cqeRsvd) % cq.cqeNum := by
  have hlt : cqIdx cq k < cq.cqeNum := by
    rw [cqIdx_eq hb]
    exact Nat.mod_lt _ (hb ▸ Nat.two_pow_pos b)
  rw [pollOneSlot, Nat.mod_eq_of_lt (by omega), Nat.mul_div_cancel _ (by decide), cqIdx_eq hb]

/-- The loop on an unchanging queue leaves in its first iteration or never. -/
theorem privPollCqAt_succ (arch : Arch) (cq : CqAttr) (k cqeCi : ℕ) (ring : ℕ → Cqe64) (fuel : ℕ) :
    privPollCqAt arch cq k cqeCi ring (fuel + 1) = pollAtIter arch cq k cqeCi ring := by
  induction fuel with
  | zero =>
    rw [privPollCqAt]
    cases pollAtIter arch cq k cqeCi ring <;> rfl
  | succ fuel ih =>
    rw [privPollCqAt, ih]
    cases pollAtIter arch cq k cqeCi ring <;> rfl

end Gpunetio
