import Gpunetio.Cq.Session
import Gpunetio.Host.Create
import Gpunetio.OneSided

/-!
# Reserving slots

Before an operation writes its WQEs it waits until the slot of the last of them is free: for the
WQE one lap before it, by the number of slots in the exported structure. Nothing compares this
number, or the 16 bits that are left of it, with the number of slots an operation reserves.

* `Operation.reservations`: what each operation reserves, and on which QP;
* `reserveWait`: the index `doca_gpu_dev_verbs_reserve_wq_slots` waits for;
* `NeverSelf`: it is an index before the reservation, and a thread alone gets past the wait;
* **`neverSelf_iff`**: so it is if there are at least as many slots as are reserved.
-/

namespace Gpunetio

open Transition

/-! ## The operations -/

/-- The slots that an operation reserves on a QP, or on its companion, and the `code_opt` that it
passes on. -/
structure Reservation where
  companion : Bool
  count : BitVec 32
  codeOpt : BitVec 32
deriving DecidableEq, Repr

/-- The operations that reserve slots; `mcst` is `doca_gpu_dev_verbs_mcst`. -/
inductive Operation
  | oneSided (op : OneSidedOp)
  | counter (op : CounterOp)
  | mcst

/-- `DOCA_GPUNETIO_VERBS_GPU_CODE_OPT_DEFAULT`. -/
def codeOptDefault : BitVec 32 := 0#32

/-- The reservations of an operation; the number of slots is a 32-bit parameter. -/
def Operation.reservations (cudaArch : ℕ) (codeOpt : BitVec 32) : Operation → List Reservation
  | oneSided op =>
    ((op.plan cudaArch codeOpt).map fun plan => ⟨false, BitVec.ofNat 32 plan.count, codeOpt⟩).toList
  | counter op => [⟨false, BitVec.ofNat 32 op.mainCount, codeOpt⟩, ⟨true, 2#32, codeOpt⟩]
  -- it has no `code_opt` to pass on
  | mcst => [⟨false, 1#32, codeOptDefault⟩]

/-! ## The wait -/

/-- `DOCA_GPUNETIO_VERBS_GPU_CODE_OPT_SKIP_AVAILABILITY_CHECK`. -/
def skipAvailabilityCheck (codeOpt : BitVec 32) : Bool := codeOpt &&& 1#32 <<< 1 ≠ 0#32

/-- `doca_gpu_dev_verbs_wait_until_slot_available`: the index it polls the CQ for, if it does. -/
def waitUntilSlotAvailable (sqWqeNum : BitVec 16) (wqeIdx : BitVec 64) : Option (BitVec 64) :=
  let nwqes := sqWqeNum.setWidth 64
  if nwqes ≤ wqeIdx then some (wqeIdx - nwqes) else none

/-- `doca_gpu_dev_verbs_reserve_wq_slots`, of slots from `base` on: the index it waits for. -/
def reserveWait (codeOpt : BitVec 32) (sqWqeNum : BitVec 16) (base : BitVec 64)
    (count : BitVec 32) : Option (BitVec 64) :=
  if skipAvailabilityCheck codeOpt then none
  else waitUntilSlotAvailable sqWqeNum (base + count.setWidth 64 - 1)

/-- The depth of a queue pair as `doca_gpu_verbs_export_qp` hands it to the device. -/
def exportedDepth (depth : ℕ) : BitVec 16 := BitVec.ofNat 16 depth

/-- A reservation of `count` slots from `base` on waits for an index before `base` only; and once
the WQEs before `base` have completed, and no others, a poll for it reports. -/
structure NeverSelf (codeOpt : BitVec 32) (depth : ℕ) (base : BitVec 64) (count : BitVec 32) :
    Prop where
  before : ∀ idx, reserveWait codeOpt (exportedDepth depth) base count = some idx → idx < base
  past : ∀ idx, reserveWait codeOpt (exportedDepth depth) base count = some idx →
    ∀ (arch : Arch) (n : ℕ) (cq : CqState), CqGeom n → cq.Inv n → cq.produced = base.toNat →
      (pollAtIter arch ⟨n, 0⟩ idx.toNat cq.cqeCi cq.ring).isSome

/-- The check is skipped, or as many slots are left of the depth as are reserved; none at all must
not be reserved at the very first index, and an index that wraps around is no longer compared. -/
def Fits (codeOpt : BitVec 32) (depth : ℕ) (base : BitVec 64) (count : BitVec 32) : Prop :=
  skipAvailabilityCheck codeOpt = true ∨
    (count.toNat ≤ depth % 2 ^ 16 ∧ 0 < base.toNat + count.toNat) ∨
      2 ^ 64 < base.toNat + count.toNat

/-- The depth a queue pair was created with, in the structure that is exported. -/
theorem exportRings_sqWqeNum (qp : HighLevel.VerbsQp) (cq : HighLevel.VerbsCq) :
    (HighLevel.exportRings qp cq).sqWqeNum = (exportedDepth qp.sqSizeWqebb).toNat :=
  (BitVec.toNat_ofNat _ 16).symm

section Wait

variable {codeOpt : BitVec 32} {depth : ℕ} {base : BitVec 64} {count : BitVec 32}

theorem toNat_exportedDepth (depth : ℕ) :
    ((exportedDepth depth).setWidth 64).toNat = depth % 2 ^ 16 := by
  have hlt : depth % 2 ^ 16 < 2 ^ 16 := Nat.mod_lt _ (Nat.two_pow_pos 16)
  rw [exportedDepth, BitVec.toNat_setWidth, BitVec.toNat_ofNat, Nat.mod_eq_of_lt (by omega)]

/-- `wqe_idx + count - 1`. -/
theorem toNat_last :
    (base + count.setWidth 64 - 1).toNat = (2 ^ 64 - 1 + (base.toNat + count.toNat)) % 2 ^ 64 := by
  have hcount := count.isLt
  have hwide : (count.setWidth 64).toNat = count.toNat := by
    rw [BitVec.toNat_setWidth, Nat.mod_eq_of_lt (by omega)]
  have hone : (1 : BitVec 64).toNat = 1 := rfl
  rw [BitVec.toNat_sub, BitVec.toNat_add, hwide, hone]
  omega

/-- The wait, with the index as a number. -/
theorem reserveWait_eq_some_iff {idx : BitVec 64} (hcheck : skipAvailabilityCheck codeOpt = false) :
    reserveWait codeOpt (exportedDepth depth) base count = some idx ↔
      idx.toNat + depth % 2 ^ 16 = (2 ^ 64 - 1 + (base.toNat + count.toNat)) % 2 ^ 64 := by
  have hidx := idx.isLt
  unfold reserveWait waitUntilSlotAvailable
  dsimp only
  rw [hcheck, if_neg Bool.false_ne_true]
  have hdepth := toNat_exportedDepth depth
  have hlast := @toNat_last base count
  rw [← hdepth, ← hlast]
  generalize base + count.setWidth 64 - 1 = last at *
  generalize (exportedDepth depth).setWidth 64 = nwqes at *
  constructor
  · intro h
    split at h
    · rename_i hle
      rw [← Option.some.inj h, BitVec.toNat_sub_of_le hle]
      exact Nat.sub_add_cancel hle
    · cases h
  · intro h
    have hle : nwqes ≤ last := BitVec.le_def.2 (by omega)
    rw [if_pos hle]
    apply congrArg some
    apply BitVec.eq_of_toNat_eq
    rw [BitVec.toNat_sub_of_le hle]
    omega

theorem reserveWait_of_skip (h : skipAvailabilityCheck codeOpt = true) :
    reserveWait codeOpt (exportedDepth depth) base count = none := if_pos h

/-- A poll for an index reports once it has completed: it is within the window, or behind it. -/
theorem isSome_pollAtIter {n k : ℕ} {cq : CqState} (hg : CqGeom n) (h : cq.Inv n)
    (hk : k < cq.produced) (arch : Arch) : (pollAtIter arch ⟨n, 0⟩ k cq.cqeCi cq.ring).isSome := by
  obtain hlt | hge := Nat.lt_or_ge k cq.cqeCi
  · have hci : pollAtCi k cq.cqeCi = some 0 := if_pos hlt
    unfold pollAtIter
    rw [hci]
    rfl
  · have hwindow := h.window
    rw [Session.pollAt_snapshot h hg hge, if_pos ⟨by omega, hk⟩]
    rfl

/-- The index waited for is before the reservation, exactly if the reservation fits. -/
theorem before_iff :
    (∀ idx, reserveWait codeOpt (exportedDepth depth) base count = some idx → idx < base) ↔
      Fits codeOpt depth base count := by
  have hcount := count.isLt
  have hbase := base.isLt
  have hmod : depth % 2 ^ 16 < 2 ^ 16 := Nat.mod_lt _ (Nat.two_pow_pos 16)
  unfold Fits
  cases hskip : skipAvailabilityCheck codeOpt with
  | true =>
    refine iff_of_true (fun idx h => ?_) (.inl rfl)
    rw [reserveWait_of_skip hskip] at h
    cases h
  | false =>
    constructor
    · intro h
      refine .inr ?_
      by_contra hfit
      -- the index one lap before the last is not before the first
      have hle : depth % 2 ^ 16 ≤ (2 ^ 64 - 1 + (base.toNat + count.toNat)) % 2 ^ 64 := by omega
      have hlt := h (BitVec.ofNat 64
        ((2 ^ 64 - 1 + (base.toNat + count.toNat)) % 2 ^ 64 - depth % 2 ^ 16))
        ((reserveWait_eq_some_iff hskip).2 (by rw [BitVec.toNat_ofNat]; omega))
      rw [BitVec.lt_def, BitVec.toNat_ofNat] at hlt
      omega
    · intro h idx hidx
      have heq := (reserveWait_eq_some_iff hskip).1 hidx
      rw [BitVec.lt_def]
      obtain h | ⟨hle, hpos⟩ | hwrap := h
      · cases h
      · omega
      · omega

theorem neverSelf_iff_fits :
    NeverSelf codeOpt depth base count ↔ Fits codeOpt depth base count := by
  rw [← before_iff]
  refine ⟨fun h => h.before, fun h => ⟨h, ?_⟩⟩
  intro idx hidx arch n cq hg hcq hproduced
  refine isSome_pollAtIter hg hcq ?_ arch
  rw [hproduced]
  exact h idx hidx

end Wait

/-- **An operation never waits for itself**, whatever the depths of its QPs and the indices it has
got to, exactly if each of its reservations fits into the 16 bits that are left of the depth. -/
theorem neverSelf_iff (op : Operation) (cudaArch : ℕ) (codeOpt : BitVec 32) (depth : Bool → ℕ)
    (base : Bool → BitVec 64) :
    (∀ r ∈ op.reservations cudaArch codeOpt,
        NeverSelf r.codeOpt (depth r.companion) (base r.companion) r.count) ↔
      ∀ r ∈ op.reservations cudaArch codeOpt,
        Fits r.codeOpt (depth r.companion) (base r.companion) r.count :=
  forall₂_congr fun _ _ => neverSelf_iff_fits

/-- A warp puts on a queue pair of 16 slots: it waits for its own WQE `15`. -/
theorem putWarp_waits_for_itself :
    ∃ r ∈ (Operation.oneSided (.putWarp (fun _ => ⟨0x1000#64, 1#32⟩)
        (fun _ => ⟨0x2000#64, 2#32⟩) fun _ => 8#64)).reservations 800 0#32,
      reserveWait r.codeOpt (exportedDepth 16) 0#64 r.count = some 15#64 ∧
        ¬ NeverSelf r.codeOpt 16 0#64 r.count := by
  refine ⟨⟨false, 32#32, 0#32⟩, by decide, by decide, fun h => ?_⟩
  exact absurd (h.before 15#64 (by decide)) (by decide)

/-- Of 65536 slots none is left, and a single WQE waits for itself. -/
example : reserveWait 0#32 (exportedDepth 65536) 7#64 1#32 = some 7#64 := by decide

end Gpunetio
