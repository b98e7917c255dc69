import Gpunetio.Counter
import Gpunetio.Door.Dispatch

/-!
# One-sided operations

The one-sided, get and counter operations reserve slots, write WQEs from there on, mark them ready
and submit the index after the last one. An operation is taken as a whole here, as one thread (or
one warp) runs it when no other works on its QPs; the wait for free slots, which only moves the
consumer index of the CQ, is left out.

* `Plan`: what an operation does to a QP; `putThread`, …, `getWarp`: the operations; `OneSidedOp`;
* `QpMem`, `QpMem.post`: reserving, writing and marking; `QpMem.post_spec`: what they leave;
* `World`, `DevOp`, `DevOp.run`: an operation on the QPs of a device.
-/

namespace Gpunetio

/-- `__funnelshift_r`. -/
def funnelshiftR (lo hi : BitVec 32) (shift : ℕ) : BitVec 32 :=
  ((hi ++ lo) >>> (shift % 32)).setWidth 32

/-- `doca_gpu_dev_verbs_div_ceil_aligned_pow2_32bits`. -/
def divCeilAlignedPow2Bits32 (x : BitVec 64) (denominatorShift : ℕ) : BitVec 32 :=
  (x >>> denominatorShift).setWidth 32 +
    if funnelshiftR 0#32 (x.setWidth 32) denominatorShift ≠ 0#32 then 1#32 else 0#32

/-- `num_chunks` of the one-sided operations. -/
def numChunks32 (size : BitVec 64) : ℕ :=
  max (divCeilAlignedPow2Bits32 size maxTransferSizeShift).toNat 1

/-- `DOCA_GPUNETIO_VERBS_WARP_SIZE`. -/
def warpSize : ℕ := 32

/-- What an operation does to a QP: the slots it reserves, the WQEs it writes from the first of them
on, and the `code_opt` it submits with. -/
structure Plan where
  count : ℕ
  wqes : QpConst → ℕ → List Wqe
  codeOpt : BitVec 32

/-- The write of a chunk of a put. -/
def writeChunk (qp : QpConst) (raddr laddr : VerbsAddr) (wqeIdx i : ℕ) (bytes : BitVec 32) : Wqe :=
  wqePrepareWrite qp wqeIdx opcodeRdmaWrite ctrlCqUpdate 0#32 (raddr.chunk i) (laddr.chunk i) bytes

/-- The read of a chunk of a get. -/
def readChunk (qp : QpConst) (raddr laddr : VerbsAddr) (wqeIdx i : ℕ) (bytes : BitVec 32) : Wqe :=
  wqePrepareRead qp wqeIdx ctrlCqUpdate (raddr.chunk i) (laddr.chunk i) bytes

/-- `doca_gpu_dev_verbs_put_thread`. -/
def putThread (raddr laddr : VerbsAddr) (size : BitVec 64) (codeOpt : BitVec 32) : Plan where
  count := numChunks32 size
  wqes := fun qp base =>
    chunkWqes qp (writeChunk qp raddr laddr) base (numChunks32 size) 0 size.toNat
  codeOpt := codeOpt

/-- `doca_gpu_dev_verbs_put_warp`; each lane has arguments of its own. -/
def putWarp (raddr laddr : ℕ → VerbsAddr) (size : ℕ → BitVec 64) (codeOpt : BitVec 32) : Plan where
  count := warpSize
  wqes := fun qp base => (List.range warpSize).map fun lane =>
    wqePrepareWrite qp (base + lane) opcodeRdmaWrite ctrlCqUpdate 0#32 (raddr lane) (laddr lane)
      ((size lane).setWidth 32)
  codeOpt := codeOpt

/-- `doca_gpu_dev_verbs_p_thread`. -/
def pThread (raddr : VerbsAddr) (value : List (BitVec 8)) (codeOpt : BitVec 32) : Plan where
  count := 1
  wqes := fun qp base => [prepareInlRdmaWriteWqe qp base ctrlCqUpdate raddr value]
  codeOpt := codeOpt

/-- `doca_gpu_dev_verbs_put_signal_thread`. -/
def putSignalThread (raddr laddr : VerbsAddr) (size : BitVec 64) (sigRaddr sigLaddr : VerbsAddr)
    (sigVal : BitVec 64) (codeOpt : BitVec 32) : Plan where
  count := numChunks32 size + 1
  wqes := fun qp base =>
    chunkWqes qp (writeChunk qp raddr laddr) base (numChunks32 size) 0 size.toNat ++
      [faWqe qp (base + numChunks32 size) sigRaddr sigLaddr sigVal]
  codeOpt := codeOpt

/-- `doca_gpu_dev_verbs_p_signal`. -/
def pSignal (raddr : VerbsAddr) (value : List (BitVec 8)) (sigRaddr sigLaddr : VerbsAddr)
    (sigVal : BitVec 64) (codeOpt : BitVec 32) : Plan where
  count := 2
  wqes := fun qp base =>
    [prepareInlRdmaWriteWqe qp base ctrlCqUpdate raddr value,
     faWqe qp (base + 1) sigRaddr sigLaddr sigVal]
  codeOpt := codeOpt

/-- `doca_gpu_dev_verbs_signal_thread`. -/
def signalThread (sigRaddr sigLaddr : VerbsAddr) (sigVal : BitVec 64) (codeOpt : BitVec 32) :
    Plan where
  count := 1
  wqes := fun qp base => [faWqe qp base sigRaddr sigLaddr sigVal]
  codeOpt := codeOpt

/-- The dump after a get, if `mcst_mode` is enabled. -/
def dumpWqes (qp : QpConst) (wqeIdx : ℕ) : Option VerbsAddr → List Wqe
  | some daddr => [wqePrepareDump qp wqeIdx ctrlCqUpdate daddr 1#32]
  | none => []

/-- `doca_gpu_dev_verbs_get_thread`; `mcst` is `daddr` if `mcst_mode` is enabled. -/
def getThread (raddr laddr : VerbsAddr) (size : BitVec 64) (mcst : Option VerbsAddr)
    (codeOpt : BitVec 32) : Plan where
  count := if mcst.isSome then numChunks32 size + 1 else numChunks32 size
  wqes := fun qp base =>
    chunkWqes qp (readChunk qp raddr laddr) base (numChunks32 size) 0 size.toNat ++
      dumpWqes qp (base + numChunks32 size) mcst
  codeOpt := codeOpt

/-- `doca_gpu_dev_verbs_get_warp`: with a dump it submits without passing `code_opt` on. -/
def getWarp (raddr laddr : ℕ → VerbsAddr) (size : ℕ → BitVec 64) (mcst : Option VerbsAddr)
    (codeOpt : BitVec 32) : Plan where
  count := if mcst.isSome then warpSize + 1 else warpSize
  wqes := fun qp base =>
    ((List.range warpSize).map fun lane =>
      wqePrepareRead qp (base + lane) ctrlCqUpdate (raddr lane) (laddr lane)
        ((size lane).setWidth 32)) ++
      dumpWqes qp (base + warpSize) mcst
  codeOpt := if mcst.isSome then 0#32 else codeOpt

/-- The one-sided and get operations in thread and in warp scope. -/
inductive OneSidedOp
  | putThread (raddr laddr : VerbsAddr) (size : BitVec 64)
  | putWarp (raddr laddr : ℕ → VerbsAddr) (size : ℕ → BitVec 64)
  | pThread (raddr : VerbsAddr) (value : List (BitVec 8))
  | pWarp
  | putSignalThread (raddr laddr : VerbsAddr) (size : BitVec 64) (sigRaddr sigLaddr : VerbsAddr)
      (sigVal : BitVec 64)
  | putSignalWarp
  | pSignal (raddr : VerbsAddr) (value : List (BitVec 8)) (sigRaddr sigLaddr : VerbsAddr)
      (sigVal : BitVec 64)
  | signalThread (sigRaddr sigLaddr : VerbsAddr) (sigVal : BitVec 64)
  | signalWarp
  | getThread (raddr laddr : VerbsAddr) (size : BitVec 64) (mcst : Option VerbsAddr)
  | getWarp (raddr laddr : ℕ → VerbsAddr) (size : ℕ → BitVec 64) (mcst : Option VerbsAddr)

/-- What the operation does, if anything: `p_warp`, `put_signal_warp` and `signal_warp` do nothing,
and the other warp operations need `__CUDA_ARCH__ >= 800`. -/
def OneSidedOp.plan (cudaArch : ℕ) (codeOpt : BitVec 32) : OneSidedOp → Option Plan
  | putThread raddr laddr size => some (Gpunetio.putThread raddr laddr size codeOpt)
  | putWarp raddr laddr size =>
    if 800 ≤ cudaArch then some (Gpunetio.putWarp raddr laddr size codeOpt) else none
  | pThread raddr value => some (Gpunetio.pThread raddr value codeOpt)
  | pWarp => none
  | putSignalThread raddr laddr size sigRaddr sigLaddr sigVal =>
    some (Gpunetio.putSignalThread raddr laddr size sigRaddr sigLaddr sigVal codeOpt)
  | putSignalWarp => none
  | pSignal raddr value sigRaddr sigLaddr sigVal =>
    some (Gpunetio.pSignal raddr value sigRaddr sigLaddr sigVal codeOpt)
  | signalThread sigRaddr sigLaddr sigVal =>
    some (Gpunetio.signalThread sigRaddr sigLaddr sigVal codeOpt)
  | signalWarp => none
  | getThread raddr laddr size mcst => some (Gpunetio.getThread raddr laddr size mcst codeOpt)
  | getWarp raddr laddr size mcst =>
    if 800 ≤ cudaArch then some (Gpunetio.getWarp raddr laddr size mcst codeOpt) else none

/-- What a counter operation does to its main QP. -/
def CounterOp.mainPlan (op : CounterOp) (codeOpt : BitVec 32) : Plan where
  count := op.mainCount
  wqes := fun qp base => op.mainWqes qp base
  codeOpt := codeOpt

/-- What a counter operation whose main WQEs begin at `base` does to its companion QP. -/
def CounterOp.companionPlan (op : CounterOp) (qp : QpConst) (args : CounterArgs) (base : ℕ)
    (codeOpt : BitVec 32) : Plan where
  count := 2
  wqes := fun companion companionBase => op.companionWqes qp companion args base companionBase
  codeOpt := codeOpt

/-- The indices of a QP and its WQ buffer by slot. -/
structure QpMem where
  sqRsvdIndex : ℕ
  sqReadyIndex : ℕ
  wq : ℕ → Option Wqe

namespace QpMem

/-- `doca_gpu_dev_verbs_reserve_wq_slots`; `count` is a 32-bit parameter. -/
def reserveWqSlots (count : ℕ) (m : QpMem) : QpMem :=
  { m with sqRsvdIndex := m.sqRsvdIndex + count % 2 ^ 32 }

/-- Stores of WQEs from index `base` on; the index is a 16-bit parameter of
`doca_gpu_dev_verbs_get_wqe_ptr`. -/
def store (sqWqeNum : ℕ) : List Wqe → ℕ → QpMem → QpMem
  | [], _, m => m
  | w :: ws, base, m =>
    store sqWqeNum ws (base + 1)
      { m with wq := Function.update m.wq (base % 2 ^ 16 &&& (sqWqeNum - 1)) (some w) }

/-- `doca_gpu_dev_verbs_mark_wqes_ready`, once all WQEs before are ready. -/
def markWqesReady (toWqeIdx : ℕ) (m : QpMem) : QpMem := { m with sqReadyIndex := toWqeIdx + 1 }

/-- The index after the last WQE written. -/
def finalIndex (plan : Plan) (qp : QpConst) (m : QpMem) : ℕ :=
  m.sqRsvdIndex + (plan.wqes qp m.sqRsvdIndex).length

/-- An operation up to its submission. -/
def post (plan : Plan) (qp : QpConst) (sqWqeNum : ℕ) (m : QpMem) : QpMem :=
  ((m.reserveWqSlots plan.count).store sqWqeNum (plan.wqes qp m.sqRsvdIndex)
    m.sqRsvdIndex).markWqesReady (m.finalIndex plan qp - 1)

theorem store_of_forall_ne {sqWqeNum : ℕ} {ws : List Wqe} {base slot : ℕ} {m : QpMem}
    (h : ∀ i < ws.length, slot ≠ (base + i) % 2 ^ 16 &&& (sqWqeNum - 1)) :
    (m.store sqWqeNum ws base).wq slot = m.wq slot := by
  induction ws generalizing base m with
  | nil => rfl
  | cons w ws ih =>
    rw [store, ih fun i hi => ?_]
    · exact Function.update_of_ne (h 0 (Nat.succ_pos _)) ..
    · rw [Nat.add_assoc, Nat.add_comm 1]
      exact h (i + 1) (Nat.succ_lt_succ hi)

theorem store_apply {a : ℕ} (ha : a ≤ 16) {ws : List Wqe} {base i : ℕ} {m : QpMem}
    (hlen : ws.length ≤ 2 ^ a) (hi : i < ws.length) :
    (m.store (2 ^ a) ws base).wq ((base + i) % 2 ^ a) = ws[i]? := by
  have hslot : ∀ k, k % 2 ^ 16 &&& (2 ^ a - 1) = k % 2 ^ a := fun k => by
    rw [slot_eq_mod, Nat.mod_mod_of_dvd _ (Nat.pow_dvd_pow 2 ha)]
  induction ws generalizing base i m with
  | nil => cases hi
  | cons w ws ih =>
    rw [List.length_cons] at hlen hi
    cases i with
    | zero =>
      rw [store, store_of_forall_ne fun i hi' => ?_]
      · rw [hslot]
        exact Function.update_self ..
      · rw [hslot, Nat.add_zero]
        -- the slots of fewer than a lap of indices are different
        intro heq
        have h := Nat.sub_mod_eq_zero_of_mod_eq heq.symm
        rw [show base + 1 + i - base = i + 1 by omega, Nat.mod_eq_of_lt (by omega)] at h
        omega
    | succ i =>
      rw [store, ← Nat.add_assoc, Nat.add_right_comm, ih (by omega) (by omega)]
      rfl

/-- **What an operation leaves**: its WQEs in the slots of their indices, and all of them ready. -/
theorem post_spec {plan : Plan} {qp : QpConst} {a : ℕ} (ha : a ≤ 16) {m : QpMem}
    (hpos : 0 < (plan.wqes qp m.sqRsvdIndex).length)
    (hlen : (plan.wqes qp m.sqRsvdIndex).length ≤ 2 ^ a) :
    (m.post plan qp (2 ^ a)).sqReadyIndex = m.finalIndex plan qp ∧
      ∀ i < (plan.wqes qp m.sqRsvdIndex).length,
        (m.post plan qp (2 ^ a)).wq ((m.sqRsvdIndex + i) % 2 ^ a) =
          (plan.wqes qp m.sqRsvdIndex)[i]? := by
  constructor
  · rw [post, markWqesReady, finalIndex]
    exact Nat.sub_add_cancel (by omega)
  · exact fun i hi => store_apply ha hlen hi

end QpMem

/-- The constants of the QPs of a device. -/
structure DevEnv (Q : Type*) where
  qp : Q → QpConst
  nicHandler : Q → NicHandler
  sqWqeNum : Q → ℕ
  cudaArch : ℕ

/-- What submissions read of them; the doorbell word has no segment count. -/
def DevEnv.submitEnv {Q : Type*} (env : DevEnv Q) : QpEnv Q :=
  ⟨fun q => (env.qp q).qpnDs 0#32, env.nicHandler⟩

/-- The QPs of a device: what posting works on, and what submitting works on. -/
structure World (Q : Type*) where
  mem : Q → QpMem
  door : Q → Door

/-- A call of an operation; the companion of a QP is another QP. -/
inductive DevOp (Q : Type*)
  | oneSided (qp : Q) (op : OneSidedOp)
  | counter (qp companion : Q) (op : CounterOp) (args : CounterArgs) (ne : qp ≠ companion)

namespace DevOp

variable {Q : Type*} [DecidableEq Q] (env : DevEnv Q) (mode : SharingMode)
  (nicHandler : NicHandler) (codeOpt : BitVec 32)

/-- The operation up to its submission. -/
def post (op : DevOp Q) (mem : Q → QpMem) : Q → QpMem :=
  match op with
  | oneSided q op =>
    match op.plan env.cudaArch codeOpt with
    | some plan => Function.update mem q ((mem q).post plan (env.qp q) (env.sqWqeNum q))
    | none => mem
  | counter q c op args _ =>
    let mem₁ := Function.update mem q
      ((mem q).post (op.mainPlan codeOpt) (env.qp q) (env.sqWqeNum q))
    Function.update mem₁ c
      ((mem₁ c).post (op.companionPlan (env.qp q) args (mem q).sqRsvdIndex codeOpt) (env.qp c)
        (env.sqWqeNum c))

/-- The indices the operation submits, with the QPs it submits them to. -/
def final (op : DevOp Q) (mem : Q → QpMem) : List (Q × ℕ) :=
  match op with
  | oneSided q op =>
    match op.plan env.cudaArch codeOpt with
    | some plan => [(q, (mem q).finalIndex plan (env.qp q))]
    | none => []
  | counter q c op args _ =>
    let mem₁ := Function.update mem q
      ((mem q).post (op.mainPlan codeOpt) (env.qp q) (env.sqWqeNum q))
    [(q, op.lastWqeIdx (mem q).sqRsvdIndex + 1),
     (c, (mem₁ c).finalIndex (op.companionPlan (env.qp q) args (mem q).sqRsvdIndex codeOpt)
        (env.qp c))]

/-- The submit function of the operation: `doca_gpu_dev_verbs_submit` for the one-sided, and
`doca_gpu_dev_verbs_submit_multi_qps` for the counter operations. -/
def submitAll (op : DevOp Q) (qps : List (Q × ℕ)) (doors : Q → Door) : Q → Door :=
  match op with
  | oneSided _ _ => submitEach env.submitEnv mode nicHandler codeOpt qps doors
  | counter _ _ _ _ _ => submitMultiQps env.submitEnv mode nicHandler codeOpt qps doors

/-- The `code_opt` the operation submits with. -/
def submitOpt (op : DevOp Q) : BitVec 32 :=
  match op with
  | oneSided _ op => ((op.plan env.cudaArch codeOpt).map Plan.codeOpt).getD codeOpt
  | counter _ _ _ _ _ => codeOpt

/-- **An operation as a whole.** -/
def run (op : DevOp Q) (w : World Q) : World Q where
  mem := op.post env codeOpt w.mem
  door := op.submitAll env mode nicHandler (op.submitOpt env codeOpt)
    (op.final env codeOpt w.mem) w.door

end DevOp

end Gpunetio
