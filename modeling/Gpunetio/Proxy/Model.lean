import Gpunetio.Door.Dispatch
import Gpunetio.Wqe

/-!
# The CPU proxy

The host rings the doorbell for the GPU: `doca_gpu_verbs_cpu_proxy_progress` reads an index that
device code publishes and, if it differs from the last one it saw, writes the doorbell and the
doorbell record. A progress call is a sequence of atomic steps, between which other agents run.

* `htobe32`, `proxyDb`, `proxyDbr`: the encodings of the host; `proxyDb_eq`, `proxyDbr_eq`;
* `DbrModeExt`, `ProxyOp`, `progressOps`: the stores of a call, by mode and handler;
* `ProxyMem`, `ProxyCall`, `proxyStep`: the memory of a call, and its next step;
* `progress`: a call from begin to end; **`progress_run`**: it is a run of `proxyStep`.
-/

namespace Gpunetio

open Relation

/-- `htobe32` of a little-endian host. -/
def htobe32 (x : BitVec 32) : BitVec 32 :=
  x <<< 24 ||| (x &&& 0xff00#32) <<< 8 ||| (x >>> 8 &&& 0xff00#32) ||| x >>> 24

/-- The host's byte swap is the device's permutation. -/
theorem htobe32_eq (x : BitVec 32) : htobe32 x = bswap32 x := by
  apply BitVec.eq_of_getLsbD_eq
  intro i hi
  simp only [htobe32, bswap32, BitVec.getLsbD_append, BitVec.getLsbD_extractLsb', BitVec.getLsbD_or,
    BitVec.getLsbD_and, BitVec.getLsbD_shiftLeft, BitVec.getLsbD_ushiftRight]
  interval_cases i <;> simp

/-- `tmp_db`: the host keeps 32 bits of the index it loads. -/
def tmpDb (index : ℕ) : BitVec 32 := BitVec.ofNat 32 index

/-- The doorbell word the host stores, from `sq_num_shift8_be` and the index it loaded. -/
def proxyDb (qpnDs : BitVec 32) (index : ℕ) : BitVec 64 := qpnDs ++ htobe32 (tmpDb index <<< 8)

/-- `dbr_val`. -/
def proxyDbr (index : ℕ) : BitVec 32 := htobe32 (tmpDb index &&& 0xffff#32)

/-- Truncating before the shift loses nothing that the doorbell word holds. -/
theorem proxyDb_eq (qpnDs : BitVec 32) (p : ℕ) : proxyDb qpnDs p = prepareDb qpnDs p := by
  have h : tmpDb p <<< 8 = BitVec.ofNat 32 (p <<< 8) := by
    apply BitVec.eq_of_toNat_eq
    rw [tmpDb, BitVec.toNat_shiftLeft, BitVec.toNat_ofNat, BitVec.toNat_ofNat, Nat.shiftLeft_eq,
      Nat.shiftLeft_eq, Nat.mod_mul_mod]
  rw [proxyDb, prepareDb, h, htobe32_eq]

theorem proxyDbr_eq (p : ℕ) : proxyDbr p = prepareDbr p := htobe32_eq _

/-- `sq_num_shift8_be`, as `doca_gpu_verbs_export_qp` computes it for the device and for the proxy.
-/
def QpConst.sqNumShift8Be (qp : QpConst) : BitVec 32 := htobe32 qp.sqNumShift8

theorem sqNumShift8Be_eq (qp : QpConst) : qp.sqNumShift8Be = qp.qpnDs 0#32 := by
  rw [QpConst.sqNumShift8Be, htobe32_eq, QpConst.qpnDs, BitVec.or_zero]

/-- `doca_gpu_verbs_send_dbr_mode_ext`. -/
inductive DbrModeExt
  | validDbr
  | noDbrHw
  | noDbrSwEmulated
deriving DecidableEq, Repr

/-- A store of a progress call. -/
inductive ProxyOp
  | ringDb
  | storeDbrec
  | setLast
deriving DecidableEq, Repr

/-- The stores of `priv_cpu_proxy_progress_full_assisted`. -/
def fullAssisted (mode : DbrModeExt) : List ProxyOp :=
  if mode ≠ .noDbrHw then [.ringDb, .storeDbrec, .ringDb, .setLast] else [.ringDb, .setLast]

/-- The stores of `priv_cpu_proxy_progress_dbr_assisted`. -/
def dbrAssisted : List ProxyOp := [.storeDbrec, .ringDb, .setLast]

/-- The stores of `doca_gpu_verbs_cpu_proxy_progress`, for the QP's mode and handler. -/
def progressOps (mode : DbrModeExt) (nicHandler : NicHandler) : List ProxyOp :=
  if mode = .noDbrSwEmulated ∧ nicHandler ≠ .cpuProxy then dbrAssisted else fullAssisted mode

/-- A store to the doorbell register or to the doorbell record: the index the call loaded, and the
word it stored. -/
inductive ProxyWrite
  | db (index : ℕ) (value : BitVec 64)
  | dbr (index : ℕ) (value : BitVec 32)
deriving DecidableEq, Repr

/-- The index written to the doorbell register, if it is written. -/
def ProxyWrite.doorbell : ProxyWrite → Option ℕ
  | db p _ => some p
  | dbr _ _ => none

/-- The index written to the doorbell record, if it is written. -/
def ProxyWrite.record : ProxyWrite → Option ℕ
  | db _ _ => none
  | dbr p _ => some p

/-- The index written. -/
def ProxyWrite.index : ProxyWrite → ℕ
  | db p _ => p
  | dbr p _ => p

/-- The word is the one device code writes for the index. -/
def ProxyWrite.Direct (qpnDs : BitVec 32) : ProxyWrite → Prop
  | db p value => value = prepareDb qpnDs p
  | dbr p value => value = prepareDbr p

/-- The memory a progress call works on: the word `cpu_db` points to, `sq_wqe_pi_last`, the doorbell
register and the doorbell record; `trace` is newest first. -/
structure ProxyMem where
  cpuDb : ℕ
  sqWqePiLast : ℕ
  sqDb : BitVec 64
  sqDbrec : BitVec 32
  trace : List ProxyWrite

/-- A call under way: it has loaded `index` and not compared it yet, or has stores to do. -/
inductive ProxyCall
  | loaded (index : ℕ)
  | storing (index : ℕ) (todo : List ProxyOp)
deriving DecidableEq, Repr

namespace ProxyMem

/-- The indices written to the doorbell register, newest first. -/
def doorbells (m : ProxyMem) : List ℕ := m.trace.filterMap ProxyWrite.doorbell

/-- The indices written to the doorbell record, newest first. -/
def records (m : ProxyMem) : List ℕ := m.trace.filterMap ProxyWrite.record

/-- The last index rung, zero at first. -/
def rung (m : ProxyMem) : ℕ := m.doorbells.head?.getD 0

/-- `tmp_db != qp->sq_wqe_pi_last`: the comparison is one of 64 bits. -/
def behind (m : ProxyMem) (index : ℕ) : Bool := (tmpDb index).toNat ≠ m.sqWqePiLast

/-- One store. -/
def exec (qpnDs : BitVec 32) (index : ℕ) (m : ProxyMem) : ProxyOp → ProxyMem
  | .ringDb =>
    { m with sqDb := proxyDb qpnDs index, trace := .db index (proxyDb qpnDs index) :: m.trace }
  | .storeDbrec =>
    { m with sqDbrec := proxyDbr index, trace := .dbr index (proxyDbr index) :: m.trace }
  | .setLast => { m with sqWqePiLast := (tmpDb index).toNat }

variable (qpnDs : BitVec 32) (ops : List ProxyOp) (m : ProxyMem)

/-- The body of the two progress functions. -/
def progressWith : ProxyMem :=
  if m.behind m.cpuDb then ops.foldl (exec qpnDs m.cpuDb) m else m

/-- **`doca_gpu_verbs_cpu_proxy_progress`** of a QP with `cpu_proxy`, run alone, and what it reports
in `out_progressed`. -/
def progress (mode : DbrModeExt) (nicHandler : NicHandler) : ProxyMem × Bool :=
  if mode = .noDbrSwEmulated ∧ nicHandler ≠ .cpuProxy then (m.progressWith qpnDs dbrAssisted, false)
  else (m.progressWith qpnDs (fullAssisted mode), m.behind m.cpuDb)

/-- **The next step of the proxy**: it loads the index, compares, does a store, or returns. -/
def proxyStep : Option ProxyCall → ProxyMem × Option ProxyCall
  | none => (m, some (.loaded m.cpuDb))
  | some (.loaded v) => (m, if m.behind v then some (.storing v ops) else none)
  | some (.storing v (op :: todo)) => (m.exec qpnDs v op, some (.storing v todo))
  | some (.storing _ []) => (m, none)

variable {qpnDs ops m} {v : ℕ} {op : ProxyOp}

@[simp] theorem exec_cpuDb : (m.exec qpnDs v op).cpuDb = m.cpuDb := by cases op <;> rfl

theorem foldl_exec_cpuDb : (ops.foldl (exec qpnDs v) m).cpuDb = m.cpuDb := by
  induction ops generalizing m with
  | nil => rfl
  | cons op ops ih => exact ih.trans exec_cpuDb

@[simp] theorem progressWith_cpuDb : (m.progressWith qpnDs ops).cpuDb = m.cpuDb := by
  unfold progressWith
  split
  · exact foldl_exec_cpuDb
  · rfl

theorem progress_fst {mode : DbrModeExt} {nicHandler : NicHandler} :
    (m.progress qpnDs mode nicHandler).1 = m.progressWith qpnDs (progressOps mode nicHandler) := by
  unfold progress progressOps
  split <;> rfl

/-- The step relation of the proxy alone. -/
def Alone (qpnDs : BitVec 32) (ops : List ProxyOp) (s s' : ProxyMem × Option ProxyCall) : Prop :=
  s' = s.1.proxyStep qpnDs ops s.2

theorem storing_run (todo : List ProxyOp) :
    ReflTransGen (Alone qpnDs ops) (m, some (.storing v todo))
      (todo.foldl (exec qpnDs v) m, none) := by
  induction todo generalizing m with
  | nil => exact .single rfl
  | cons op todo ih => exact .head rfl ih

variable (qpnDs m) in
/-- **A call from begin to end is a run of its steps.** -/
theorem progress_run (mode : DbrModeExt) (nicHandler : NicHandler) :
    ReflTransGen (Alone qpnDs (progressOps mode nicHandler)) (m, none)
      ((m.progress qpnDs mode nicHandler).1, none) := by
  rw [progress_fst, progressWith]
  set ops := progressOps mode nicHandler
  have hload : Alone qpnDs ops (m, none) (m, some (.loaded m.cpuDb)) := rfl
  refine .head hload ?_
  by_cases hb : m.behind m.cpuDb
  · have hcmp : Alone qpnDs ops (m, some (.loaded m.cpuDb)) (m, some (.storing m.cpuDb ops)) := by
      rw [Alone, proxyStep, if_pos hb]
    rw [if_pos hb]
    exact .head hcmp (storing_run ops)
  · have hcmp : Alone qpnDs ops (m, some (.loaded m.cpuDb)) (m, none) := by
      rw [Alone, proxyStep, if_neg hb]
    rw [if_neg hb]
    exact .single hcmp

end ProxyMem

end Gpunetio
