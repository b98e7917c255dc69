import Gpunetio.Cq.Init
import Gpunetio.Host.Memory
import Gpunetio.Lib.Smear
import Gpunetio.Proxy.Model

/-!
# Creating a queue pair

`doca_gpu_verbs_create_qp_hl` and `doca_gpu_verbs_create_qp_group_hl`: the depth asked for is
rounded up, and from it six functions compute sizes in 16, 32 and 64 bits, of two buffers, of what
is registered of them, of what the NIC is told, and of what device code works with.

* `nextPowerOfTwo`, `nextPowerOfTwo_eq`;
* `createCq`, `sqSizes`, `createQp`, `exportQp`: the parts, for any outcome of the calls they make;
  `createQpHl`, `createQpGroupHl`: the functions, a failed call being `none`;
* `HlQp.Established`: what the protocol of the device assumes of an exported QP;
* `HlQp.Sized`, `createQpHl_sized`, `createQpGroupHl_sized`: what the checks leave of the sizes;
* **`HighLevel.created_established`**: every creation that succeeds establishes it.
-/

namespace Gpunetio

/-- `doca_internal_utils_next_power_of_two`. -/
def nextPowerOfTwo (x : ℕ) : ℕ :=
  let x := (x + (2 ^ 64 - 1)) % 2 ^ 64
  let x := x ||| x >>> 1
  let x := x ||| x >>> 2
  let x := x ||| x >>> 4
  let x := x ||| x >>> 8
  let x := x ||| x >>> 16
  let x := x ||| x >>> 32
  (x + 1) % 2 ^ 64

namespace HighLevel

/-- What the host and the device answer: `sysconf(_SC_PAGESIZE)`, and the capabilities `max_cqe`,
`max_sq_desc_size`, `max_send_wqebb` and `send_dbr_mode_no_dbr_ext`. -/
structure CreateEnv extends HostEnv where
  maxSqDescSize : ℕ
  maxSendWqebb : ℕ
  sendDbrModeNoDbrExt : Bool

/-- `doca_gpu_verbs_qp_init_attr_hl`, as far as a creation depends on it; `nullArg` says that one of
the pointers both functions check is null, `netDevNull` that `net_dev` is. -/
structure QpInitAttrHl where
  nullArg : Bool
  netDevNull : Bool
  sqNwqe : BitVec 16
  nicHandler : NicHandler
  sendDbrModeExt : DbrModeExt
  supportGdrcopy : Bool
  enableUmemCpu : Bool
deriving DecidableEq, Repr

/-- A registered buffer: its block and the size registered. Blocks are numbered in the order of
allocation, and begin where the buffer does. -/
structure Umem where
  block : ℕ
  size : ℕ
deriving DecidableEq, Repr

/-- An address in a block. -/
structure Addr where
  block : ℕ
  offset : ℕ
deriving DecidableEq, Repr

/-- `doca_verbs_cq_open`; `logCqSize` is the field of the command. -/
structure VerbsCq where
  numCqes : ℕ
  umem : Umem
  ciDbr : ℕ
  logCqSize : ℕ
deriving DecidableEq, Repr

/-- `doca_verbs_qp_open`; `logSqSize` is the field of the command. -/
structure VerbsQp where
  sqSizeWqebb : ℕ
  umem : Umem
  umemDbr : Umem
  logSqSize : ℕ
deriving DecidableEq, Repr

/-- `doca_gpu_dev_verbs_qp`: its rings. -/
structure DevQp where
  sqWqeNum : ℕ
  sqWqeMask : ℕ
  sqWqeDaddr : Addr
  cqeNum : ℕ
  cqeMask : ℕ
  cqeDaddr : Addr
  dbrec : Addr
deriving DecidableEq, Repr

/-- `doca_gpu_verbs_qp_hl`. -/
structure HlQp where
  cq : VerbsCq
  qp : VerbsQp
  gverbs : DevQp
deriving DecidableEq, Repr

/-- The outcomes of the calls of `create_cq`; `set` stands for those that fill the attributes and
`create` for those `doca_verbs_cq_create` makes. -/
structure CqCalls where
  attr : Bool
  alloc : Bool
  calloc : Bool
  memcpy : Bool
  umem : Bool
  set : Bool
  create : Bool
deriving DecidableEq, Repr

/-- The outcomes of the calls of `create_qp`. -/
structure QpCalls where
  attr : Bool
  canRegister : Option Bool
  alloc : Bool
  umem : Bool
  allocDbr : Bool
  umemDbr : Bool
  set : Bool
  create : Bool
deriving DecidableEq, Repr

/-- The outcomes for one queue pair; `uar` says that there is a UAR. -/
structure HlCalls where
  cq : CqCalls
  uar : Bool
  qp : QpCalls
  exportQp : Bool
deriving DecidableEq, Repr

section Parts

variable (env : CreateEnv) (attr : QpInitAttrHl)

/-- `doca_gpu_mem_alloc` of a buffer of the type `GPU`, or `CPU_GPU` if the CPU uses the queues. The
heap lists the sizes of the blocks. -/
def memAlloc (size : ℕ) (ok : Bool) (heap : List ℕ) : Option (Umem × List ℕ) :=
  let a : AllocArgs := ⟨false, false, !attr.enableUmemCpu, size, env.pageSize,
    if attr.enableUmemCpu then .cpuGpu else .gpu⟩
  if a.valid env.pageSize && ok then some (⟨heap.length, size⟩, heap ++ [size]) else none

/-- `doca_verbs_cq_open::create` on an external umem. -/
def VerbsCq.create (ncqes : ℕ) (umem : Umem) (ok : Bool) : Option VerbsCq :=
  if checkCqSize env.toHostEnv ncqes && ok then
    some ⟨ncqes, umem, alignUpUint32 (ncqes * 64 % 2 ^ 32) 64, ncqes.log2 % 2 ^ 5⟩
  else none

/-- `create_cq`: a failed `cudaMemcpy` jumps to the exit with the status of the allocation, so the
call succeeds without a CQ. -/
def createCq (ncqes : ℕ) (c : CqCalls) (heap : List ℕ) : Option (Option VerbsCq × List ℕ) := do
  guard c.attr
  let (umem, heap) ← memAlloc env attr (calcCqExternalUmemSize env.toHostEnv ncqes) c.alloc heap
  guard c.calloc
  if !attr.enableUmemCpu && !c.memcpy then
    return (none, heap)
  guard (c.umem && c.set)
  let cq ← VerbsCq.create env ncqes umem c.create
  return (some cq, heap)

/-- `calc_qp_external_umem_size`. -/
def calcQpExternalUmemSize (sqNwqes : ℕ) : ℕ :=
  alignUpUint32 (if sqNwqes ≠ 0 then sqNwqes * 64 % 2 ^ 32 else 0) env.pageSize

/-- `m_sq_size_wqebb` and its logarithm in `doca_verbs_qp_open::create`, for one SGE and no inline
data. -/
def sqSizes (sqWr : ℕ) : Option (ℕ × ℕ) :=
  if sqWr = 0 then some (0, 0)
  else if sqWr > 0x7fffffff / env.maxSqDescSize then none
  else
    let sendWqeSize := 16 + 16 + 1 * 16
    if sendWqeSize > env.maxSqDescSize then none
    else
      let sendWqeSize := alignUpUint32 (max sendWqeSize 0) 64
      let sqSizeBytes := nextPowerOfTwo (sendWqeSize * sqWr % 2 ^ 32) % 2 ^ 32
      let sqSizeWqebb := sqSizeBytes / 64
      if sqSizeWqebb > env.maxSendWqebb then none else some (sqSizeWqebb, sqSizeWqebb.log2)

/-- `doca_verbs_qp_open::create` on external umems. -/
def VerbsQp.create (sqWr : ℕ) (umem umemDbr : Umem) (ok : Bool) : Option VerbsQp :=
  if attr.sendDbrModeExt = .noDbrHw && !env.sendDbrModeNoDbrExt then none
  else
    match sqSizes env sqWr with
    | none => none
    | some (wqebb, log) =>
      if ok then some ⟨wqebb, umem, umemDbr, if wqebb > 0 then log % 2 ^ 4 else 0⟩ else none

/-- The handler `create_qp` settles on. -/
def qpNicHandler (c : QpCalls) : Option NicHandler := do
  let nicHandler ← if attr.nicHandler = .auto then
      c.canRegister.map fun canRegister => if canRegister then .gpuSmDb else .cpuProxy
    else some attr.nicHandler
  return if attr.sendDbrModeExt ≠ .validDbr ∧ nicHandler = .gpuSmDb then .gpuSmNoDbr else nicHandler

/-- The buffer of the doorbell record, on the host or by `doca_gpu_mem_alloc`. -/
def allocDbr (onHost ok : Bool) (heap : List ℕ) : Option (Umem × List ℕ) :=
  let size := alignUpUint32 8 env.pageSize
  if onHost then some (⟨heap.length, size⟩, heap ++ [size]) else memAlloc env attr size ok heap

/-- `create_qp`: a failed `calloc` of the doorbell record jumps to the exit with the status of the
call before it. -/
def createQp (cq : Option VerbsCq) (sqNwqe : ℕ) (c : QpCalls) (heap : List ℕ) :
    Option (Option VerbsQp × List ℕ) := do
  guard c.attr
  let nicHandler ← qpNicHandler attr c
  let (umem, heap) ← memAlloc env attr (calcQpExternalUmemSize env sqNwqe) c.alloc heap
  guard c.umem
  let onHost : Bool := nicHandler = .cpuProxy ∨ attr.sendDbrModeExt = .noDbrSwEmulated
  if onHost && !c.allocDbr then
    return (none, heap)
  let (umemDbr, heap) ← allocDbr env attr onHost c.allocDbr heap
  guard (c.umemDbr && c.set && cq.isSome)
  let qp ← VerbsQp.create env attr sqNwqe umem umemDbr c.create
  return (some qp, heap)

/-- The rings in `doca_gpu_verbs_export_qp`: the number of WQEBBs is cut to 16 bits. -/
def exportRings (qp : VerbsQp) (cq : VerbsCq) : DevQp :=
  let sqWqeNum := qp.sqSizeWqebb % 2 ^ 16
  { sqWqeNum := sqWqeNum
    sqWqeMask := (sqWqeNum + (2 ^ 16 - 1)) % 2 ^ 16
    sqWqeDaddr := ⟨qp.umem.block, 0⟩
    cqeNum := cq.numCqes
    cqeMask := (cq.numCqes + (2 ^ 32 - 1)) % 2 ^ 32
    cqeDaddr := ⟨cq.umem.block, 0⟩
    dbrec := ⟨cq.umem.block, cq.ciDbr⟩ }

/-- `doca_gpu_verbs_export_qp`. -/
def exportQp (qp : Option VerbsQp) (cq : Option VerbsCq) (ok : Bool) : Option HlQp :=
  match qp, cq with
  | some qp, some cq => if ok then some ⟨cq, qp, exportRings qp cq⟩ else none
  | _, _ => none

end Parts

/-- The checks on the arguments; `bf` says that `GPU_SM_BF` is allowed. -/
def argsValid (attr : QpInitAttrHl) (bf : Bool) : Bool :=
  !attr.nullArg && attr.sqNwqe ≠ 0#16 &&
    !(attr.sendDbrModeExt = .noDbrSwEmulated && !attr.supportGdrcopy) &&
    (attr.nicHandler = .auto || attr.nicHandler = .cpuProxy || attr.nicHandler = .gpuSmDb ||
      bf && attr.nicHandler = .gpuSmBf)

/-- The depth after `next_power_of_two`, the cast to 32 bits and the assignment to the field of 16
bits. -/
def roundDepth (sqNwqe : ℕ) : ℕ := nextPowerOfTwo sqNwqe % 2 ^ 32 % 2 ^ 16

/-- The three steps that create one queue pair of the rounded depth. A page size that is 0 in 32
bits is divided by. -/
def createOne (env : CreateEnv) (attr : QpInitAttrHl) (sqNwqe : ℕ) (c : HlCalls) (heap : List ℕ) :
    Option (HlQp × List ℕ) := do
  guard (env.pageSize % 2 ^ 32 ≠ 0 ∧ c.uar)
  let (cq, heap) ← createCq env attr sqNwqe c.cq heap
  let (qp, heap) ← createQp env attr cq sqNwqe c.qp heap
  let hl ← exportQp qp cq c.exportQp
  return (hl, heap)

/-- **`doca_gpu_verbs_create_qp_hl`**. -/
def createQpHl (env : CreateEnv) (attr : QpInitAttrHl) (alloc : Bool) (c : HlCalls)
    (heap : List ℕ) : Option (HlQp × List ℕ) := do
  guard (argsValid attr true && !attr.netDevNull && alloc)
  createOne env attr (roundDepth attr.sqNwqe.toNat) c heap

/-- **`doca_gpu_verbs_create_qp_group_hl`**: the main queue pair, and a companion of the depth
rounded again, with the same UAR. -/
def createQpGroupHl (env : CreateEnv) (attr : QpInitAttrHl) (alloc : Bool)
    (main companion : HlCalls) (heap : List ℕ) : Option (HlQp × HlQp × List ℕ) := do
  guard (argsValid attr false && alloc)
  let depth := roundDepth attr.sqNwqe.toNat
  let (qpMain, heap) ← createOne env attr depth main heap
  let (qpCompanion, heap) ← createOne env attr (roundDepth depth) { companion with uar := main.uar }
    heap
  return (qpMain, qpCompanion, heap)

/-! ## What the device assumes -/

/-- Bytes from an address on. -/
structure Region where
  start : Addr
  length : ℕ
deriving DecidableEq, Repr

/-- No byte in common. -/
def Region.Disjoint (r r' : Region) : Prop :=
  r.start.block = r'.start.block →
    r.start.offset + r.length ≤ r'.start.offset ∨ r'.start.offset + r'.length ≤ r.start.offset

/-- Inside a buffer that is allocated and registered in the same size. -/
def Region.Within (heap : List ℕ) (umem : Umem) (r : Region) : Prop :=
  heap[umem.block]? = some umem.size ∧ r.start.block = umem.block ∧
    r.start.offset + r.length ≤ umem.size

/-- The SQ ring. -/
def DevQp.sqRing (d : DevQp) : Region := ⟨d.sqWqeDaddr, d.sqWqeNum * 64⟩

/-- The CQ ring. -/
def DevQp.cqRing (d : DevQp) : Region := ⟨d.cqeDaddr, d.cqeNum * 64⟩

/-- The doorbell record of the CQ. -/
def DevQp.cqDbr (d : DevQp) : Region := ⟨d.dbrec, 8⟩

/-- No size wraps: each is what its formula gives on unbounded numbers. -/
structure HlQp.Exact (env : CreateEnv) (sqNwqe : ℕ) (q : HlQp) : Prop where
  depth : roundDepth sqNwqe = nextPowerOfTwo sqNwqe
  cqUmem : q.cq.umem.size = alignUp (nextPowerOfTwo sqNwqe * 64 + 8) env.pageSize
  cqDbr : q.cq.ciDbr = alignUp (nextPowerOfTwo sqNwqe * 64) 64
  qpUmem : q.qp.umem.size = alignUp (nextPowerOfTwo sqNwqe * 64) env.pageSize
  qpUmemDbr : q.qp.umemDbr.size = alignUp 8 env.pageSize
  sqSize : q.qp.sqSizeWqebb * 64 = nextPowerOfTwo (64 * nextPowerOfTwo sqNwqe)
  sqWqeNum : q.gverbs.sqWqeNum = q.qp.sqSizeWqebb

/-- **What the protocol of the device assumes**: the rings are as deep as the NIC was told, powers
of two with their masks, the CQ at least as deep as the SQ, they and the doorbell record do not
overlap and lie in their buffers, and no size wraps on the way. -/
structure HlQp.Established (env : CreateEnv) (sqNwqe : ℕ) (heap : List ℕ) (q : HlQp) : Prop where
  sqWqeNum : q.gverbs.sqWqeNum = 2 ^ q.qp.logSqSize
  sqWqeMask : q.gverbs.sqWqeMask = q.gverbs.sqWqeNum - 1
  cqeNum : q.gverbs.cqeNum = 2 ^ q.cq.logCqSize
  le : q.gverbs.sqWqeNum ≤ q.gverbs.cqeNum
  sqRing : q.gverbs.sqRing.Within heap q.qp.umem
  cqRing : q.gverbs.cqRing.Within heap q.cq.umem
  cqDbr : q.gverbs.cqDbr.Within heap q.cq.umem
  disjoint : [q.gverbs.sqRing, q.gverbs.cqRing, q.gverbs.cqDbr].Pairwise Region.Disjoint
  exact : q.Exact env sqNwqe

/-! ## Rounding -/

end HighLevel

/-- The function fills the predecessor of its argument with ones, and adds one. -/
theorem nextPowerOfTwo_eq_log2 {x : ℕ} (h : 1 < x) (hx : x < 2 ^ 64) :
    nextPowerOfTwo x = 2 ^ ((x - 1).log2 + 1) % 2 ^ 64 := by
  have hpred : (x + (2 ^ 64 - 1)) % 2 ^ 64 = x - 1 := by omega
  have hlog : (x - 1).log2 < 64 := (Nat.log2_lt (by omega)).2 (by omega)
  have hfill := (((((Smear.Filled.of_log2 (x := x - 1) (by omega)).or_shiftRight).or_shiftRight
    ).or_shiftRight).or_shiftRight).or_shiftRight.or_shiftRight
  simp only [nextPowerOfTwo, hpred]
  rw [hfill.eq hlog, Nat.sub_add_cancel (Nat.two_pow_pos _)]

/-- The least power of two that is not smaller. -/
theorem nextPowerOfTwo_eq {x : ℕ} (h : 0 < x) (hx : x ≤ 2 ^ 63) :
    nextPowerOfTwo x = 2 ^ Nat.clog 2 x := by
  obtain rfl | h1 := Nat.eq_or_lt_of_le (Nat.succ_le_of_lt h)
  · rfl
  have hclog : Nat.clog 2 x ≤ 63 := Nat.clog_le_of_le_pow hx
  have hle := Nat.pow_le_pow_right Nat.two_pos hclog
  rw [nextPowerOfTwo_eq_log2 h1 (hx.trans_lt (by decide)), Smear.log2_pred_succ h1,
    Nat.mod_eq_of_lt (hle.trans_lt (by decide))]

theorem nextPowerOfTwo_pow {b : ℕ} (hb : b ≤ 63) : nextPowerOfTwo (2 ^ b) = 2 ^ b := by
  rw [nextPowerOfTwo_eq (Nat.two_pow_pos b) (Nat.pow_le_pow_right Nat.two_pos hb),
    Nat.clog_pow _ _ Nat.one_lt_two]

theorem alignUp_le {p alignment m : ℕ} (ha : 0 < alignment) (hp : p ≤ m) (hm : alignment ∣ m) :
    alignUp p alignment ≤ m := by
  obtain ⟨k, rfl⟩ := hm
  rw [alignUp]
  split
  · exact hp
  next hmod =>
    have hlt := Nat.mod_lt p ha
    have hdiv := Nat.div_add_mod p alignment
    have hk : p / alignment < k := by
      rw [Nat.div_lt_iff_lt_mul ha, mul_comm]
      refine lt_of_le_of_ne hp fun heq => hmod ?_
      rw [heq, Nat.mul_mod_right]
    have := Nat.mul_le_mul_left alignment (Nat.succ_le_of_lt hk)
    rw [Nat.mul_succ] at this
    omega

theorem le_alignUp {p alignment : ℕ} : p ≤ alignUp p alignment := by
  rw [alignUp]
  split
  · exact le_rfl
  · exact Nat.le_add_right _ _

theorem alignUpUint32_eq_mod {v p : ℕ} (hv : v < 2 ^ 32) :
    alignUpUint32 v p = alignUp v p % 2 ^ 32 := by
  rw [alignUpUint32, alignUp]
  split
  · exact (Nat.mod_eq_of_lt hv).symm
  · rfl

theorem page_dvd {k p : ℕ} (hk : p = 2 ^ k) (hp : p % 2 ^ 32 ≠ 0) : p ∣ 2 ^ 31 := by
  subst hk
  refine Nat.pow_dvd_pow 2 (Nat.lt_succ_iff.1 (not_le.1 fun hle => hp ?_))
  exact Nat.mod_eq_zero_of_dvd (Nat.pow_dvd_pow 2 hle)

/-- Rounding up to a page is exact up to `2 ^ 31`, -/
theorem alignUpUint32_of_le {v k p : ℕ} (hk : p = 2 ^ k) (hp : p % 2 ^ 32 ≠ 0) (hv : v ≤ 2 ^ 31) :
    alignUpUint32 v p = alignUp v p := by
  have hle := alignUp_le (by omega) hv (page_dvd hk hp)
  rw [alignUpUint32_eq_mod (hv.trans_lt (by decide)), Nat.mod_eq_of_lt (hle.trans_lt (by decide))]

/-- and above that it is exact or wraps to zero. -/
theorem alignUpUint32_of_ne_zero {v k p : ℕ} (hk : p = 2 ^ k) (hp : p % 2 ^ 32 ≠ 0)
    (hv : v < 2 ^ 32) (h : alignUpUint32 v p ≠ 0) : alignUpUint32 v p = alignUp v p := by
  have hdvd : p ∣ 2 ^ 32 := (page_dvd hk hp).trans (Nat.pow_dvd_pow 2 (by decide))
  rw [alignUpUint32_eq_mod hv] at h ⊢
  obtain hlt | heq := (alignUp_le (by omega) hv.le hdvd).lt_or_eq
  · exact Nat.mod_eq_of_lt hlt
  · rw [heq, Nat.mod_self] at h
    exact (h rfl).elim

theorem privIsPowerOfTwo_iff {x : ℕ} : privIsPowerOfTwo x = true ↔ ∃ k, x = 2 ^ k := by
  rw [← isPowerOfTwo_iff, privIsPowerOfTwo, isPowerOfTwo]
  simp [bne_iff_ne]

namespace HighLevel

/-! ## What the checks leave -/

section Parts

variable {env : CreateEnv} {attr : QpInitAttrHl} {heap heap' : List ℕ} {n : ℕ}

theorem memAlloc_some {size : ℕ} {ok : Bool} {umem : Umem}
    (h : memAlloc env attr size ok heap = some (umem, heap')) :
    size ≠ 0 ∧ (∃ k, env.pageSize = 2 ^ k) ∧ umem = ⟨heap.length, size⟩ ∧
      heap' = heap ++ [size] := by
  obtain ⟨hok, heq⟩ := Option.ite_none_right_eq_some.1 h
  rw [Bool.and_eq_true, AllocArgs.valid, Bool.and_eq_true, Bool.and_eq_true] at hok
  obtain ⟨⟨⟨-, hsize⟩, hpow⟩, -⟩ := hok
  rw [ite_self] at hpow
  cases heq
  exact ⟨of_decide_eq_true hsize, privIsPowerOfTwo_iff.1 hpow, rfl, rfl⟩

theorem allocDbr_some {onHost ok : Bool} {umem : Umem}
    (h : allocDbr env attr onHost ok heap = some (umem, heap')) :
    umem = ⟨heap.length, alignUpUint32 8 env.pageSize⟩ ∧
      heap' = heap ++ [alignUpUint32 8 env.pageSize] := by
  cases onHost with
  | true =>
    cases h
    exact ⟨rfl, rfl⟩
  | false => exact (memAlloc_some h).2.2

/-- A CQ is a power of two deep, and its parts are computed from that. -/
theorem createCq_some {c : CqCalls} {cq : VerbsCq}
    (h : createCq env attr n c heap = some (some cq, heap')) :
    ∃ b k, n = 2 ^ b ∧ env.pageSize = 2 ^ k ∧ calcCqExternalUmemSize env.toHostEnv n ≠ 0 ∧
      cq = ⟨n, ⟨heap.length, calcCqExternalUmemSize env.toHostEnv n⟩,
        alignUpUint32 (n * 64 % 2 ^ 32) 64, b % 2 ^ 5⟩ ∧
      heap' = heap ++ [calcCqExternalUmemSize env.toHostEnv n] := by
  simp only [createCq, Option.bind_eq_bind, Option.bind_eq_some_iff, Option.guard_eq_some',
    Prod.exists] at h
  obtain ⟨-, -, umem, heap₁, hmem, -, -, h⟩ := h
  obtain ⟨hsize, ⟨k, hk⟩, rfl, rfl⟩ := memAlloc_some hmem
  split at h
  · cases h
  simp only [Option.bind_eq_some_iff, Option.guard_eq_some'] at h
  obtain ⟨-, -, cq', hcq, h⟩ := h
  cases h
  obtain ⟨hcheck, heq⟩ := Option.ite_none_right_eq_some.1 hcq
  cases heq
  rw [Bool.and_eq_true, checkCqSize, Bool.and_eq_true] at hcheck
  obtain ⟨b, rfl⟩ := isPowerOfTwo_iff.1 hcheck.1.1
  exact ⟨b, k, rfl, hk, hsize, by rw [Nat.log2_two_pow], rfl⟩

theorem nextPowerOfTwo_mul {b : ℕ} (hb : b ≤ 25) : nextPowerOfTwo (64 * 2 ^ b) = 64 * 2 ^ b := by
  have heq : 64 * 2 ^ b = 2 ^ (6 + b) := (Nat.pow_add 2 6 b).symm
  rw [heq, nextPowerOfTwo_pow (by omega)]

theorem sqSizes_pow {b wqebb log : ℕ} (h : sqSizes env (2 ^ b) = some (wqebb, log)) :
    b ≤ 25 ∧ wqebb = 2 ^ b ∧ log = b := by
  have hpow : 2 ^ b ≠ 0 := (Nat.two_pow_pos b).ne'
  rw [sqSizes, if_neg hpow] at h
  obtain ⟨hwr, h⟩ := Option.ite_none_left_eq_some.1 h
  obtain ⟨hdesc, h⟩ := Option.ite_none_left_eq_some.1 h
  have hdesc : 48 ≤ env.maxSqDescSize := not_lt.1 hdesc
  have hb : b ≤ 25 := by
    have hle : 2 ^ b ≤ 0x7fffffff / 48 :=
      (not_lt.1 hwr).trans (Nat.div_le_div_left hdesc (by decide))
    have hlt : 2 ^ b < 2 ^ 26 := hle.trans_lt (by decide)
    exact Nat.lt_succ_iff.1 ((Nat.pow_lt_pow_iff_right Nat.one_lt_two).1 hlt)
  have hle : 2 ^ b ≤ 2 ^ 25 := Nat.pow_le_pow_right Nat.two_pos hb
  have hlt : 64 * 2 ^ b < 2 ^ 32 := by omega
  have hbytes : nextPowerOfTwo (64 * 2 ^ b % 2 ^ 32) % 2 ^ 32 = 64 * 2 ^ b := by
    rw [Nat.mod_eq_of_lt hlt, nextPowerOfTwo_mul hb, Nat.mod_eq_of_lt hlt]
  have halign : alignUpUint32 (max (16 + 16 + 1 * 16) 0) 64 = 64 := by decide
  simp only [halign, hbytes, Nat.mul_div_cancel_left _ (show 0 < 64 by decide)] at h
  obtain ⟨-, heq⟩ := Option.ite_none_left_eq_some.1 h
  cases heq
  exact ⟨hb, rfl, Nat.log2_two_pow⟩

theorem VerbsQp.create_some {umem umemDbr : Umem} {ok : Bool} {b : ℕ} {qp : VerbsQp}
    (h : VerbsQp.create env attr (2 ^ b) umem umemDbr ok = some qp) :
    b ≤ 25 ∧ qp = ⟨2 ^ b, umem, umemDbr, b % 2 ^ 4⟩ := by
  obtain ⟨-, h⟩ := Option.ite_none_left_eq_some.1 h
  cases hs : sqSizes env (2 ^ b) with
  | none => simp [hs] at h
  | some x =>
    obtain ⟨wqebb, log⟩ := x
    obtain ⟨hb, rfl, rfl⟩ := sqSizes_pow hs
    simp only [hs, Nat.two_pow_pos, if_true] at h
    obtain ⟨-, heq⟩ := Option.ite_none_right_eq_some.1 h
    cases heq
    exact ⟨hb, rfl⟩

/-- A QP on a CQ of a power of two is at most `2 ^ 25` deep. -/
theorem createQp_some {c : QpCalls} {cq : Option VerbsCq} {b : ℕ} {qp : VerbsQp}
    (h : createQp env attr cq (2 ^ b) c heap = some (some qp, heap')) :
    b ≤ 25 ∧
      qp = ⟨2 ^ b, ⟨heap.length, calcQpExternalUmemSize env (2 ^ b)⟩,
        ⟨heap.length + 1, alignUpUint32 8 env.pageSize⟩, b % 2 ^ 4⟩ ∧
      heap' = heap ++ [calcQpExternalUmemSize env (2 ^ b), alignUpUint32 8 env.pageSize] := by
  simp only [createQp, Option.bind_eq_bind, Option.bind_eq_some_iff, Option.guard_eq_some',
    Prod.exists] at h
  obtain ⟨-, -, nicHandler, -, umem, heap₁, hmem, -, -, h⟩ := h
  obtain ⟨-, -, rfl, rfl⟩ := memAlloc_some hmem
  split at h
  · cases h
  simp only [Option.bind_eq_some_iff, Option.guard_eq_some', Prod.exists]
    at h
  obtain ⟨umemDbr, heap₂, hdbr, -, -, qp', hqp, h⟩ := h
  cases h
  obtain ⟨hb, rfl⟩ := VerbsQp.create_some hqp
  obtain ⟨rfl, rfl⟩ := allocDbr_some hdbr
  exact ⟨hb, by rw [List.length_append]; rfl, List.append_assoc ..⟩

/-- What a creation of depth `2 ^ b` makes of it. -/
structure HlQp.Sized (env : CreateEnv) (b : ℕ) (heap heap' : List ℕ) (q : HlQp) : Prop where
  le : b ≤ 25
  cq : q.cq =
    ⟨2 ^ b, ⟨heap.length, alignUp (2 ^ b * 64 + 8) env.pageSize⟩, 2 ^ b * 64, b⟩
  qp : q.qp = ⟨2 ^ b, ⟨heap.length + 1, alignUp (2 ^ b * 64) env.pageSize⟩,
    ⟨heap.length + 2, alignUp 8 env.pageSize⟩, b % 2 ^ 4⟩
  gverbs : q.gverbs = exportRings q.qp q.cq
  heap : heap' = heap ++ [alignUp (2 ^ b * 64 + 8) env.pageSize,
    alignUp (2 ^ b * 64) env.pageSize, alignUp 8 env.pageSize]

/-- **The 32-bit sizes of a creation that succeeds are exact.** -/
theorem createOne_sized {c : HlCalls} {q : HlQp}
    (h : createOne env attr n c heap = some (q, heap')) :
    ∃ b, n = 2 ^ b ∧ q.Sized env b heap heap' := by
  simp only [createOne, Option.bind_eq_bind, Option.bind_eq_some_iff, Option.guard_eq_some',
    Prod.exists] at h
  obtain ⟨-, ⟨hpage, -⟩, cq, heap₁, hcq, qp, heap₂, hqp, hl, hexp, h⟩ := h
  cases h
  obtain ⟨qp, rfl⟩ : ∃ qp', qp = some qp' := by
    cases qp with
    | none => cases hexp
    | some qp => exact ⟨qp, rfl⟩
  obtain ⟨cq, rfl⟩ : ∃ cq', cq = some cq' := by
    cases cq with
    | none => cases hexp
    | some cq => exact ⟨cq, rfl⟩
  obtain ⟨-, heq⟩ := Option.ite_none_right_eq_some.1 hexp
  cases heq
  obtain ⟨b, k, rfl, hk, hcqSize, rfl, rfl⟩ := createCq_some hcq
  obtain ⟨hb, rfl, rfl⟩ := createQp_some hqp
  have hle : 2 ^ b ≤ 2 ^ 25 := Nat.pow_le_pow_right Nat.two_pos hb
  have hpow : 2 ^ b ≠ 0 := (Nat.two_pow_pos b).ne'
  have hring : 2 ^ b * 64 % 2 ^ 32 = 2 ^ b * 64 := Nat.mod_eq_of_lt (by omega)
  have hcq : calcCqExternalUmemSize env.toHostEnv (2 ^ b) =
      alignUp (2 ^ b * 64 + 8) env.pageSize := by
    rw [calcCqExternalUmemSize, if_pos hpow, hring, Nat.mod_eq_of_lt (by omega)] at hcqSize ⊢
    exact alignUpUint32_of_ne_zero hk hpage (by omega) hcqSize
  have hqp : calcQpExternalUmemSize env (2 ^ b) = alignUp (2 ^ b * 64) env.pageSize := by
    rw [calcQpExternalUmemSize, if_pos hpow, hring]
    exact alignUpUint32_of_le hk hpage (by omega)
  have hdbr : alignUpUint32 (2 ^ b * 64 % 2 ^ 32) 64 = 2 ^ b * 64 := by
    rw [hring, alignUpUint32, if_pos (Nat.mul_mod_left ..)]
  have hqpDbr : alignUpUint32 8 env.pageSize = alignUp 8 env.pageSize :=
    alignUpUint32_of_le hk hpage (by decide)
  refine ⟨b, rfl, hb, ?_, ?_, rfl, ?_⟩
  · rw [hcq, hdbr, Nat.mod_eq_of_lt (by omega)]
  · rw [hqp, hqpDbr, List.length_append]
    rfl
  · rw [hcq, hqp, hqpDbr]
    exact List.append_assoc ..

end Parts

/-- The exported structure keeps 16 bits of the number of WQEBBs, and the command 4 of its
logarithm: both are exact up to a depth of `2 ^ 15`. -/
theorem HlQp.Sized.established {env : CreateEnv} {b n : ℕ} {heap heap' : List ℕ} {q : HlQp}
    (h : q.Sized env b heap heap') (hround : roundDepth n = nextPowerOfTwo n)
    (hn : nextPowerOfTwo n = 2 ^ b) (hb15 : b ≤ 15) (more : List ℕ) :
    q.Established env n (heap' ++ more) := by
  obtain ⟨hb, hcq, hqp, hg, rfl⟩ := h
  obtain ⟨cq, qp, gverbs⟩ := q
  obtain rfl : gverbs = exportRings qp cq := hg
  obtain rfl : cq = _ := hcq
  obtain rfl : qp = _ := hqp
  have hpos := Nat.two_pow_pos b
  have hle : 2 ^ b ≤ 2 ^ 15 := Nat.pow_le_pow_right Nat.two_pos hb15
  have hlog : b % 2 ^ 4 = b := Nat.mod_eq_of_lt (Nat.lt_succ_of_le hb15)
  have hnum : 2 ^ b % 2 ^ 16 = 2 ^ b := Nat.mod_eq_of_lt (by omega)
  have hcqSize : 2 ^ b * 64 + 8 ≤ alignUp (2 ^ b * 64 + 8) env.pageSize := le_alignUp
  have hqpSize : 2 ^ b * 64 ≤ alignUp (2 ^ b * 64) env.pageSize := le_alignUp
  simp only [exportRings, hlog, hnum]
  refine ⟨rfl, ?_, rfl, le_rfl, ?_, ?_, ?_, ?_, ?_⟩
  · show (2 ^ b + (2 ^ 16 - 1)) % 2 ^ 16 = 2 ^ b - 1
    omega
  · exact ⟨by simp, rfl, (Nat.zero_add _).trans_le hqpSize⟩
  · refine ⟨by simp, rfl, (Nat.zero_add _).trans_le ?_⟩
    exact (Nat.le_add_right _ 8).trans hcqSize
  · exact ⟨by simp, rfl, hcqSize⟩
  · -- the QP has a block of its own, and the record begins where the CQ ring ends
    have hne : heap.length + 1 ≠ heap.length := Nat.succ_ne_self _
    refine .cons (fun r hr => ?_) (.cons (fun r hr => ?_) (List.pairwise_singleton ..))
    · obtain rfl | rfl : r = _ ∨ r = _ := by simpa using hr
      · exact fun heq => (hne heq).elim
      · exact fun heq => (hne heq).elim
    · obtain rfl := List.mem_singleton.1 hr
      exact fun _ => .inl (Nat.zero_add _).le
  · have hdbr : 2 ^ b * 64 = alignUp (nextPowerOfTwo n * 64) 64 := by
      rw [hn, alignUp, if_pos (Nat.mul_mod_left ..)]
    have hbytes : 2 ^ b * 64 = nextPowerOfTwo (64 * nextPowerOfTwo n) := by
      rw [hn, nextPowerOfTwo_mul hb, Nat.mul_comm]
    exact ⟨hround, by rw [hn], hdbr, by rw [hn], rfl, hbytes, rfl⟩

/-- A depth of 16 bits that is not zero after rounding was at most `2 ^ 15`, and has been rounded
without a wrap. -/
theorem roundDepth_eq {n b : ℕ} (hn : n < 2 ^ 16) (h : roundDepth n = 2 ^ b) :
    roundDepth n = nextPowerOfTwo n ∧ nextPowerOfTwo n = 2 ^ b ∧ b ≤ 15 := by
  have hpos : 0 < n := by
    refine Nat.pos_of_ne_zero fun hzero => ?_
    rw [hzero] at h
    exact (Nat.two_pow_pos b).ne h
  have heq := nextPowerOfTwo_eq hpos (hn.le.trans (by decide))
  have hclog : Nat.clog 2 n ≤ 16 := Nat.clog_le_of_le_pow hn.le
  have hlt : Nat.clog 2 n < 16 := by
    refine lt_of_le_of_ne hclog fun h16 => ?_
    rw [roundDepth, heq, h16] at h
    exact (Nat.two_pow_pos b).ne h
  have hpow : 2 ^ Nat.clog 2 n < 2 ^ 16 := Nat.pow_lt_pow_right Nat.one_lt_two hlt
  have hround : roundDepth n = 2 ^ Nat.clog 2 n := by
    rw [roundDepth, heq, Nat.mod_eq_of_lt (hpow.trans (by decide)), Nat.mod_eq_of_lt hpow]
  obtain rfl : Nat.clog 2 n = b := Nat.pow_right_injective le_rfl (hround.symm.trans h)
  exact ⟨hround.trans heq.symm, heq, Nat.le_of_lt_succ hlt⟩

section Results

variable {env : CreateEnv} {attr : QpInitAttrHl} {alloc : Bool} {heap heap' : List ℕ}

theorem createQpHl_sized {c : HlCalls} {q : HlQp}
    (h : createQpHl env attr alloc c heap = some (q, heap')) :
    ∃ b, roundDepth attr.sqNwqe.toNat = 2 ^ b ∧ q.Sized env b heap heap' := by
  simp only [createQpHl, Option.bind_eq_bind, Option.bind_eq_some_iff, Option.guard_eq_some'] at h
  obtain ⟨-, -, h⟩ := h
  exact createOne_sized h

/-- Rounding the depth again for the companion changes nothing. -/
theorem createQpGroupHl_sized {c c' : HlCalls} {main companion : HlQp}
    (h : createQpGroupHl env attr alloc c c' heap = some (main, companion, heap')) :
    ∃ b heap₁, roundDepth attr.sqNwqe.toNat = 2 ^ b ∧ main.Sized env b heap heap₁ ∧
      companion.Sized env b heap₁ heap' := by
  simp only [createQpGroupHl, Option.bind_eq_bind, Option.bind_eq_some_iff, Option.guard_eq_some',
    Prod.exists] at h
  obtain ⟨-, -, qm, heap₁, hmain, qc, heap₂, hcomp, h⟩ := h
  cases h
  obtain ⟨b, hd, hm⟩ := createOne_sized hmain
  obtain ⟨b', hd', hc⟩ := createOne_sized hcomp
  have hb := (roundDepth_eq attr.sqNwqe.isLt hd).2.2
  have hlt : 2 ^ b < 2 ^ 16 := Nat.pow_lt_pow_right Nat.one_lt_two (Nat.lt_succ_of_le hb)
  rw [hd, roundDepth, nextPowerOfTwo_pow (by omega), Nat.mod_eq_of_lt (hlt.trans (by decide)),
    Nat.mod_eq_of_lt hlt] at hd'
  obtain rfl := Nat.pow_right_injective le_rfl hd'
  exact ⟨b, heap₁, hd, hm, hc⟩

end Results

/-- **A creation that succeeds establishes what the device assumes.** For every value of `sq_nwqe`,
every page size and every capability of the device, and any outcome of the calls made: the queue
pair of a `doca_gpu_verbs_create_qp_hl` that succeeds, and both queue pairs of a
`doca_gpu_verbs_create_qp_group_hl` that succeeds. -/
theorem created_established (env : CreateEnv) (attr : QpInitAttrHl) (alloc : Bool)
    (c c' : HlCalls) (heap heap' : List ℕ) :
    (∀ q, createQpHl env attr alloc c heap = some (q, heap') →
      q.Established env attr.sqNwqe.toNat heap') ∧
    ∀ main companion,
      createQpGroupHl env attr alloc c c' heap = some (main, companion, heap') →
      main.Established env attr.sqNwqe.toNat heap' ∧
        companion.Established env attr.sqNwqe.toNat heap' := by
  constructor
  · intro q h
    obtain ⟨b, hd, hq⟩ := createQpHl_sized h
    obtain ⟨hround, hn, hb⟩ := roundDepth_eq attr.sqNwqe.isLt hd
    rw [← List.append_nil heap']
    exact hq.established hround hn hb []
  · intro main companion h
    obtain ⟨b, heap₁, hd, hm, hc⟩ := createQpGroupHl_sized h
    obtain ⟨hround, hn, hb⟩ := roundDepth_eq attr.sqNwqe.isLt hd
    constructor
    · rw [hc.heap]
      exact hm.established hround hn hb _
    · rw [← List.append_nil heap']
      exact hc.established hround hn hb []

/-- Every call succeeds. -/
def HlCalls.ok : HlCalls :=
  ⟨⟨true, true, true, true, true, true, true⟩, true,
    ⟨true, some true, true, true, true, true, true, true⟩, true⟩

/-- A queue pair of depth 3 and a group of that depth, and the deepest queue pair there is. -/
theorem created_three :
    let env : CreateEnv := ⟨⟨4096, 2 ^ 22⟩, 1024, 2 ^ 15, true⟩
    let attr (sqNwqe : BitVec 16) : QpInitAttrHl :=
      ⟨false, false, sqNwqe, .gpuSmDb, .validDbr, true, false⟩
    (∃ q heap, createQpHl env (attr 3#16) true .ok [] = some (q, heap) ∧
      q.Established env 3 heap) ∧
    (∃ q heap, createQpHl env (attr 32768#16) true .ok [] = some (q, heap) ∧
      q.Established env 32768 heap) ∧
    ∃ main companion heap,
      createQpGroupHl env (attr 3#16) true .ok .ok [] = some (main, companion, heap) ∧
      main.Established env 3 heap ∧ companion.Established env 3 heap := by
  intro env attr
  have hone (n : BitVec 16) (h : (createQpHl env (attr n) true .ok []).isSome) :
      ∃ q heap, createQpHl env (attr n) true .ok [] = some (q, heap) ∧
        q.Established env n.toNat heap := by
    obtain ⟨⟨q, heap⟩, hq⟩ := Option.isSome_iff_exists.1 h
    exact ⟨q, heap, hq, (created_established env (attr n) true .ok .ok [] heap).1 q hq⟩
  have htwo : (createQpGroupHl env (attr 3#16) true .ok .ok []).isSome := by decide +kernel
  obtain ⟨⟨main, companion, heap⟩, hg⟩ := Option.isSome_iff_exists.1 htwo
  refine ⟨hone 3#16 (by decide +kernel), hone 32768#16 (by decide +kernel), main, companion, heap,
    hg, ?_⟩
  exact (created_established env (attr 3#16) true .ok .ok [] heap).2 main companion hg

/-- A greater depth is rounded to 0, and no CQ is made. -/
example :
    createQpHl ⟨⟨4096, 2 ^ 22⟩, 1024, 2 ^ 16, true⟩
      ⟨false, false, 32769#16, .gpuSmDb, .validDbr, true, false⟩ true .ok [] = none := by
  decide +kernel

end HighLevel

end Gpunetio
