import Gpunetio.Host.Create
import Gpunetio.Lib.Region

/-!
# Where the device and the software find a queue

The creation of a QP, a CQ or an SRQ computes addresses twice: pointers for the software, and for
the device the ids of umems with offsets into them. The queues and the doorbell record of an object
are regions of memory that should not meet.

* `rqSizes`, `sqSizes`: the sizes in `doca_verbs_qp_open::create`; `sqSizes_eq`;
* `QpAttr.create`, `CqAttr.create`, `SrqAttr.create`: the three functions, a refusal being `none`;
* `Request.create`, `Placement`: the regions of an object and what the command says of each;
* `Placement.Agrees`, `Placement.Separate`: the device finds each region where the software does,
  and no two of them meet;
* **`layout_iff`**: which requests make such an object; **`offset_dropped`**.
-/

namespace Gpunetio.Layout

/-! ## Sizes -/

/-- `doca_verbs_device_attr`, as far as a creation reads it. -/
structure DeviceAttr where
  maxQpWr : ℕ
  maxCqe : ℕ
  maxSrqWr : ℕ
  maxSrqSge : ℕ
  maxSqDescSize : ℕ
  maxRqDescSize : ℕ
  maxSendWqebb : ℕ
  sendDbrModeNoDbrExt : Bool

/-- A umem: what `doca_verbs_umem_get_id` and `doca_verbs_umem_get_address` return. -/
structure Umem where
  id : BitVec 32
  address : BitVec 64
deriving DecidableEq, Repr

/-- `doca_verbs_qp_init_attr_open`, as far as the layout and the checks before it depend on it. -/
structure QpAttr where
  rcType : Bool
  sendDbrModeNoDbrExt : Bool
  emulateNoDbrExt : Bool
  srq : Bool
  sqWr : BitVec 32
  rqWr : BitVec 32
  sendMaxSges : BitVec 32
  receiveMaxSges : BitVec 32
  maxInlineData : BitVec 32
  externalUmem : Option Umem
  externalUmemDbr : Option Umem
  externalUmemOffset : BitVec 64
  externalUmemDbrOffset : BitVec 64
deriving DecidableEq, Repr

/-- `doca_internal_utils_next_power_of_two`, cut to 32 bits. -/
def nextPow32 (x : ℕ) : ℕ := nextPowerOfTwo (x % 2 ^ 32) % 2 ^ 32

/-- `m_rq_size`, `m_rcv_wqe_size`, `m_log_rcv_wqe_size`, and `log_rq_size` and `log_stride` for the
command. -/
structure RqSizes where
  rqSize : ℕ
  rcvWqeSize : ℕ
  logRcvWqeSize : ℕ
  logRqSize : ℕ
  logStride : ℕ
deriving DecidableEq, Repr

/-- The receive queue. A WQE size that is 0 in 32 bits is divided by. -/
def rqSizes (dev : DeviceAttr) (attr : QpAttr) : Option RqSizes :=
  if 0 < attr.rqWr.toNat ∧ attr.srq = false then
    if dev.maxQpWr < attr.rqWr.toNat ∨ attr.receiveMaxSges.toNat = 0 then none
    else
      let rcvWqeSize := nextPow32 attr.receiveMaxSges.toNat * 16 % 2 ^ 32
      if dev.maxRqDescSize < rcvWqeSize ∨ rcvWqeSize = 0 then none
      else
        let rqSizeBytes := max (nextPow32 (attr.rqWr.toNat * rcvWqeSize)) 64
        let rqSize := rqSizeBytes / rcvWqeSize
        some
          { rqSize := rqSize
            rcvWqeSize := rcvWqeSize
            logRcvWqeSize := rcvWqeSize.log2
            logRqSize := rqSize.log2
            logStride := rcvWqeSize.log2 - 4 }
  else some ⟨0, 0, 0, 0, 0⟩

/-- The size of a send WQE before it is aligned, if the device takes it. -/
def sendWqeSize (dev : DeviceAttr) (attr : QpAttr) : Option ℕ :=
  let sendWqeSize := (16 + 16 + attr.sendMaxSges.toNat * 16) % 2 ^ 32
  if dev.maxSqDescSize < sendWqeSize then none
  else if 0 < attr.maxInlineData.toNat then
    let inlineDataSegSize := alignUp ((4 + attr.maxInlineData.toNat) % 2 ^ 32) 16 % 2 ^ 32
    let sendWqeInlineSize := (16 + 16 + inlineDataSegSize) % 2 ^ 32
    if dev.maxSqDescSize < sendWqeInlineSize then none
    else some (max sendWqeSize sendWqeInlineSize)
  else some sendWqeSize

/-- `m_sq_size_wqebb` and `log_sq_size_wqebb`. The limit of the device and the aligned WQE size are
divided by. -/
def sqSizes (dev : DeviceAttr) (attr : QpAttr) : Option (ℕ × ℕ) :=
  if 0 < attr.sqWr.toNat then
    if dev.maxSqDescSize = 0 ∨ 0x7fffffff / dev.maxSqDescSize < attr.sqWr.toNat ∨
        attr.sendMaxSges.toNat = 0 then none
    else
      match sendWqeSize dev attr with
      | none => none
      | some size =>
        let size := alignUpUint32 size 64
        let sqSizeBytes := nextPow32 (size * attr.sqWr.toNat)
        let sqSizeWqebb := sqSizeBytes / 64
        if dev.maxSendWqebb < sqSizeWqebb ∨ size = 0 then none
        else some (sqSizeWqebb, sqSizeWqebb.log2)
  else some (0, 0)

/-! ## The objects -/

/-- The outcomes of the calls of a creation: the query of the device, the UAR, the umem (its
registration, or reading the external ones), and the creation of the object. -/
structure CreateCalls where
  queryDevice : Bool
  uar : Bool
  umem : Bool
  obj : Bool
deriving DecidableEq, Repr

/-- All of them succeed. -/
def CreateCalls.ok (c : CreateCalls) : Bool := c.queryDevice && c.uar && c.umem && c.obj

/-- The fields of the command that place the queues; those of 64 bits are offsets into the umems. A
QP has no field for the offset of its work queue. `rqRegular`: `rq_type` says that a QP has a
receive queue of its own, whose sizes are then set. -/
structure Command where
  wqUmemId : BitVec 32
  wqUmemOffset : BitVec 64
  dbrUmemId : BitVec 32
  dbrAddr : BitVec 64
  rqRegular : Bool
  logSize : ℕ
  logStride : ℕ
  logSqSize : ℕ
deriving DecidableEq, Repr

/-- `doca_verbs_qp_open`. -/
structure QpOpen where
  rqBuf : BitVec 64
  sqBuf : BitVec 64
  dbBuffer : BitVec 64
  rqSize : ℕ
  rcvWqeSize : ℕ
  sqSizeWqebb : ℕ
  cmd : Command
deriving DecidableEq, Repr

/-- `doca_verbs_qp_open::create`; `internal` is the umem it allocates and registers if there is no
external one. -/
def QpAttr.create (dev : DeviceAttr) (attr : QpAttr) (internal : Umem) (c : CreateCalls) :
    Option QpOpen :=
  if attr.externalUmem.isSome ≠ attr.externalUmemDbr.isSome ∨ attr.rcType = false ∨
      (attr.sendDbrModeNoDbrExt && !dev.sendDbrModeNoDbrExt) = true ∨
      (attr.emulateNoDbrExt && attr.sendDbrModeNoDbrExt) = true ∨ c.ok = false then none
  else
    match rqSizes dev attr, sqSizes dev attr with
    | some rq, some (sqSizeWqebb, logSqSizeWqebb) =>
      let dbUmemOffset := alignUpUint32
        ((rq.rqSize * rq.rcvWqeSize % 2 ^ 32 + sqSizeWqebb * 64 % 2 ^ 32) % 2 ^ 32) 64
      let (wqUmemId, wqBuf, dbrUmemId, dbrUmemOffset, dbBuffer) :=
        match attr.externalUmem, attr.externalUmemDbr with
        | some umem, some umemDbr =>
          (umem.id, umem.address + attr.externalUmemOffset, umemDbr.id,
            attr.externalUmemDbrOffset, umemDbr.address + attr.externalUmemDbrOffset)
        | _, _ =>
          (internal.id, internal.address, internal.id, BitVec.ofNat 64 dbUmemOffset,
            internal.address + BitVec.ofNat 64 dbUmemOffset)
      some
        { rqBuf := wqBuf
          sqBuf := wqBuf + BitVec.ofNat 64 (rq.rqSize <<< rq.logRcvWqeSize)
          dbBuffer := dbBuffer
          rqSize := rq.rqSize
          rcvWqeSize := rq.rcvWqeSize
          sqSizeWqebb := sqSizeWqebb
          cmd :=
            { wqUmemId := wqUmemId
              wqUmemOffset := 0#64
              dbrUmemId := dbrUmemId
              dbrAddr := dbrUmemOffset
              rqRegular := attr.srq = false ∧ 0 < rq.rqSize
              logSize := rq.logRqSize
              logStride := rq.logStride
              logSqSize := logSqSizeWqebb } }
    | _, _ => none

/-- `doca_verbs_cq_attr_open`. -/
structure CqAttr where
  cqSize : BitVec 32
  externalUmem : Option Umem
  externalUmemOffset : BitVec 32
deriving DecidableEq, Repr

/-- `doca_verbs_cq_open`. -/
structure CqOpen where
  cqBuf : BitVec 64
  dbBuffer : BitVec 64
  numCqes : ℕ
  cmd : Command
deriving DecidableEq, Repr

/-- `doca_verbs_cq_open::create`; the external offset is not used. -/
def CqAttr.create (dev : DeviceAttr) (attr : CqAttr) (internal : Umem) (c : CreateCalls) :
    Option CqOpen :=
  if isPowerOfTwo attr.cqSize.toNat = false ∨ dev.maxCqe < attr.cqSize.toNat ∨ c.ok = false then
    none
  else
    let numCqes := attr.cqSize.toNat
    let dbrUmemOffset := alignUpUint32 (numCqes * 64 % 2 ^ 32) 64
    let umem := attr.externalUmem.getD internal
    some
      { cqBuf := umem.address
        dbBuffer := umem.address + BitVec.ofNat 64 dbrUmemOffset
        numCqes := numCqes
        cmd :=
          { wqUmemId := umem.id
            wqUmemOffset := 0#64
            dbrUmemId := umem.id
            dbrAddr := BitVec.ofNat 64 dbrUmemOffset
            rqRegular := false
            logSize := numCqes.log2
            logStride := 0
            logSqSize := 0 } }

/-- `doca_verbs_srq_type`, and any other value. -/
inductive SrqType
  | linkedList
  | contiguous
  | other
deriving DecidableEq, Repr

/-- `doca_verbs_srq_init_attr`. -/
structure SrqAttr where
  pdNull : Bool
  srqType : SrqType
  srqWr : BitVec 32
  receiveMaxSges : BitVec 32
  externalUmem : Option Umem
  externalUmemOffset : BitVec 64
deriving DecidableEq, Repr

/-- `m_rcv_wqe_size`. -/
def SrqAttr.rcvWqeSize (attr : SrqAttr) : ℕ :=
  let size := attr.receiveMaxSges.toNat * 16 % 2 ^ 32
  nextPow32 (if attr.srqType = .linkedList then max ((size + 16) % 2 ^ 32) 32 else size)

/-- `doca_verbs_srq`. -/
structure SrqOpen where
  srqBuf : BitVec 64
  dbBuffer : BitVec 64
  srqSize : ℕ
  rcvWqeSize : ℕ
  cmd : Command
deriving DecidableEq, Repr

/-- `doca_verbs_srq::create`. A WQE size that is 0 in 32 bits is divided by. -/
def SrqAttr.create (dev : DeviceAttr) (attr : SrqAttr) (internal : Umem) (c : CreateCalls) :
    Option SrqOpen :=
  if attr.srqType = .other ∨ attr.pdNull = true ∨ attr.srqWr.toNat = 0 ∨
      dev.maxSrqWr < attr.srqWr.toNat ∨ attr.receiveMaxSges.toNat = 0 ∨
      dev.maxSrqSge < attr.receiveMaxSges.toNat ∨ attr.rcvWqeSize = 0 ∨ c.ok = false then none
  else
    let rcvWqeSize := attr.rcvWqeSize
    let srqSizeBytes := nextPow32 (attr.srqWr.toNat * rcvWqeSize)
    let srqSize := srqSizeBytes / rcvWqeSize
    let dbUmemOffset := alignUpUint32 (srqSize * rcvWqeSize % 2 ^ 32) 64
    let (umemId, srqBuf, wqUmemOffset, dbrUmemOffset) :=
      match attr.externalUmem with
      | none => (internal.id, internal.address, 0#64, BitVec.ofNat 64 dbUmemOffset)
      | some umem =>
        (umem.id, umem.address + attr.externalUmemOffset, attr.externalUmemOffset,
          attr.externalUmemOffset + BitVec.ofNat 64 dbUmemOffset)
    some
      { srqBuf := srqBuf
        dbBuffer := srqBuf + BitVec.ofNat 64 dbUmemOffset
        srqSize := srqSize
        rcvWqeSize := rcvWqeSize
        cmd :=
          { wqUmemId := umemId
            wqUmemOffset := wqUmemOffset
            dbrUmemId := umemId
            dbrAddr := dbrUmemOffset
            rqRegular := false
            logSize := srqSize.log2
            logStride := rcvWqeSize.log2
            logSqSize := 0 } }

/-! ## Placements -/

/-- A request for an object. -/
inductive Request
  | qp (attr : QpAttr)
  | cq (attr : CqAttr)
  | srq (attr : SrqAttr)
deriving DecidableEq, Repr

/-- The regions of an object as the software uses them, the queues first and the doorbell record
last, and the umem and offset at which the command has the device find each. -/
structure Placement where
  regions : List (Region 64)
  described : List (BitVec 32 × BitVec 64)
deriving DecidableEq, Repr

/-- The two words of a doorbell record. -/
def dbrBytes : ℕ := 8

/-- The bytes the device takes for the RQ of a QP, from the members `log_rq_size` of 4 and
`log_rq_stride` of 3 bits; a stride counts from 16 bytes on. -/
def Command.rqBytes (cmd : Command) : ℕ :=
  if cmd.rqRegular then 2 ^ (cmd.logSize % 2 ^ 4) * 2 ^ (cmd.logStride % 2 ^ 3 + 4) else 0

/-- The device puts the SQ of a QP behind its RQ. -/
def QpOpen.placement (qp : QpOpen) : Placement where
  regions := [⟨qp.rqBuf, qp.rqSize * qp.rcvWqeSize⟩, ⟨qp.sqBuf, qp.sqSizeWqebb * 64⟩,
    ⟨qp.dbBuffer, dbrBytes⟩]
  described := [(qp.cmd.wqUmemId, qp.cmd.wqUmemOffset),
    (qp.cmd.wqUmemId, qp.cmd.wqUmemOffset + BitVec.ofNat 64 qp.cmd.rqBytes),
    (qp.cmd.dbrUmemId, qp.cmd.dbrAddr)]

def CqOpen.placement (cq : CqOpen) : Placement where
  regions := [⟨cq.cqBuf, cq.numCqes * 64⟩, ⟨cq.dbBuffer, dbrBytes⟩]
  described := [(cq.cmd.wqUmemId, cq.cmd.wqUmemOffset), (cq.cmd.dbrUmemId, cq.cmd.dbrAddr)]

def SrqOpen.placement (srq : SrqOpen) : Placement where
  regions := [⟨srq.srqBuf, srq.srqSize * srq.rcvWqeSize⟩, ⟨srq.dbBuffer, dbrBytes⟩]
  described := [(srq.cmd.wqUmemId, srq.cmd.wqUmemOffset), (srq.cmd.dbrUmemId, srq.cmd.dbrAddr)]

namespace Request

/-- The three creations. -/
def create (dev : DeviceAttr) (internal : Umem) (c : CreateCalls) : Request → Option Placement
  | qp attr => (attr.create dev internal c).map QpOpen.placement
  | cq attr => (attr.create dev internal c).map CqOpen.placement
  | srq attr => (attr.create dev internal c).map SrqOpen.placement

/-- The umems that are used. -/
def umems (internal : Umem) : Request → List Umem
  | qp attr =>
    match attr.externalUmem, attr.externalUmemDbr with
    | some umem, some umemDbr => [umem, umemDbr]
    | _, _ => [internal]
  | cq attr => [attr.externalUmem.getD internal]
  | srq attr => [attr.externalUmem.getD internal]

end Request

/-- The device finds every region where the software does; `umemAddress` is what it has under an id,
which is mapped from offset 0 on. -/
def Placement.Agrees (umemAddress : BitVec 32 → BitVec 64) (l : Placement) : Prop :=
  l.regions.map Region.start = l.described.map fun d => umemAddress d.1 + d.2

/-- No two regions meet. -/
def Placement.Separate (l : Placement) : Prop := l.regions.Pairwise Region.Apart

/-- The bytes of the queues of a QP. -/
def QpAttr.wqBytes (dev : DeviceAttr) (attr : QpAttr) : ℕ :=
  ((rqSizes dev attr).map fun rq => rq.rqSize * rq.rcvWqeSize).getD 0 +
    ((sqSizes dev attr).map fun sq => sq.1 * 64).getD 0

/-- The RQ has at most as many entries and as large ones as the members of the command can say. -/
def RqSizes.Told (rq : RqSizes) : Prop :=
  0 < rq.rqSize → rq.rqSize < 2 ^ 16 ∧ rq.rcvWqeSize < 2 ^ 12

/-- The requests that are laid out well. -/
def Request.Sound (dev : DeviceAttr) : Request → Prop
  | qp attr =>
    (∀ rq, rqSizes dev attr = some rq → rq.Told) ∧
    match attr.externalUmem, attr.externalUmemDbr with
    | some umem, some umemDbr =>
      attr.externalUmemOffset = 0#64 ∧
        Region.Apart ⟨umem.address, attr.wqBytes dev⟩
          ⟨umemDbr.address + attr.externalUmemDbrOffset, dbrBytes⟩
    | _, _ => attr.wqBytes dev < 2 ^ 32
  | cq attr => attr.cqSize.toNat * 64 < 2 ^ 32
  | srq _ => True

/-! ## The sizes -/

/-- A size in 32 bits of a power of two of bytes, at least a cache line, or nothing. -/
def IsQueueSize (bytes : ℕ) : Prop := bytes = 0 ∨ ∃ m, 6 ≤ m ∧ m ≤ 31 ∧ bytes = 2 ^ m

theorem nextPow32_cases (x : ℕ) : nextPow32 x = 0 ∨ ∃ m ≤ 31, nextPow32 x = 2 ^ m := by
  unfold nextPow32
  have hlt : x % 2 ^ 32 < 2 ^ 32 := Nat.mod_lt x (Nat.two_pow_pos 32)
  generalize x % 2 ^ 32 = y at hlt ⊢
  obtain rfl | hpos := Nat.eq_zero_or_pos y
  · exact .inl (by decide)
  · rw [nextPowerOfTwo_eq hpos (by omega)]
    have hclog : Nat.clog 2 y ≤ 32 := Nat.clog_le_of_le_pow (by omega)
    obtain h32 | hle := Nat.eq_or_lt_of_le hclog
    · rw [h32]
      exact .inl (Nat.mod_self _)
    · refine .inr ⟨Nat.clog 2 y, by omega, Nat.mod_eq_of_lt ?_⟩
      exact Nat.pow_lt_pow_right Nat.one_lt_two hle

theorem nextPow32_le (x : ℕ) : nextPow32 x ≤ 2 ^ 31 := by
  obtain h | ⟨m, hm, h⟩ := nextPow32_cases x
  · rw [h]
    exact Nat.zero_le _
  · rw [h]
    exact Nat.pow_le_pow_right Nat.two_pos hm

/-- The doorbell record behind at most `2 ^ 31` bytes. -/
theorem le_alignUpUint32 {v : ℕ} (hv : v ≤ 2 ^ 31) :
    v ≤ alignUpUint32 v 64 ∧ alignUpUint32 v 64 + 8 ≤ 2 ^ 32 := by
  rw [alignUpUint32_of_le (k := 6) (p := 64) rfl (by decide) hv]
  have hle : alignUp v 64 ≤ 2 ^ 31 := alignUp_le (by decide) hv (by decide)
  exact ⟨le_alignUp, by omega⟩

theorem IsQueueSize.dvd {bytes : ℕ} (h : IsQueueSize bytes) : 64 ∣ bytes := by
  obtain rfl | ⟨m, hm, -, rfl⟩ := h
  · exact Nat.dvd_zero 64
  · exact Nat.pow_dvd_pow 2 hm

theorem IsQueueSize.le {bytes : ℕ} (h : IsQueueSize bytes) : bytes ≤ 2 ^ 31 := by
  obtain rfl | ⟨m, -, hm, rfl⟩ := h
  · exact Nat.zero_le _
  · exact Nat.pow_le_pow_right Nat.two_pos hm

/-- Powers of two, divided and multiplied back. -/
theorem isQueueSize_div_mul {m k : ℕ} (hm : 6 ≤ m) (hm' : m ≤ 31) :
    IsQueueSize (2 ^ m / 2 ^ k * 2 ^ k) := by
  obtain hlt | hle := Nat.lt_or_ge m k
  · rw [Nat.div_eq_of_lt (Nat.pow_lt_pow_right Nat.one_lt_two hlt), Nat.zero_mul]
    exact .inl rfl
  · rw [Nat.div_mul_cancel (Nat.pow_dvd_pow 2 hle)]
    exact .inr ⟨m, hm, hm', rfl⟩

theorem alignUpUint32_of_dvd {v : ℕ} (h : 64 ∣ v) : alignUpUint32 v 64 = v :=
  if_pos (Nat.mod_eq_zero_of_dvd h)

variable {dev : DeviceAttr} {attr : QpAttr}

/-- The RQ has no entries, or as many as a power of two, of 16 bytes or a larger power of two. -/
theorem rqSizes_pow {rq : RqSizes} (h : rqSizes dev attr = some rq) :
    rq.rqSize = 0 ∨ attr.srq = false ∧
      ∃ p q, 6 ≤ p + (q + 4) ∧ p + (q + 4) ≤ 31 ∧ rq = ⟨2 ^ p, 2 ^ (q + 4), q + 4, p, q⟩ := by
  unfold rqSizes at h
  split_ifs at h with hrq hwr
  · obtain ⟨hdesc, h⟩ := Option.ite_none_left_eq_some.1 h
    obtain rfl := Option.some.inj h
    rw [not_or] at hdesc
    obtain hzero | ⟨q, hq, hsges⟩ := nextPow32_cases attr.receiveMaxSges.toNat
    · rw [hzero] at hdesc
      exact absurd rfl hdesc.2
    have hmul : 2 ^ q * 16 = 2 ^ (q + 4) := (Nat.pow_add 2 q 4).symm
    rw [hsges, hmul] at hdesc
    have hwqe : 2 ^ (q + 4) % 2 ^ 32 = 2 ^ (q + 4) := by
      obtain hlt | hge := Nat.lt_or_ge (q + 4) 32
      · exact Nat.mod_eq_of_lt (Nat.pow_lt_pow_right Nat.one_lt_two hlt)
      · exact absurd (Nat.mod_eq_zero_of_dvd (Nat.pow_dvd_pow 2 hge)) hdesc.2
    have hbytes : ∃ m, 6 ≤ m ∧ m ≤ 31 ∧
        max (nextPow32 (attr.rqWr.toNat * 2 ^ (q + 4))) 64 = 2 ^ m := by
      obtain hbytes | ⟨m, hm, hbytes⟩ := nextPow32_cases (attr.rqWr.toNat * 2 ^ (q + 4))
      · rw [hbytes, Nat.zero_max]
        exact ⟨6, le_rfl, by decide, rfl⟩
      · rw [hbytes]
        obtain hle | hge := Nat.le_total m 6
        · exact ⟨6, le_rfl, by decide, max_eq_right (Nat.pow_le_pow_right Nat.two_pos hle)⟩
        · exact ⟨m, hge, hm, max_eq_left (Nat.pow_le_pow_right Nat.two_pos hge)⟩
    obtain ⟨m, hlo, hhi, hbytes⟩ := hbytes
    dsimp only
    rw [hsges, hmul, hwqe, hbytes, Nat.log2_two_pow]
    obtain hlt | hle := Nat.lt_or_ge m (q + 4)
    · exact .inl (Nat.div_eq_of_lt (Nat.pow_lt_pow_right Nat.one_lt_two hlt))
    · refine .inr ⟨hrq.2, m - (q + 4), q, by omega, by omega, ?_⟩
      rw [Nat.pow_div hle Nat.two_pos, Nat.log2_two_pow, Nat.add_sub_cancel]
  · obtain rfl := Option.some.inj h
    exact .inl rfl

theorem rqSizes_spec {rq : RqSizes} (h : rqSizes dev attr = some rq) :
    IsQueueSize (rq.rqSize * rq.rcvWqeSize) ∧
      rq.rqSize <<< rq.logRcvWqeSize = rq.rqSize * rq.rcvWqeSize := by
  obtain hzero | ⟨-, p, q, hlo, hhi, rfl⟩ := rqSizes_pow h
  · rw [hzero, Nat.zero_mul, Nat.zero_shiftLeft]
    exact ⟨.inl rfl, rfl⟩
  · refine ⟨.inr ⟨p + (q + 4), hlo, hhi, (Nat.pow_add 2 p (q + 4)).symm⟩, ?_⟩
    exact Nat.shiftLeft_eq _ _

/-- The device's RQ is as long as the software's if the members of the command hold its sizes. -/
theorem told_iff {rq : RqSizes} (h : rqSizes dev attr = some rq) {cmd : Command}
    (hregular : cmd.rqRegular = decide (attr.srq = false ∧ 0 < rq.rqSize))
    (hsize : cmd.logSize = rq.logRqSize) (hstride : cmd.logStride = rq.logStride) :
    cmd.rqBytes = rq.rqSize * rq.rcvWqeSize ↔ rq.Told := by
  unfold Command.rqBytes RqSizes.Told
  rw [hregular, hsize, hstride]
  obtain hzero | ⟨hsrq, p, q, -, -, rfl⟩ := rqSizes_pow h
  · rw [hzero, if_neg (by simp), Nat.zero_mul]
    exact iff_of_true rfl fun h => absurd h (Nat.lt_irrefl 0)
  · have hpos : 0 < 2 ^ p := Nat.two_pow_pos p
    rw [if_pos (decide_eq_true ⟨hsrq, hpos⟩), forall_prop_of_true hpos, ← Nat.pow_add,
      ← Nat.pow_add, Nat.pow_right_inj (by decide), Nat.pow_lt_pow_iff_right (by decide),
      Nat.pow_lt_pow_iff_right (by decide)]
    dsimp only
    -- neither remainder is above its log
    have hp := Nat.mod_le p (2 ^ 4)
    have hq := Nat.mod_le q (2 ^ 3)
    omega

theorem sqSizes_spec {sq : ℕ × ℕ} (h : sqSizes dev attr = some sq) : IsQueueSize (sq.1 * 64) := by
  unfold sqSizes at h
  split_ifs at h with hsq hwr
  · cases hsize : sendWqeSize dev attr with
    | none =>
      rw [hsize] at h
      cases h
    | some size =>
      rw [hsize] at h
      obtain ⟨-, h⟩ := Option.ite_none_left_eq_some.1 h
      obtain rfl := Option.some.inj h
      obtain hbytes | ⟨m, hm, hbytes⟩ :=
        nextPow32_cases (alignUpUint32 size 64 * attr.sqWr.toNat)
      · rw [hbytes]
        exact .inl rfl
      · dsimp only
        rw [hbytes]
        obtain hlt | hge := Nat.lt_or_ge m 6
        · rw [Nat.div_eq_of_lt (Nat.pow_lt_pow_right Nat.one_lt_two hlt)]
          exact .inl rfl
        · exact isQueueSize_div_mul (k := 6) hge hm
  · obtain rfl := Option.some.inj h
    exact .inl rfl

/-- With one SGE and no inline data these are the sizes of `HighLevel.createQp`. -/
theorem sqSizes_eq {env : HighLevel.CreateEnv} (hdesc : dev.maxSqDescSize = env.maxSqDescSize)
    (hwqebb : dev.maxSendWqebb = env.maxSendWqebb) (hsges : attr.sendMaxSges = 1#32)
    (hinline : attr.maxInlineData = 0#32) :
    sqSizes dev attr = HighLevel.sqSizes env attr.sqWr.toNat := by
  have hsize : sendWqeSize dev attr = if env.maxSqDescSize < 48 then none else some 48 := by
    rw [sendWqeSize, hsges, hinline, hdesc]
    rfl
  have halign : alignUpUint32 48 64 = 64 := by decide
  unfold sqSizes HighLevel.sqSizes
  rw [hsize, hdesc, hwqebb, hsges]
  obtain hzero | hpos := Nat.eq_zero_or_pos attr.sqWr.toNat
  · rw [hzero]
    rfl
  rw [if_pos hpos, if_neg hpos.ne']
  by_cases hwr : 0x7fffffff / env.maxSqDescSize < attr.sqWr.toNat
  · rw [if_pos (.inr (.inl hwr)), if_pos hwr]
  have hdesc0 : env.maxSqDescSize ≠ 0 := by
    intro h
    rw [h, Nat.div_zero] at hwr
    exact hwr hpos
  rw [if_neg (not_or.2 ⟨hdesc0, not_or.2 ⟨hwr, by decide⟩⟩), if_neg hwr]
  by_cases h48 : env.maxSqDescSize < 48
  · rw [if_pos h48]
    exact (if_pos h48).symm
  · have hmax : max (16 + 16 + 1 * 16) 0 = 48 := by decide
    rw [if_neg h48]
    dsimp only
    rw [if_neg h48, hmax, halign]
    unfold nextPow32
    by_cases hlimit : env.maxSendWqebb <
        nextPowerOfTwo (64 * attr.sqWr.toNat % 2 ^ 32) % 2 ^ 32 / 64
    · rw [if_pos (.inl hlimit), if_pos hlimit]
    · rw [if_neg (not_or.2 ⟨hlimit, by decide⟩), if_neg hlimit]

/-! ## The objects -/

section Objects

variable {internal : Umem} {c : CreateCalls} {umemAddress : BitVec 32 → BitVec 64}

/-- The queues of a QP are next to each other. -/
theorem queues_apart {a : BitVec 64} {R S : ℕ} (hR : IsQueueSize R) (hS : IsQueueSize S) :
    Region.Apart ⟨a, R⟩ ⟨a + BitVec.ofNat 64 R, S⟩ := by
  have hRle := hR.le
  have hSle := hS.le
  exact Region.apart_behind le_rfl (by omega)

/-- The doorbell record behind the queues: at the offset in 32 bits. -/
theorem dbUmemOffset_eq {R S : ℕ} (hR : IsQueueSize R) (hS : IsQueueSize S) :
    alignUpUint32 ((R % 2 ^ 32 + S % 2 ^ 32) % 2 ^ 32) 64 = (R + S) % 2 ^ 32 := by
  have hdvd : 64 ∣ (R + S) % 2 ^ 32 :=
    (Nat.dvd_mod_iff (by decide)).2 (Nat.dvd_add hR.dvd hS.dvd)
  rw [← Nat.add_mod, alignUpUint32_of_dvd hdvd]

theorem Command.rqBytes_lt (cmd : Command) : cmd.rqBytes < 2 ^ 64 := by
  unfold Command.rqBytes
  split_ifs
  · rw [← Nat.pow_add]
    exact Nat.pow_lt_pow_right Nat.one_lt_two (by omega)
  · exact Nat.two_pow_pos 64

/-- The device finds the SQ behind the RQ where the software does. -/
theorem sq_agrees_iff {rq : RqSizes} (h : rqSizes dev attr = some rq) {cmd : Command}
    (hregular : cmd.rqRegular = decide (attr.srq = false ∧ 0 < rq.rqSize))
    (hsize : cmd.logSize = rq.logRqSize) (hstride : cmd.logStride = rq.logStride)
    {a : BitVec 64} :
    a + BitVec.ofNat 64 (rq.rqSize * rq.rcvWqeSize) = a + BitVec.ofNat 64 cmd.rqBytes ↔
      ∀ rq, rqSizes dev attr = some rq → rq.Told := by
  have hle := (rqSizes_spec h).1.le
  have hlt := cmd.rqBytes_lt
  have htold : (∀ rq, rqSizes dev attr = some rq → rq.Told) ↔ rq.Told := by
    rw [h]
    exact ⟨fun hall => hall rq rfl, fun ht rq' h' => Option.some.inj h' ▸ ht⟩
  rw [htold, ← told_iff h hregular hsize hstride, BitVec.add_right_inj, ← BitVec.toNat_inj,
    BitVec.toNat_ofNat, BitVec.toNat_ofNat, Nat.mod_eq_of_lt hlt, Nat.mod_eq_of_lt (by omega)]
  exact eq_comm

/-- The regions of a QP on one umem. -/
theorem internal_separate_iff {a : BitVec 64} {R S : ℕ} (hR : IsQueueSize R)
    (hS : IsQueueSize S) :
    [⟨a, R⟩, ⟨a + BitVec.ofNat 64 R, S⟩,
      ⟨a + BitVec.ofNat 64 ((R + S) % 2 ^ 32), dbrBytes⟩].Pairwise Region.Apart ↔
        R + S < 2 ^ 32 := by
  have hRle := hR.le
  have hSle := hS.le
  have hdbr : dbrBytes = 8 := rfl
  rw [List.pairwise_cons, List.pairwise_cons]
  constructor
  · rintro ⟨hrq, -⟩
    have happart := hrq _ (List.mem_cons_of_mem _ List.mem_cons_self)
    by_contra hge
    have hsum : R + S = 2 ^ 32 := by omega
    rw [hsum, Nat.mod_self] at happart
    exact Region.not_apart_of_start_eq (BitVec.add_zero a).symm (show 0 < R by omega)
      (show 0 < dbrBytes by decide) happart
  · intro hlt
    rw [Nat.mod_eq_of_lt hlt]
    have hall : Region.Apart ⟨a, R + S⟩ ⟨a + BitVec.ofNat 64 (R + S), dbrBytes⟩ :=
      Region.apart_behind le_rfl (by omega)
    obtain ⟨hrq, hsq⟩ := Region.apart_append.1 hall
    refine ⟨fun r hr => ?_, fun r hr => ?_, List.pairwise_singleton _ _⟩
    · obtain rfl | hr := List.mem_cons.1 hr
      · exact queues_apart hR hS
      · obtain rfl := List.mem_singleton.1 hr
        exact hrq
    · obtain rfl := List.mem_singleton.1 hr
      exact hsq

/-- The regions of a QP on two umems of the caller. -/
theorem external_separate_iff {a : BitVec 64} {R S : ℕ} {dbr : Region 64} (hR : IsQueueSize R)
    (hS : IsQueueSize S) :
    [⟨a, R⟩, ⟨a + BitVec.ofNat 64 R, S⟩, dbr].Pairwise Region.Apart ↔
      Region.Apart ⟨a, R + S⟩ dbr := by
  rw [List.pairwise_cons, List.pairwise_cons, Region.apart_append]
  constructor
  · rintro ⟨hrq, hsq, -⟩
    exact ⟨hrq dbr (List.mem_cons_of_mem _ List.mem_cons_self), hsq dbr List.mem_cons_self⟩
  · rintro ⟨hrq, hsq⟩
    refine ⟨fun r hr => ?_, fun r hr => ?_, List.pairwise_singleton _ _⟩
    · obtain rfl | hr := List.mem_cons.1 hr
      · exact queues_apart hR hS
      · obtain rfl := List.mem_singleton.1 hr
        exact hrq
    · obtain rfl := List.mem_singleton.1 hr
      exact hsq

/-- The device finds three regions of a QP where the software does. -/
theorem agrees_three_iff {r r' r'' : Region 64} {d d' d'' : BitVec 32 × BitVec 64} :
    Placement.Agrees umemAddress ⟨[r, r', r''], [d, d', d'']⟩ ↔
      r.start = umemAddress d.1 + d.2 ∧ r'.start = umemAddress d'.1 + d'.2 ∧
        r''.start = umemAddress d''.1 + d''.2 := by
  unfold Placement.Agrees
  simp

theorem agrees_two_iff {r r' : Region 64} {d d' : BitVec 32 × BitVec 64} :
    Placement.Agrees umemAddress ⟨[r, r'], [d, d']⟩ ↔
      r.start = umemAddress d.1 + d.2 ∧ r'.start = umemAddress d'.1 + d'.2 := by
  unfold Placement.Agrees
  simp

theorem QpAttr.sound_iff {qp : QpOpen} (h : attr.create dev internal c = some qp)
    (hmap : ∀ u ∈ (Request.qp attr).umems internal, umemAddress u.id = u.address) :
    (qp.placement.Agrees umemAddress ∧ qp.placement.Separate) ↔ (Request.qp attr).Sound dev := by
  obtain ⟨hchecks, h⟩ := Option.ite_none_left_eq_some.1 h
  rw [not_or] at hchecks
  cases hrq : rqSizes dev attr with
  | none =>
    rw [hrq] at h
    cases h
  | some rq =>
    cases hsq : sqSizes dev attr with
    | none =>
      rw [hrq, hsq] at h
      cases h
    | some sq =>
      obtain ⟨hR, hshift⟩ := rqSizes_spec hrq
      have hS := sqSizes_spec hsq
      have hbytes : attr.wqBytes dev = rq.rqSize * rq.rcvWqeSize + sq.1 * 64 := by
        rw [QpAttr.wqBytes, hrq, hsq]
        rfl
      rw [hrq, hsq] at h
      obtain ⟨sqSizeWqebb, logSq⟩ := sq
      dsimp only at h hS hbytes
      rw [dbUmemOffset_eq hR hS, hshift] at h
      unfold Request.Sound
      dsimp only [Request.umems] at hmap ⊢
      cases hu : attr.externalUmem with
      | none =>
        rw [hu] at h hmap
        obtain rfl := Option.some.inj h
        have haddr := hmap internal List.mem_cons_self
        unfold QpOpen.placement Placement.Separate
        dsimp only
        rw [agrees_three_iff, internal_separate_iff hR hS, hbytes]
        dsimp only
        rw [haddr, BitVec.zero_add, BitVec.add_zero]
        constructor
        · rintro ⟨⟨-, hag, -⟩, hlt⟩
          exact ⟨(sq_agrees_iff hrq rfl rfl rfl).1 hag, hlt⟩
        · rintro ⟨htold, hlt⟩
          exact ⟨⟨rfl, (sq_agrees_iff hrq rfl rfl rfl).2 htold, rfl⟩, hlt⟩
      | some umem =>
        cases hd : attr.externalUmemDbr with
        | none =>
          rw [hu, hd] at hchecks
          exact absurd (Bool.noConfusion) hchecks.1
        | some umemDbr =>
          rw [hu, hd] at h hmap
          obtain rfl := Option.some.inj h
          have haddr := hmap umem List.mem_cons_self
          have haddrDbr := hmap umemDbr (List.mem_cons_of_mem _ List.mem_cons_self)
          unfold QpOpen.placement Placement.Separate
          dsimp only
          rw [agrees_three_iff, external_separate_iff hR hS, hbytes]
          dsimp only
          rw [haddr, haddrDbr, BitVec.zero_add, BitVec.add_zero]
          constructor
          · rintro ⟨⟨hbase, hag, -⟩, hsep⟩
            have hzero : attr.externalUmemOffset = 0#64 := by
              rw [← BitVec.add_right_inj umem.address, hbase, BitVec.add_zero]
            rw [hzero, BitVec.add_zero] at hag hsep
            exact ⟨(sq_agrees_iff hrq rfl rfl rfl).1 hag, hzero, hsep⟩
          · rintro ⟨htold, hzero, hsep⟩
            rw [hzero, BitVec.add_zero]
            exact ⟨⟨rfl, (sq_agrees_iff hrq rfl rfl rfl).2 htold, rfl⟩, hsep⟩

theorem CqAttr.sound_iff {attr : CqAttr} {cq : CqOpen}
    (h : attr.create dev internal c = some cq)
    (hmap : ∀ u ∈ (Request.cq attr).umems internal, umemAddress u.id = u.address) :
    (cq.placement.Agrees umemAddress ∧ cq.placement.Separate) ↔ (Request.cq attr).Sound dev := by
  obtain ⟨hchecks, h⟩ := Option.ite_none_left_eq_some.1 h
  obtain rfl := Option.some.inj h
  rw [not_or, Bool.not_eq_false] at hchecks
  obtain ⟨k, hk⟩ := isPowerOfTwo_iff.1 hchecks.1
  have haddr := hmap _ List.mem_cons_self
  have halign : alignUpUint32 (attr.cqSize.toNat * 64 % 2 ^ 32) 64 =
      attr.cqSize.toNat * 64 % 2 ^ 32 :=
    alignUpUint32_of_dvd ((Nat.dvd_mod_iff (by decide)).2 (Nat.dvd_mul_left 64 _))
  have hdbr : dbrBytes = 8 := rfl
  have hlt := attr.cqSize.isLt
  unfold CqOpen.placement Placement.Separate Request.Sound
  dsimp only
  rw [agrees_two_iff, halign, List.pairwise_pair]
  dsimp only
  rw [haddr, BitVec.add_zero]
  refine ⟨fun hsep => ?_, fun hfit => ⟨⟨rfl, rfl⟩, ?_⟩⟩
  · by_contra hge
    have hpow : 2 ^ 32 ∣ attr.cqSize.toNat * 64 := by
      have hmul : 2 ^ k * 64 = 2 ^ (k + 6) := (Nat.pow_add 2 k 6).symm
      rw [hk, hmul] at hge ⊢
      apply Nat.pow_dvd_pow 2
      by_contra hlt
      exact hge (Nat.pow_lt_pow_right Nat.one_lt_two (by omega))
    rw [Nat.mod_eq_zero_of_dvd hpow] at hsep
    exact Region.not_apart_of_start_eq (BitVec.add_zero _).symm
      (show 0 < attr.cqSize.toNat * 64 by omega) (show 0 < dbrBytes by decide) hsep.2
  · rw [Nat.mod_eq_of_lt hfit]
    exact Region.apart_behind le_rfl (by omega)

theorem SrqAttr.sound {attr : SrqAttr} {srq : SrqOpen}
    (h : attr.create dev internal c = some srq)
    (hmap : ∀ u ∈ (Request.srq attr).umems internal, umemAddress u.id = u.address) :
    srq.placement.Agrees umemAddress ∧ srq.placement.Separate := by
  obtain ⟨hchecks, h⟩ := Option.ite_none_left_eq_some.1 h
  obtain rfl := Option.some.inj h
  have haddr := hmap _ List.mem_cons_self
  have hB : nextPow32 (attr.srqWr.toNat * attr.rcvWqeSize) / attr.rcvWqeSize * attr.rcvWqeSize ≤
      2 ^ 31 := (Nat.div_mul_le_self ..).trans (nextPow32_le _)
  obtain ⟨hle, hfit⟩ := le_alignUpUint32 hB
  unfold SrqOpen.placement Placement.Separate
  dsimp only
  generalize nextPow32 (attr.srqWr.toNat * attr.rcvWqeSize) / attr.rcvWqeSize * attr.rcvWqeSize = B
    at hB hle hfit ⊢
  rw [Nat.mod_eq_of_lt (hB.trans_lt (by decide)), agrees_two_iff, List.pairwise_pair]
  refine ⟨?_, Region.apart_behind hle (hfit.trans (by decide))⟩
  cases hu : attr.externalUmem with
  | none =>
    rw [hu] at haddr
    dsimp only [Option.getD_none] at haddr ⊢
    rw [haddr, BitVec.add_zero]
    exact ⟨rfl, rfl⟩
  | some umem =>
    rw [hu] at haddr
    dsimp only [Option.getD_some] at haddr ⊢
    rw [haddr, BitVec.add_assoc]
    exact ⟨rfl, rfl⟩

end Objects

/-- **Where device and software agree.** For every request that is accepted, with umems that the
device maps from their addresses on: it finds the queues and the doorbell record where the software
does, and no two of them meet, exactly if the request is sound. -/
theorem layout_iff {umemAddress : BitVec 32 → BitVec 64} {internal : Umem} {c : CreateCalls}
    {r : Request} {p : Placement} (h : r.create dev internal c = some p)
    (hmap : ∀ u ∈ r.umems internal, umemAddress u.id = u.address) :
    (p.Agrees umemAddress ∧ p.Separate) ↔ r.Sound dev := by
  cases r with
  | qp attr =>
    obtain ⟨qp, hqp, rfl⟩ := Option.map_eq_some_iff.1 h
    exact QpAttr.sound_iff hqp hmap
  | cq attr =>
    obtain ⟨cq, hcq, rfl⟩ := Option.map_eq_some_iff.1 h
    exact CqAttr.sound_iff hcq hmap
  | srq attr =>
    obtain ⟨srq, hsrq, rfl⟩ := Option.map_eq_some_iff.1 h
    exact iff_of_true (SrqAttr.sound hsrq hmap) trivial

/-- A device, and a QP of 64 send WQEs on umems of the caller. -/
def someDevice : DeviceAttr where
  maxQpWr := 32768
  maxCqe := 4194304
  maxSrqWr := 32768
  maxSrqSge := 31
  maxSqDescSize := 1024
  maxRqDescSize := 512
  maxSendWqebb := 32768
  sendDbrModeNoDbrExt := true

def qpAt (offset : BitVec 64) : QpAttr where
  rcType := true
  sendDbrModeNoDbrExt := false
  emulateNoDbrExt := false
  srq := false
  sqWr := 64#32
  rqWr := 0#32
  sendMaxSges := 1#32
  receiveMaxSges := 0#32
  maxInlineData := 0#32
  externalUmem := some ⟨1#32, 0x10000#64⟩
  externalUmemDbr := some ⟨2#32, 0x20000#64⟩
  externalUmemOffset := offset
  externalUmemDbrOffset := 0#64

/-- What the device has under the two ids. -/
def someUmems (id : BitVec 32) : BitVec 64 := if id = 1#32 then 0x10000#64 else 0x20000#64

/-- The same QP with 64 receive WQEs, on a umem of its own. -/
def qpInternal : QpAttr :=
  { qpAt 0#64 with
    rqWr := 64#32
    receiveMaxSges := 1#32
    externalUmem := none
    externalUmemDbr := none }

theorem qp_laid_out :
    ∃ p, (Request.qp qpInternal).create someDevice ⟨2#32, 0x20000#64⟩
      ⟨true, true, true, true⟩ = some p ∧ p.Agrees someUmems ∧ p.Separate := by
  have hsizes : rqSizes someDevice qpInternal = some ⟨64, 16, 4, 6, 0⟩ := by decide +kernel
  have htold : ∀ rq, rqSizes someDevice qpInternal = some rq → rq.Told := by
    intro rq hrq
    obtain rfl := Option.some.inj (hsizes.symm.trans hrq)
    exact fun _ => by decide
  have hbytes : qpInternal.wqBytes someDevice < 2 ^ 32 := by decide +kernel
  exact ⟨_, rfl, (@layout_iff someDevice _ ⟨2#32, 0x20000#64⟩ ⟨true, true, true, true⟩
    (.qp qpInternal) _ rfl (by decide)).2 ⟨htold, hbytes⟩⟩

/-- The offset of the work queue is in the pointers and not in the command. -/
theorem offset_dropped :
    ∃ p, (Request.qp (qpAt 0x1000#64)).create someDevice ⟨0#32, 0#64⟩ ⟨true, true, true, true⟩ =
        some p ∧
      (∀ u ∈ (Request.qp (qpAt 0x1000#64)).umems ⟨0#32, 0#64⟩, someUmems u.id = u.address) ∧
      ¬ p.Agrees someUmems := by
  refine ⟨_, rfl, by decide, ?_⟩
  unfold Placement.Agrees
  decide

end Gpunetio.Layout
