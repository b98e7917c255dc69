import Gpunetio.Lib.ByteMem
import Gpunetio.Wqe

/-!
# WQEs in memory

What the encoders leave in a slot of the WQ buffer, byte by byte. A segment is built in a local
variable and then stored as a whole; the fields that the code does not set are what the variable
held before. Words are those of a little-endian GPU.

* `SqWords`, `exportSqWords`: the words of a QP that are swapped in advance;
* `CtrlSeg`, `RaddrSeg`, `DataSeg`, `AtomicSeg`, `WaitSeg`: the segments and how they lie in memory;
* `wqePrepareNop`, …, `wqePrepareDump`: the encoders, with the second forms of the write and the
  read, the inline write and the extended atomics;
* `memcpyData`: the copy of the inline data.
-/

namespace Gpunetio.Wire

/-! ## The words of a queue pair -/

/-- The number of the SQ, and the words with it that WQEs begin with. -/
structure SqWords where
  sqNum : BitVec 32
  sqNumShift8 : BitVec 32
  sqNumShift8Be : BitVec 32
  sqNumShift8Be1ds : BitVec 32
  sqNumShift8Be2ds : BitVec 32
  sqNumShift8Be3ds : BitVec 32
  sqNumShift8Be4ds : BitVec 32
  sqNumShift8Be5ds : BitVec 32

/-- `doca_gpu_verbs_export_qp`; `htobe32` on a little-endian host. -/
def exportSqWords (sqNum : BitVec 32) : SqWords :=
  let sqNumShift8 := sqNum <<< 8
  { sqNum := sqNum
    sqNumShift8 := sqNumShift8
    sqNumShift8Be := bswap32 sqNumShift8
    sqNumShift8Be1ds := bswap32 (sqNumShift8 ||| 1#32)
    sqNumShift8Be2ds := bswap32 (sqNumShift8 ||| 2#32)
    sqNumShift8Be3ds := bswap32 (sqNumShift8 ||| 3#32)
    sqNumShift8Be4ds := bswap32 (sqNumShift8 ||| 4#32)
    sqNumShift8Be5ds := bswap32 (sqNumShift8 ||| 5#32) }

/-! ## Segments -/

/-- `doca_gpunetio_ib_mlx5_wqe_ctrl_seg`. -/
structure CtrlSeg where
  opmodIdxOpcode : BitVec 32
  qpnDs : BitVec 32
  signature : BitVec 8
  dciStreamChannelId : BitVec 16
  fmCeSe : BitVec 8
  imm : BitVec 32

/-- `doca_gpunetio_ib_mlx5_wqe_raddr_seg`. -/
structure RaddrSeg where
  raddr : BitVec 64
  rkey : BitVec 32
  reserved : BitVec 32

/-- `doca_gpunetio_ib_mlx5_wqe_data_seg`. -/
structure DataSeg where
  byteCount : BitVec 32
  lkey : BitVec 32
  addr : BitVec 64

/-- `doca_gpunetio_ib_mlx5_wqe_atomic_seg`. -/
structure AtomicSeg where
  swapAdd : BitVec 64
  compare : BitVec 64

/-- `doca_gpunetio_ib_mlx5_wqe_wait_seg`. -/
structure WaitSeg where
  resv : BitVec 64
  maxIndex : BitVec 32
  qpnCqn : BitVec 32

/-- `doca_gpu_dev_verbs_atomic_32_masked_fa_seg_t` and
`doca_gpu_dev_verbs_atomic_32_masked_cs_seg_t`: four words. -/
structure AtomicSeg32 where
  word0 : BitVec 32
  word1 : BitVec 32
  word2 : BitVec 32
  word3 : BitVec 32

section Store

variable (p : ℕ)

/-- The segment in memory, field by field; the other segments likewise. -/
def CtrlSeg.store (s : CtrlSeg) (m : ByteMem) : ByteMem :=
  ((((((m.store p s.opmodIdxOpcode).store (p + 4) s.qpnDs).store (p + 8) s.signature).store (p + 9)
    s.dciStreamChannelId).store (p + 11) s.fmCeSe).store (p + 12) s.imm)

def RaddrSeg.store (s : RaddrSeg) (m : ByteMem) : ByteMem :=
  ((m.store p s.raddr).store (p + 8) s.rkey).store (p + 12) s.reserved

def DataSeg.store (s : DataSeg) (m : ByteMem) : ByteMem :=
  ((m.store p s.byteCount).store (p + 4) s.lkey).store (p + 8) s.addr

def AtomicSeg.store (s : AtomicSeg) (m : ByteMem) : ByteMem :=
  (m.store p s.swapAdd).store (p + 8) s.compare

def WaitSeg.store (s : WaitSeg) (m : ByteMem) : ByteMem :=
  ((m.store p s.resv).store (p + 8) s.maxIndex).store (p + 12) s.qpnCqn

def AtomicSeg32.store (s : AtomicSeg32) (m : ByteMem) : ByteMem :=
  (((m.store p s.word0).store (p + 4) s.word1).store (p + 8) s.word2).store (p + 12) s.word3

end Store

/-- What the local variables of an encoder hold before it sets them. -/
structure Locals where
  cseg : CtrlSeg
  rseg : RaddrSeg
  wseg : WaitSeg
  aseg : AtomicSeg32

/-- What an encoder is called with, whatever it encodes: `DOCA_GPUNETIO_VERBS_MKEY_SWAPPED`, the
stack, the QP, the slot, and the arguments of the control segment. -/
structure Call where
  mkeySwapped : Bool
  locals : Locals
  qp : SqWords
  wqePtr : ℕ
  wqeIdx : BitVec 16
  ctrlFlags : BitVec 8

/-- A memory key as it is stored. -/
def Call.mkey (c : Call) (key : BitVec 32) : BitVec 32 :=
  if c.mkeySwapped then key else bswap32 key

/-! ## The encoders -/

section Encoders

variable (c : Call)

/-- `cseg`, without the immediate. -/
def Call.cseg (opcode qpnDs : BitVec 32) : CtrlSeg :=
  { c.locals.cseg with
    opmodIdxOpcode := bswap32 (c.wqeIdx.setWidth 32 <<< 8 ||| opcode)
    qpnDs := qpnDs
    fmCeSe := c.ctrlFlags }

/-- `rseg`. -/
def Call.rseg (raddr : VerbsAddr) : RaddrSeg :=
  { c.locals.rseg with raddr := bswap64 raddr.addr, rkey := c.mkey raddr.key }

/-- A `dseg`, its length masked. -/
def Call.dseg (laddr : VerbsAddr) (bytes : BitVec 32) : DataSeg :=
  { byteCount := bswap32 (bytes &&& (inlineSeg - 1#32))
    lkey := c.mkey laddr.key
    addr := bswap64 laddr.addr }

/-- A `dseg`, its length as it is. -/
def Call.dsegUnmasked (laddr : VerbsAddr) (bytes : BitVec 32) : DataSeg :=
  { byteCount := bswap32 bytes, lkey := c.mkey laddr.key, addr := bswap64 laddr.addr }

/-- `doca_gpu_dev_verbs_wqe_prepare_nop`. -/
def wqePrepareNop (m : ByteMem) : ByteMem :=
  (c.cseg opcodeNop c.qp.sqNumShift8Be1ds).store c.wqePtr m

/-- `doca_gpu_dev_verbs_wqe_prepare_write`, one data segment. -/
def wqePrepareWrite (opcode immediate : BitVec 32) (raddr laddr0 : VerbsAddr) (bytes0 : BitVec 32)
    (m : ByteMem) : ByteMem :=
  let cseg := { c.cseg opcode c.qp.sqNumShift8Be3ds with imm := immediate }
  (c.dseg laddr0 bytes0).store (c.wqePtr + 32)
    ((c.rseg raddr).store (c.wqePtr + 16) (cseg.store c.wqePtr m))

/-- `doca_gpu_dev_verbs_wqe_prepare_write`, two data segments. -/
def wqePrepareWrite2 (opcode immediate : BitVec 32) (raddr laddr0 : VerbsAddr) (bytes0 : BitVec 32)
    (laddr1 : VerbsAddr) (bytes1 : BitVec 32) (m : ByteMem) : ByteMem :=
  let cseg := { c.cseg opcode c.qp.sqNumShift8Be4ds with imm := immediate }
  (c.dseg laddr1 bytes1).store (c.wqePtr + 48) ((c.dseg laddr0 bytes0).store (c.wqePtr + 32)
    ((c.rseg raddr).store (c.wqePtr + 16) (cseg.store c.wqePtr m)))

/-- `doca_gpu_dev_verbs_prepare_inl_rdma_write_wqe_header`. -/
def prepareInlRdmaWriteWqeHeader (raddr : VerbsAddr) (bytes : BitVec 32) (m : ByteMem) : ByteMem :=
  let ds := if 16 - 4 < bytes.toNat then 4#32 else 3#32
  (c.rseg raddr).store (c.wqePtr + 16)
    ((c.cseg opcodeRdmaWrite (bswap32 (c.qp.sqNumShift8 ||| ds))).store c.wqePtr m)

/-- The loads of `doca_gpu_dev_verbs_prepare_inl_rdma_write_wqe_data<T>` from a value of `sizeof`
bytes, each an offset and a number of bytes: the whole value, or two words. -/
def inlDataLoads (sizeof : ℕ) : List (ℕ × ℕ) :=
  if sizeof ≤ 4 then [(0, sizeof)] else [(0, 4), (4, 4)]

/-- `doca_gpu_dev_verbs_prepare_inl_rdma_write_wqe_data<T>`; the value lies at `value` in `data`. -/
def prepareInlRdmaWriteWqeData (data : ByteMem) (value sizeof : ℕ) (m : ByteMem) : ByteMem :=
  (inlDataLoads sizeof).foldl
    (fun m l => m.store (c.wqePtr + 32 + 4 + l.1) (data.load (8 * l.2) (value + l.1)))
    (m.store (c.wqePtr + 32) (bswap32 (BitVec.ofNat 32 sizeof ||| inlineSeg)))

/-- The size of the next copy in `doca_gpu_dev_verbs_memcpy_data`. -/
def copiedSize (dst src remainingBytes : ℕ) : ℕ :=
  if dst % 8 = 0 ∧ src % 8 = 0 ∧ 8 ≤ remainingBytes then 8
  else if dst % 4 = 0 ∧ src % 4 = 0 ∧ 4 ≤ remainingBytes then 4
  else if dst % 2 = 0 ∧ src % 2 = 0 ∧ 2 ≤ remainingBytes then 2
  else 1

theorem copiedSize_spec (dst src : ℕ) {n : ℕ} (h : 0 < n) :
    0 < copiedSize dst src n ∧ copiedSize dst src n ≤ n := by
  unfold copiedSize
  split_ifs <;> omega

/-- `doca_gpu_dev_verbs_memcpy_data`, from another memory. -/
def memcpyData (data : ByteMem) (dst src bytes : ℕ) (m : ByteMem) : ByteMem :=
  if h : 0 < bytes then
    let n := copiedSize dst src bytes
    memcpyData data (dst + n) (src + n) (bytes - n) (m.store dst (data.load (8 * n) src))
  else m
termination_by bytes
decreasing_by
  have := copiedSize_spec dst src h
  omega

/-- `doca_gpu_dev_verbs_wqe_prepare_write_inl`; the data is not in the WQ buffer. -/
def wqePrepareWriteInl (data : ByteMem) (raddr : VerbsAddr) (laddr : ℕ) (bytes : BitVec 32)
    (m : ByteMem) : ByteMem :=
  memcpyData data (c.wqePtr + 32 + 4) laddr bytes.toNat
    ((prepareInlRdmaWriteWqeHeader c raddr bytes m).store (c.wqePtr + 32)
      (bswap32 (bytes ||| inlineSeg)))

/-- `doca_gpu_dev_verbs_wqe_prepare_read`, one data segment. -/
def wqePrepareRead (raddr laddr0 : VerbsAddr) (bytes0 : BitVec 32) (m : ByteMem) : ByteMem :=
  (c.dsegUnmasked laddr0 bytes0).store (c.wqePtr + 32) ((c.rseg raddr).store (c.wqePtr + 16)
    ((c.cseg opcodeRdmaRead c.qp.sqNumShift8Be3ds).store c.wqePtr m))

/-- `doca_gpu_dev_verbs_wqe_prepare_read`, two data segments. -/
def wqePrepareRead2 (raddr laddr0 : VerbsAddr) (bytes0 : BitVec 32) (laddr1 : VerbsAddr)
    (bytes1 : BitVec 32) (m : ByteMem) : ByteMem :=
  (c.dseg laddr1 bytes1).store (c.wqePtr + 48) ((c.dseg laddr0 bytes0).store (c.wqePtr + 32)
    ((c.rseg raddr).store (c.wqePtr + 16)
      ((c.cseg opcodeRdmaRead (bswap32 (c.qp.sqNumShift8 ||| 4#32))).store c.wqePtr m)))

/-- `doca_gpu_dev_verbs_wqe_prepare_atomic`. -/
def wqePrepareAtomic (opcode : BitVec 32) (raddr laddr : VerbsAddr) (bytes : BitVec 32)
    (compareAdd swapAdd : BitVec 64) (m : ByteMem) : ByteMem :=
  let atseg : AtomicSeg :=
    { swapAdd := bswap64 (if opcode = opcodeAtomicFa then compareAdd else swapAdd)
      compare := bswap64 compareAdd }
  (c.dsegUnmasked laddr bytes).store (c.wqePtr + 48) (atseg.store (c.wqePtr + 32)
    ((c.rseg raddr).store (c.wqePtr + 16)
      ((c.cseg opcode c.qp.sqNumShift8Be4ds).store c.wqePtr m)))

/-- `doca_gpu_dev_verbs_wqe_prepare_wait`. -/
def wqePrepareWait (maxIndex qpnCqn : BitVec 32) (m : ByteMem) : ByteMem :=
  let wseg := { c.locals.wseg with maxIndex := bswap32 maxIndex, qpnCqn := bswap32 qpnCqn }
  wseg.store (c.wqePtr + 16)
    ((c.cseg opcodeWait (bswap32 (c.qp.sqNumShift8 ||| 2#32))).store c.wqePtr m)

/-- `doca_gpu_dev_verbs_wqe_prepare_dump`. -/
def wqePrepareDump (laddr : VerbsAddr) (bytes : BitVec 32) (m : ByteMem) : ByteMem :=
  (c.dsegUnmasked laddr bytes).store (c.wqePtr + 16)
    ((c.cseg opcodeDump c.qp.sqNumShift8Be2ds).store c.wqePtr m)

end Encoders

/-! ## Extended atomics -/

/-- `DOCA_GPUNETIO_IB_MLX5_OPCODE_ATOMIC_MASKED_CS`. -/
def opcodeAtomicMaskedCs : BitVec 32 := 0x14#32

/-- `DOCA_GPUNETIO_IB_MLX5_OPCODE_ATOMIC_MASKED_FA`. -/
def opcodeAtomicMaskedFa : BitVec 32 := 0x15#32

/-- `DOCA_GPUNETIO_4_BYTE_ATOMIC_EXT_OPMOD`. -/
def opmodAtomicExt4 : BitVec 32 := 0x08000000#32

/-- `DOCA_GPUNETIO_8_BYTE_ATOMIC_EXT_OPMOD`. -/
def opmodAtomicExt8 : BitVec 32 := 0x09000000#32

/-- The masked opcodes, with the operands that each one uses. -/
inductive AtomicExt
  | maskedFa (addData fieldBoundary : BitVec 64)
  | maskedCs (swapData compareData swapMask compareMask : BitVec 64)

/-- `doca_gpu_dev_verbs_atomic_ext_bytes`. -/
inductive AtomicExtBytes
  | four
  | eight
deriving DecidableEq, Repr

/-- A control segment that is zero but for the fields set. -/
def Call.csegExt (c : Call) (opcode opmod qpnDs : BitVec 32) : CtrlSeg :=
  { opmodIdxOpcode := bswap32 (opcode ||| c.wqeIdx.setWidth 32 <<< 8 ||| opmod)
    qpnDs := qpnDs
    signature := 0
    dciStreamChannelId := 0
    fmCeSe := c.ctrlFlags
    imm := 0 }

/-- `doca_gpu_dev_verbs_wqe_prepare_atomic_ext`, whose WQE goes on in a second slot at `wqePtr1` if
it has a fifth segment. -/
def wqePrepareAtomicExt (c : Call) (wqePtr1 : ℕ) (bytes : AtomicExtBytes) (op : AtomicExt)
    (raddr laddr : VerbsAddr) (m : ByteMem) : ByteMem :=
  let rseg := c.rseg raddr
  match op, bytes with
  | .maskedFa addData fieldBoundary, .four =>
    let cseg := c.csegExt opcodeAtomicMaskedFa opmodAtomicExt4 c.qp.sqNumShift8Be4ds
    let aseg := { c.locals.aseg with
      word0 := bswap32 (addData.setWidth 32), word1 := fieldBoundary.setWidth 32 }
    (c.dsegUnmasked laddr 4#32).store (c.wqePtr + 48) (aseg.store (c.wqePtr + 32)
      (rseg.store (c.wqePtr + 16) (cseg.store c.wqePtr m)))
  | .maskedFa addData fieldBoundary, .eight =>
    let cseg := c.csegExt opcodeAtomicMaskedFa opmodAtomicExt8 c.qp.sqNumShift8Be4ds
    let aseg : AtomicSeg := { swapAdd := bswap64 addData, compare := fieldBoundary }
    (c.dsegUnmasked laddr 8#32).store (c.wqePtr + 48) (aseg.store (c.wqePtr + 32)
      (rseg.store (c.wqePtr + 16) (cseg.store c.wqePtr m)))
  | .maskedCs swapData compareData swapMask compareMask, .four =>
    let cseg := c.csegExt opcodeAtomicMaskedCs opmodAtomicExt4 c.qp.sqNumShift8Be4ds
    let aseg : AtomicSeg32 :=
      { word0 := bswap32 (swapData.setWidth 32)
        word1 := compareData.setWidth 32
        word2 := bswap32 (swapMask.setWidth 32)
        word3 := compareMask.setWidth 32 }
    (c.dsegUnmasked laddr 4#32).store (c.wqePtr + 48) (aseg.store (c.wqePtr + 32)
      (rseg.store (c.wqePtr + 16) (cseg.store c.wqePtr m)))
  | .maskedCs swapData compareData swapMask compareMask, .eight =>
    let cseg := c.csegExt opcodeAtomicMaskedCs opmodAtomicExt8 c.qp.sqNumShift8Be5ds
    let aseg1 : AtomicSeg := { swapAdd := bswap64 swapData, compare := compareData }
    let aseg2 : AtomicSeg := { swapAdd := bswap64 swapMask, compare := compareMask }
    (c.dsegUnmasked laddr 8#32).store wqePtr1 (aseg2.store (c.wqePtr + 48)
      (aseg1.store (c.wqePtr + 32) (rseg.store (c.wqePtr + 16) (cseg.store c.wqePtr m))))

end Gpunetio.Wire
