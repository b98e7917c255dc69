import Gpunetio.Word

/-!
# Work queue entries

The WQEs the one-sided operations write, as the list of segments they store, in the order of the
stores. A segment holds the fields the code sets; what it leaves of the stack in the others is left
out (`imm` is set by one kind of WQE and optional). All words are as stored, in big-endian order.

* `QpConst`: the constants of a QP that WQEs carry;
* `Seg`, `Wqe`;
* `wqePrepareNop`, `wqePrepareWrite`, `prepareInlRdmaWriteWqe`, `wqePrepareRead`,
  `wqePrepareAtomic`, `wqePrepareWait`, `wqePrepareDump`;
* `waitIndex`: the CQ index a WAIT names.
-/

namespace Gpunetio

/-- `sq_num` of a QP and `cq_num` of its CQ. -/
structure QpConst where
  sqNum : BitVec 32
  cqNum : BitVec 32
deriving DecidableEq, Repr

/-- `sq_num_shift8`. -/
def QpConst.sqNumShift8 (qp : QpConst) : BitVec 32 := qp.sqNum <<< 8

/-- `sq_num_shift8_be`, `sq_num_shift8_be_1ds` and so on: the number of segments in the low byte. -/
def QpConst.qpnDs (qp : QpConst) (ds : BitVec 32) : BitVec 32 := bswap32 (qp.sqNumShift8 ||| ds)

/-- `doca_gpu_dev_verbs_addr`. -/
structure VerbsAddr where
  addr : BitVec 64
  key : BitVec 32
deriving DecidableEq, Repr

/-- One 16-byte segment. -/
inductive Seg
  | ctrl (opmodIdxOpcode qpnDs : BitVec 32) (fmCeSe : BitVec 8) (imm : Option (BitVec 32))
  | raddr (raddr : BitVec 64) (rkey : BitVec 32)
  | data (byteCount lkey : BitVec 32) (addr : BitVec 64)
  | atomic (swapAdd compare : BitVec 64)
  | wait (maxIndex qpnCqn : BitVec 32)
  | inl (byteCount : BitVec 32) (data : List (BitVec 8))
deriving DecidableEq, Repr

/-- The segments of a WQE. -/
abbrev Wqe := List Seg

/-- `DOCA_GPUNETIO_IB_MLX5_OPCODE_NOP`. -/
def opcodeNop : BitVec 32 := 0x00#32

/-- `DOCA_GPUNETIO_IB_MLX5_OPCODE_RDMA_WRITE`. -/
def opcodeRdmaWrite : BitVec 32 := 0x08#32

/-- `DOCA_GPUNETIO_IB_MLX5_OPCODE_RDMA_READ`. -/
def opcodeRdmaRead : BitVec 32 := 0x10#32

/-- `DOCA_GPUNETIO_IB_MLX5_OPCODE_ATOMIC_FA`. -/
def opcodeAtomicFa : BitVec 32 := 0x12#32

/-- `DOCA_GPUNETIO_IB_MLX5_OPCODE_WAIT`. -/
def opcodeWait : BitVec 32 := 0x0f#32

/-- `DOCA_GPUNETIO_IB_MLX5_OPCODE_DUMP`. -/
def opcodeDump : BitVec 32 := 0x23#32

/-- `DOCA_GPUNETIO_IB_MLX5_WQE_CTRL_CQ_UPDATE`. -/
def ctrlCqUpdate : BitVec 8 := 2#8 <<< 2

/-- `DOCA_GPUNETIO_IB_MLX5_INLINE_SEG`. -/
def inlineSeg : BitVec 32 := 0x80000000#32

/-- `((uint32_t)wqe_idx << 8) | opcode`, in big-endian order; the index is a 16-bit parameter. -/
def opmodIdxOpcode (wqeIdx : ℕ) (opcode : BitVec 32) : BitVec 32 :=
  bswap32 ((BitVec.ofNat 16 wqeIdx).setWidth 32 <<< 8 ||| opcode)

/-- `doca_gpu_dev_verbs_wqe_prepare_nop`. -/
def wqePrepareNop (qp : QpConst) (wqeIdx : ℕ) (ctrlFlags : BitVec 8) : Wqe :=
  [.ctrl (opmodIdxOpcode wqeIdx opcodeNop) (qp.qpnDs 1#32) ctrlFlags none]

/-- `doca_gpu_dev_verbs_wqe_prepare_write`, one data segment. -/
def wqePrepareWrite (qp : QpConst) (wqeIdx : ℕ) (opcode : BitVec 32) (ctrlFlags : BitVec 8)
    (immediate : BitVec 32) (raddr laddr0 : VerbsAddr) (bytes0 : BitVec 32) : Wqe :=
  [.ctrl (opmodIdxOpcode wqeIdx opcode) (qp.qpnDs 3#32) ctrlFlags (some immediate),
   .raddr (bswap64 raddr.addr) raddr.key,
   .data (bswap32 (bytes0 &&& (inlineSeg - 1#32))) laddr0.key (bswap64 laddr0.addr)]

/-- `doca_gpu_dev_verbs_prepare_inl_rdma_write_wqe_header`, then
`doca_gpu_dev_verbs_prepare_inl_rdma_write_wqe_data`: a value of at most four bytes is stored whole,
of a longer one the first two words. -/
def prepareInlRdmaWriteWqe (qp : QpConst) (wqeIdx : ℕ) (ctrlFlags : BitVec 8) (raddr : VerbsAddr)
    (value : List (BitVec 8)) : Wqe :=
  [.ctrl (opmodIdxOpcode wqeIdx opcodeRdmaWrite)
    (qp.qpnDs (if 16 - 4 < value.length then 4#32 else 3#32)) ctrlFlags none,
   .raddr (bswap64 raddr.addr) raddr.key,
   .inl (bswap32 (BitVec.ofNat 32 value.length ||| inlineSeg))
    (if value.length ≤ 4 then value else value.take 8)]

/-- `doca_gpu_dev_verbs_wqe_prepare_read`, one data segment. -/
def wqePrepareRead (qp : QpConst) (wqeIdx : ℕ) (ctrlFlags : BitVec 8) (raddr laddr0 : VerbsAddr)
    (bytes0 : BitVec 32) : Wqe :=
  [.ctrl (opmodIdxOpcode wqeIdx opcodeRdmaRead) (qp.qpnDs 3#32) ctrlFlags none,
   .raddr (bswap64 raddr.addr) raddr.key,
   .data (bswap32 bytes0) laddr0.key (bswap64 laddr0.addr)]

/-- `doca_gpu_dev_verbs_wqe_prepare_atomic`. -/
def wqePrepareAtomic (qp : QpConst) (wqeIdx : ℕ) (opcode : BitVec 32) (ctrlFlags : BitVec 8)
    (raddr laddr : VerbsAddr) (bytes : BitVec 32) (compareAdd swapAdd : BitVec 64) : Wqe :=
  [.ctrl (opmodIdxOpcode wqeIdx opcode) (qp.qpnDs 4#32) ctrlFlags none,
   .raddr (bswap64 raddr.addr) raddr.key,
   .atomic (bswap64 (if opcode = opcodeAtomicFa then compareAdd else swapAdd))
    (bswap64 compareAdd),
   .data (bswap32 bytes) laddr.key (bswap64 laddr.addr)]

/-- `doca_gpu_dev_verbs_wqe_prepare_wait`; the index is a 32-bit parameter. -/
def wqePrepareWait (qp : QpConst) (wqeIdx : ℕ) (ctrlFlags : BitVec 8) (maxIndex : ℕ)
    (qpnCqn : BitVec 32) : Wqe :=
  [.ctrl (opmodIdxOpcode wqeIdx opcodeWait) (qp.qpnDs 2#32) ctrlFlags none,
   .wait (bswap32 (BitVec.ofNat 32 maxIndex)) (bswap32 qpnCqn)]

/-- `doca_gpu_dev_verbs_wqe_prepare_dump`. -/
def wqePrepareDump (qp : QpConst) (wqeIdx : ℕ) (ctrlFlags : BitVec 8) (laddr : VerbsAddr)
    (bytes : BitVec 32) : Wqe :=
  [.ctrl (opmodIdxOpcode wqeIdx opcodeDump) (qp.qpnDs 2#32) ctrlFlags none,
   .data (bswap32 bytes) laddr.key (bswap64 laddr.addr)]

/-- The CQ number and the CQ index a WAIT holds the queue for. -/
def waitIndex : Wqe → Option (BitVec 32 × ℕ)
  | [.ctrl .., .wait maxIndex qpnCqn] => some (bswap32 qpnCqn, (bswap32 maxIndex).toNat)
  | _ => none

theorem waitIndex_wqePrepareWait (qp : QpConst) (wqeIdx : ℕ) (ctrlFlags : BitVec 8) (maxIndex : ℕ)
    (qpnCqn : BitVec 32) :
    waitIndex (wqePrepareWait qp wqeIdx ctrlFlags maxIndex qpnCqn) =
      some (qpnCqn, maxIndex % 2 ^ 32) := by
  simp only [waitIndex, wqePrepareWait, bswap32_bswap32, BitVec.toNat_ofNat]

end Gpunetio
