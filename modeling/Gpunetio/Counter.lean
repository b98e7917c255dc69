import Gpunetio.Reset
import Gpunetio.Wqe

/-!
# Counter operations

A counter operation posts its WQEs on the main QP, and on the companion QP a WAIT for the last of
them followed by a fetch-and-add of the remote counter. The WAIT names an entry of the main QP's CQ
by its running index; a software poll for the same WQE computes that index from `cqe_rsvd`.

* `CounterOp`, `mainWqes`, `lastWqeIdx`, `companionWqes`: the five operations;
* `length_mainWqes`: each writes as many WQEs as it reserves;
* **`counter_wait_iff`**: when the WAIT names the entry a poll would wait for.
-/

namespace Gpunetio

open Transition

/-- `DOCA_GPUNETIO_VERBS_MAX_TRANSFER_SIZE_SHIFT`. -/
def maxTransferSizeShift : ℕ := 30

/-- `DOCA_GPUNETIO_VERBS_MAX_TRANSFER_SIZE`. -/
def maxTransferSize : ℕ := 2 ^ maxTransferSizeShift

/-- `doca_gpu_dev_verbs_div_ceil_aligned_pow2`. -/
def divCeilAlignedPow2 (x : BitVec 64) (denominatorShift : ℕ) : BitVec 64 :=
  let y := 1#64 <<< denominatorShift
  ((x &&& ~~~(y - 1#64)) >>> denominatorShift) + if x &&& (y - 1#64) ≠ 0#64 then 1#64 else 0#64

/-- `num_chunks`. -/
def numChunks (size : BitVec 64) : ℕ := max (divCeilAlignedPow2 size maxTransferSizeShift).toNat 1

/-- The operations, with the arguments that differ. -/
inductive CounterOp
  | putCounter (raddr laddr : VerbsAddr) (size : BitVec 64)
  | pCounter (raddr : VerbsAddr) (value : List (BitVec 8))
  | putSignalCounter (raddr laddr : VerbsAddr) (size : BitVec 64) (sigRaddr sigLaddr : VerbsAddr)
      (sigVal : BitVec 64)
  | signalCounter (sigRaddr sigLaddr : VerbsAddr) (sigVal : BitVec 64)
  | getCounter (raddr laddr : VerbsAddr) (size : BitVec 64)
deriving DecidableEq, Repr

/-- The remote counter. -/
structure CounterArgs where
  counterRaddr : VerbsAddr
  counterLaddr : VerbsAddr
  counterVal : BitVec 64
deriving DecidableEq, Repr

/-- The address of a chunk. -/
def VerbsAddr.chunk (a : VerbsAddr) (i : ℕ) : VerbsAddr :=
  { a with addr := a.addr + BitVec.ofNat 64 (i * maxTransferSize) }

/-- The loop over the chunks, from chunk `i` on: `prepare` for a chunk with data in it, else a NOP.
-/
def chunkWqes (qp : QpConst) (prepare : ℕ → ℕ → BitVec 32 → Wqe) (base : ℕ) :
    ℕ → ℕ → ℕ → List Wqe
  | 0, _, _ => []
  | n + 1, i, remaining =>
    let size := if maxTransferSize < remaining then maxTransferSize else remaining
    (if 0 < size then prepare (base + i) i (BitVec.ofNat 32 size)
      else wqePrepareNop qp (base + i) ctrlCqUpdate) ::
      chunkWqes qp prepare base n (i + 1) (remaining - size)

/-- The WQEs of a put. -/
def putWqes (qp : QpConst) (raddr laddr : VerbsAddr) (size : BitVec 64) (base : ℕ) : List Wqe :=
  chunkWqes qp
    (fun wqeIdx i bytes => wqePrepareWrite qp wqeIdx opcodeRdmaWrite ctrlCqUpdate 0#32
      (raddr.chunk i) (laddr.chunk i) bytes)
    base (numChunks size) 0 size.toNat

/-- The WQEs of a get. -/
def getWqes (qp : QpConst) (raddr laddr : VerbsAddr) (size : BitVec 64) (base : ℕ) : List Wqe :=
  chunkWqes qp
    (fun wqeIdx i bytes => wqePrepareRead qp wqeIdx ctrlCqUpdate (raddr.chunk i) (laddr.chunk i)
      bytes)
    base (numChunks size) 0 size.toNat

/-- The fetch-and-add of a signal or of a counter. -/
def faWqe (qp : QpConst) (wqeIdx : ℕ) (raddr laddr : VerbsAddr) (val : BitVec 64) : Wqe :=
  wqePrepareAtomic qp wqeIdx opcodeAtomicFa ctrlCqUpdate raddr laddr 8#32 val 0#64

namespace CounterOp

/-- The slots reserved on the main QP. -/
def mainCount : CounterOp → ℕ
  | putCounter _ _ size => numChunks size
  | pCounter _ _ => 1
  | putSignalCounter _ _ size _ _ _ => numChunks size + 1
  | signalCounter _ _ _ => 1
  | getCounter _ _ size => numChunks size

/-- The WQEs written on the main QP from `base` on. -/
def mainWqes (qp : QpConst) (base : ℕ) : CounterOp → List Wqe
  | putCounter raddr laddr size => putWqes qp raddr laddr size base
  | pCounter raddr value => [prepareInlRdmaWriteWqe qp base ctrlCqUpdate raddr value]
  | putSignalCounter raddr laddr size sigRaddr sigLaddr sigVal =>
    putWqes qp raddr laddr size base ++
      [faWqe qp (base + numChunks size) sigRaddr sigLaddr sigVal]
  | signalCounter sigRaddr sigLaddr sigVal => [faWqe qp base sigRaddr sigLaddr sigVal]
  | getCounter raddr laddr size => getWqes qp raddr laddr size base

/-- `wqe_idx` once the main QP's WQEs are written. -/
def lastWqeIdx (base : ℕ) : CounterOp → ℕ
  | putCounter _ _ size => base + (numChunks size - 1)
  | pCounter _ _ => base
  | putSignalCounter _ _ size _ _ _ => base + (numChunks size - 1) + 1
  | signalCounter _ _ _ => base
  | getCounter _ _ size => base + (numChunks size - 1)

/-- The WQEs written on the companion QP from `companionBase` on. -/
def companionWqes (qp companion : QpConst) (args : CounterArgs) (base companionBase : ℕ)
    (op : CounterOp) : List Wqe :=
  [wqePrepareWait companion companionBase ctrlCqUpdate (op.lastWqeIdx base) qp.cqNum,
   faWqe companion (companionBase + 1) args.counterRaddr args.counterLaddr args.counterVal]

end CounterOp

theorem length_chunkWqes (qp : QpConst) (prepare : ℕ → ℕ → BitVec 32 → Wqe)
    (base n i remaining : ℕ) :
    (chunkWqes qp prepare base n i remaining).length = n := by
  induction n generalizing i remaining with
  | zero => rfl
  | succ n ih => simp only [chunkWqes, List.length_cons, ih]

theorem CounterOp.length_mainWqes (qp : QpConst) (base : ℕ) (op : CounterOp) :
    (op.mainWqes qp base).length = op.mainCount := by
  cases op <;> simp [mainWqes, mainCount, putWqes, getWqes, length_chunkWqes]

/-- The last index is that of the last slot reserved. -/
theorem CounterOp.lastWqeIdx_add_one (base : ℕ) (op : CounterOp) :
    op.lastWqeIdx base + 1 = base + op.mainCount := by
  have hpos : ∀ size, 1 ≤ numChunks size := fun size => le_max_right _ _
  cases op with
  | putCounter _ _ size => have := hpos size; simp only [lastWqeIdx, mainCount]; omega
  | putSignalCounter _ _ size => have := hpos size; simp only [lastWqeIdx, mainCount]; omega
  | getCounter _ _ size => have := hpos size; simp only [lastWqeIdx, mainCount]; omega
  | pCounter => rfl
  | signalCounter => rfl

/-- **The WAIT and a poll name the same CQ entry** exactly while `cqe_rsvd` is a multiple of
`2 ^ 32`, such as before the first reset: whatever sessions and resets of the main QP led to `s`,
for every operation at every index. -/
theorem counter_wait_iff (s : Posting) (op : CounterOp) (args : CounterArgs)
    (qp companion : QpConst) (base companionBase : ℕ) :
    (op.companionWqes qp companion args base companionBase).head?.bind waitIndex =
        some (qp.cqNum,
          consIndexInCq ⟨s.qp.cqeNum, s.qp.qpGpu.cqeRsvd⟩ (op.lastWqeIdx base) % 2 ^ 32) ↔
      s.qp.qpGpu.cqeRsvd % 2 ^ 32 = 0 := by
  simp only [CounterOp.companionWqes, List.head?_cons, Option.bind_some, waitIndex_wqePrepareWait,
    consIndexInCq, Option.some.injEq, Prod.mk.injEq, true_and]
  omega

/-- After one session of one WQE and a reset, the WAIT of a signal at index `0` names entry `0`,
which the session before has produced; a poll for index `0` waits for entry `1`. -/
theorem signalCounter_waits_for_old :
    ∃ s, Reachable Posting.Init (Posting.Step fun _ _ => True) s ∧ s.produced = 1 ∧
      ((CounterOp.signalCounter ⟨0#64, 0#32⟩ ⟨0#64, 0#32⟩ 1#64).companionWqes ⟨7#32, 9#32⟩
        ⟨8#32, 10#32⟩ ⟨⟨0#64, 0#32⟩, ⟨0#64, 0#32⟩, 1#64⟩ 0 0).head?.bind waitIndex =
          some (9#32, 0) ∧
      consIndexInCq ⟨s.qp.cqeNum, s.qp.qpGpu.cqeRsvd⟩ 0 % 2 ^ 32 = 1 := by
  have h : Reachable Posting.Init (Posting.Step fun _ _ => True) Posting.fresh :=
    .start Posting.init_fresh
  have hreset := ((h.next (.reserve 1)).next (.produce zeroCqe (by decide))).next
    (.reset none trivial rfl)
  exact ⟨_, hreset, rfl, by decide, rfl⟩

end Gpunetio
