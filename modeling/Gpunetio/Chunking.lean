import Gpunetio.Ceil
import Gpunetio.Lib.Tiling

/-!
# Chunks of a transfer

A put or get of any size is cut into WQEs of at most 1 GiB. The six operations that do so share the
shape of one loop, but count the chunks in two ways, in 32 or 64 bits, and three of them write one
more WQE after the loop. Here they are written with the variables of the source: `wqe_idx` is set in
the loop and used after it.

* `LoopState`, `chunkStep`, `chunkLoop`: the loop;
* `Posted`, `ChunkedOp`, `ChunkedOp.post`: what an operation reserves, writes, marks and submits;
* `Transfer`, `transferOf`: a data WQE as the NIC decodes it;
* `Posted.Exact`: as many WQEs as slots, one after the other, whose transfers tile the two ranges;
* `post_wqes`: the WQEs are those of the plans of `OneSided` and `Counter`;
* **`post_exact`**: all six operations, at every index and for every size.
-/

namespace Gpunetio.Chunking

open Tiling

/-! ## The loop -/

/-- `wqe_idx`, `remaining_size` and the WQEs written so far. -/
structure LoopState where
  wqeIdx : BitVec 64
  remainingSize : BitVec 64
  written : List (BitVec 64 × Wqe)

/-- The body of the loop; `prepare` writes a chunk that is not empty. -/
def chunkStep (qp : QpConst) (prepare : BitVec 64 → ℕ → BitVec 32 → Wqe) (base : BitVec 64)
    (st : LoopState) (i : ℕ) : LoopState :=
  let wqeIdx := base + BitVec.ofNat 64 i
  let size := if maxTransferSize < st.remainingSize.toNat then BitVec.ofNat 64 maxTransferSize
    else st.remainingSize
  let wqe := if 0 < size.toNat then prepare wqeIdx i (size.setWidth 32)
    else wqePrepareNop qp wqeIdx.toNat ctrlCqUpdate
  { wqeIdx := wqeIdx
    remainingSize := st.remainingSize - size
    written := st.written ++ [(wqeIdx, wqe)] }

/-- `for (i = 0; i < num_chunks; i++)`; there is a first chunk, so `wqe_idx` needs no value before.
-/
def chunkLoop (qp : QpConst) (prepare : BitVec 64 → ℕ → BitVec 32 → Wqe) (base size : BitVec 64)
    (numChunks : ℕ) : LoopState :=
  (List.range numChunks).foldl (chunkStep qp prepare base)
    { wqeIdx := 0, remainingSize := size, written := [] }

/-! ## The operations -/

/-- What an operation does to its (main) QP: the slots reserved from `base` on, the WQEs in the
order they are written, the range marked ready, the index submitted and the ticket returned. -/
structure Posted where
  base : BitVec 64
  reserved : BitVec 32
  written : List (BitVec 64 × Wqe)
  readyFrom : BitVec 64
  readyTo : BitVec 64
  prodIndex : BitVec 64
  ticket : Option (BitVec 64)

/-- The write of a chunk. -/
def prepareWrite (qp : QpConst) (raddr laddr : VerbsAddr) (wqeIdx : BitVec 64) (i : ℕ)
    (bytes : BitVec 32) : Wqe :=
  wqePrepareWrite qp wqeIdx.toNat opcodeRdmaWrite ctrlCqUpdate 0#32 (raddr.chunk i) (laddr.chunk i)
    bytes

/-- The read of a chunk. -/
def prepareRead (qp : QpConst) (raddr laddr : VerbsAddr) (wqeIdx : BitVec 64) (i : ℕ)
    (bytes : BitVec 32) : Wqe :=
  wqePrepareRead qp wqeIdx.toNat ctrlCqUpdate (raddr.chunk i) (laddr.chunk i) bytes

/-- `num_chunks` of the thread operations. -/
def threadChunks (size : BitVec 64) : BitVec 32 :=
  let numChunks := divCeilAlignedPow2Bits32 size maxTransferSizeShift
  if 1 < numChunks.toNat then numChunks else 1

/-- `num_chunks` of the get operation, with the other comparison. -/
def getChunks (size : BitVec 64) : BitVec 32 :=
  let numChunks := divCeilAlignedPow2Bits32 size maxTransferSizeShift
  if 0 < numChunks.toNat then numChunks else 1

/-- `num_chunks` of the counter operations. -/
def counterChunks (size : BitVec 64) : BitVec 64 :=
  let numChunks := divCeilAlignedPow2 size maxTransferSizeShift
  if 1 < numChunks.toNat then numChunks else 1

/-- The arguments that all six operations have. -/
structure ChunkArgs where
  raddr : VerbsAddr
  laddr : VerbsAddr
  size : BitVec 64

/-- A remote counter to signal. -/
structure SignalArgs where
  sigRaddr : VerbsAddr
  sigLaddr : VerbsAddr
  sigVal : BitVec 64

variable (qp : QpConst) (base : BitVec 64) (args : ChunkArgs)

/-- The fetch-and-add of a signal. -/
def signalWqe (sig : SignalArgs) (wqeIdx : BitVec 64) : Wqe :=
  faWqe qp wqeIdx.toNat sig.sigRaddr sig.sigLaddr sig.sigVal

/-- The dump after a get. -/
def dumpWqe (daddr : VerbsAddr) (wqeIdx : BitVec 64) : Wqe :=
  wqePrepareDump qp wqeIdx.toNat ctrlCqUpdate daddr 1#32

/-- `doca_gpu_dev_verbs_put_thread`. -/
def putThread : Posted :=
  let numChunks := threadChunks args.size
  let st := chunkLoop qp (prepareWrite qp args.raddr args.laddr) base args.size numChunks.toNat
  { base := base, reserved := numChunks, written := st.written, readyFrom := base
    readyTo := st.wqeIdx, prodIndex := st.wqeIdx + 1, ticket := some st.wqeIdx }

/-- `doca_gpu_dev_verbs_put_signal_thread`. -/
def putSignalThread (sig : SignalArgs) : Posted :=
  let numChunks := threadChunks args.size
  let st := chunkLoop qp (prepareWrite qp args.raddr args.laddr) base args.size numChunks.toNat
  let wqeIdx := st.wqeIdx + 1
  { base := base, reserved := numChunks + 1
    written := st.written ++ [(wqeIdx, signalWqe qp sig wqeIdx)]
    readyFrom := base, readyTo := wqeIdx, prodIndex := wqeIdx + 1, ticket := some wqeIdx }

/-- `doca_gpu_dev_verbs_get_thread`; `mcst` is `daddr` if `mcst_mode` is enabled. -/
def getThread (mcst : Option VerbsAddr) : Posted :=
  let numChunks := getChunks args.size
  let st := chunkLoop qp (prepareRead qp args.raddr args.laddr) base args.size numChunks.toNat
  match mcst with
  | some daddr =>
    let wqeIdx := base + numChunks.setWidth 64
    { base := base, reserved := numChunks + 1
      written := st.written ++ [(wqeIdx, dumpWqe qp daddr wqeIdx)]
      readyFrom := base, readyTo := wqeIdx, prodIndex := wqeIdx + 1, ticket := some wqeIdx }
  | none =>
    { base := base, reserved := numChunks, written := st.written, readyFrom := base
      readyTo := st.wqeIdx, prodIndex := st.wqeIdx + 1, ticket := some st.wqeIdx }

/-- `doca_gpu_dev_verbs_put_counter`, on the main QP; the count is cut to a 32-bit parameter. -/
def putCounter : Posted :=
  let numChunks := counterChunks args.size
  let st := chunkLoop qp (prepareWrite qp args.raddr args.laddr) base args.size numChunks.toNat
  { base := base, reserved := numChunks.setWidth 32, written := st.written, readyFrom := base
    readyTo := st.wqeIdx, prodIndex := st.wqeIdx + 1, ticket := none }

/-- `doca_gpu_dev_verbs_put_signal_counter`, on the main QP. -/
def putSignalCounter (sig : SignalArgs) : Posted :=
  let numChunks := counterChunks args.size
  let st := chunkLoop qp (prepareWrite qp args.raddr args.laddr) base args.size numChunks.toNat
  let wqeIdx := st.wqeIdx + 1
  { base := base, reserved := (numChunks + 1).setWidth 32
    written := st.written ++ [(wqeIdx, signalWqe qp sig wqeIdx)]
    readyFrom := base, readyTo := wqeIdx, prodIndex := wqeIdx + 1, ticket := none }

/-- `doca_gpu_dev_verbs_get_counter`, on the main QP. -/
def getCounter : Posted :=
  let numChunks := counterChunks args.size
  let st := chunkLoop qp (prepareRead qp args.raddr args.laddr) base args.size numChunks.toNat
  { base := base, reserved := numChunks.setWidth 32, written := st.written, readyFrom := base
    readyTo := st.wqeIdx, prodIndex := st.wqeIdx + 1, ticket := none }

/-- The six operations that cut a transfer into chunks. -/
inductive ChunkedOp
  | putThread
  | putSignalThread (sig : SignalArgs)
  | getThread (mcst : Option VerbsAddr)
  | putCounter
  | putSignalCounter (sig : SignalArgs)
  | getCounter

namespace ChunkedOp

/-- The operation, from the index it has reserved on. -/
def post : ChunkedOp → Posted
  | putThread => Chunking.putThread qp base args
  | putSignalThread sig => Chunking.putSignalThread qp base args sig
  | getThread mcst => Chunking.getThread qp base args mcst
  | putCounter => Chunking.putCounter qp base args
  | putSignalCounter sig => Chunking.putSignalCounter qp base args sig
  | getCounter => Chunking.getCounter qp base args

/-- The opcode of the data WQEs. -/
def opcode : ChunkedOp → BitVec 32
  | getThread _ => opcodeRdmaRead
  | getCounter => opcodeRdmaRead
  | _ => opcodeRdmaWrite

/-- The WQE after the chunks, if there is one. -/
def tail : ChunkedOp → Option (BitVec 64 → Wqe)
  | putSignalThread sig => some (signalWqe qp sig)
  | putSignalCounter sig => some (signalWqe qp sig)
  | getThread (some daddr) => some (dumpWqe qp daddr)
  | _ => none

/-- The operation writes a WQE after the chunks. -/
def hasTail : ChunkedOp → Bool
  | putSignalThread _ => true
  | putSignalCounter _ => true
  | getThread mcst => mcst.isSome
  | _ => false

/-- The operation returns a ticket. -/
def hasTicket : ChunkedOp → Bool
  | putThread => true
  | putSignalThread _ => true
  | getThread _ => true
  | _ => false

end ChunkedOp

/-! ## What they should do -/

/-- A data WQE as the NIC decodes it. -/
structure Transfer where
  opcode : BitVec 32
  remote : VerbsAddr
  locl : VerbsAddr
  byteCount : ℕ
deriving DecidableEq, Repr

/-- The transfer of a write or a read with one data segment. -/
def transferOf : Wqe → Option Transfer
  | [.ctrl w _ _ _, .raddr raddr rkey, .data byteCount lkey laddr] =>
    some
      { opcode := bswap32 w &&& 0xff#32
        remote := ⟨bswap64 raddr, rkey⟩
        locl := ⟨bswap64 laddr, lkey⟩
        byteCount := (bswap32 byteCount).toNat }
  | _ => none

/-- The transfer of a piece, given by its offset and its length. -/
def pieceTransfer (opcode : BitVec 32) (args : ChunkArgs) (p : ℕ × ℕ) : Transfer :=
  { opcode := opcode
    remote := { args.raddr with addr := args.raddr.addr + BitVec.ofNat 64 p.1 }
    locl := { args.laddr with addr := args.laddr.addr + BitVec.ofNat 64 p.1 }
    byteCount := p.2 }

/-- The chunks that a transfer of this size needs; a transfer of no bytes needs one WQE, too. -/
def chunksOf (size : ℕ) : ℕ := max ((size + (maxTransferSize - 1)) / maxTransferSize) 1

/-- The slots that an operation needs. -/
def ChunkedOp.slots (op : ChunkedOp) (size : ℕ) : ℕ :=
  if op.hasTail then chunksOf size + 1 else chunksOf size

/-- An operation of `slots` WQEs, the last one `tail` if there is one, that does what it should:
it writes as many WQEs as it reserves, at consecutive indices; a NOP for a transfer of no bytes, and
else transfers that tile the two ranges; and it marks all of them ready and submits them. -/
structure Posted.Exact (op : ChunkedOp) (p : Posted) : Prop where
  start : p.base = base
  reserved : p.reserved.toNat = op.slots args.size.toNat
  indices : p.written.map Prod.fst =
    (List.range p.reserved.toNat).map fun i => base + BitVec.ofNat 64 i
  nop : args.size.toNat = 0 →
    (p.written.take (chunksOf 0)).map Prod.snd = [wqePrepareNop qp base.toNat ctrlCqUpdate]
  tiles : 0 < args.size.toNat → ∃ pieces, Tiles maxTransferSize 0 args.size.toNat pieces ∧
    (p.written.take (chunksOf args.size.toNat)).map (fun w => transferOf w.2) =
      pieces.map fun q => some (pieceTransfer op.opcode args q)
  tail : p.written.drop (chunksOf args.size.toNat) =
    ((op.tail qp).map fun w => (p.readyTo, w p.readyTo)).toList
  readyFrom : p.readyFrom = base
  readyTo : p.readyTo = base + BitVec.ofNat 64 (p.reserved.toNat - 1)
  submitted : p.prodIndex = base + BitVec.ofNat 64 p.reserved.toNat
  ticket : p.ticket = if op.hasTicket then some p.readyTo else none

/-! ## Counting the chunks -/

theorem chunksOf_eq (size : ℕ) : chunksOf size = max (size ⌈/⌉ 2 ^ maxTransferSizeShift) 1 := by
  rw [Nat.ceilDiv_eq_add_pred_div, Nat.add_sub_assoc (Nat.two_pow_pos _)]
  rfl

/-- A number of chunks that fits in 32 bits is what the 32-bit function returns. -/
theorem ceilDiv_mod {size : ℕ} (h : chunksOf size < 2 ^ 32) :
    size ⌈/⌉ 2 ^ maxTransferSizeShift % 2 ^ 32 = size ⌈/⌉ 2 ^ maxTransferSizeShift := by
  rw [chunksOf_eq] at h
  exact Nat.mod_eq_of_lt ((le_max_left _ _).trans_lt h)

theorem chunksOf_pos (size : ℕ) : 0 < chunksOf size := lt_of_lt_of_le Nat.one_pos (le_max_right _ _)

/-- `num_chunks > 1 ? num_chunks : 1`, and the same with `> 0`. -/
theorem toNat_atLeastOne {w k : ℕ} (hw : 0 < w) (hk : k ≤ 1) (x : BitVec w) :
    (if k < x.toNat then x else 1).toNat = max x.toNat 1 := by
  have h1 : (1 : BitVec w).toNat = 1 := BitVec.toNat_one hw
  split
  · omega
  · rw [h1]
    omega

theorem toNat_threadChunks {size : BitVec 64} (h : chunksOf size.toNat < 2 ^ 32) :
    (threadChunks size).toNat = chunksOf size.toNat := by
  unfold threadChunks
  rw [toNat_atLeastOne (by decide) le_rfl, toNat_divCeilAlignedPow2Bits32 (by decide),
    ceilDiv_mod h, chunksOf_eq]

theorem toNat_getChunks {size : BitVec 64} (h : chunksOf size.toNat < 2 ^ 32) :
    (getChunks size).toNat = chunksOf size.toNat := by
  unfold getChunks
  rw [toNat_atLeastOne (by decide) (Nat.zero_le 1), toNat_divCeilAlignedPow2Bits32 (by decide),
    ceilDiv_mod h, chunksOf_eq]

theorem toNat_counterChunks (size : BitVec 64) :
    (counterChunks size).toNat = chunksOf size.toNat := by
  unfold counterChunks
  rw [toNat_atLeastOne (by decide) le_rfl, toNat_divCeilAlignedPow2 (by decide), chunksOf_eq]

/-! ## The loop, in closed form -/

/-- The WQE of chunk `i`. -/
def chunkWqe (qp : QpConst) (prepare : BitVec 64 → ℕ → BitVec 32 → Wqe) (base : BitVec 64)
    (size i : ℕ) : BitVec 64 × Wqe :=
  let wqeIdx := base + BitVec.ofNat 64 i
  let bytes := (piece maxTransferSize size i).2
  (wqeIdx, if 0 < bytes then prepare wqeIdx i (BitVec.ofNat 32 bytes)
    else wqePrepareNop qp wqeIdx.toNat ctrlCqUpdate)

variable {qp base} {prepare : BitVec 64 → ℕ → BitVec 32 → Wqe} {size : BitVec 64}

theorem chunkLoop_succ (n : ℕ) :
    chunkLoop qp prepare base size (n + 1) =
      chunkStep qp prepare base (chunkLoop qp prepare base size n) n := by
  unfold chunkLoop
  rw [List.range_succ, List.foldl_append]
  rfl

/-- What is left after some chunks. -/
theorem toNat_remainingSize (n : ℕ) :
    (chunkLoop qp prepare base size n).remainingSize.toNat =
      size.toNat - n * maxTransferSize := by
  induction n with
  | zero => rw [Nat.zero_mul]; rfl
  | succ n ih =>
    rw [chunkLoop_succ, Nat.succ_mul]
    unfold chunkStep
    dsimp only
    split
    · rename_i h
      have hm : (BitVec.ofNat 64 maxTransferSize).toNat = maxTransferSize := by decide
      rw [BitVec.toNat_sub_of_le (by rw [BitVec.le_def, hm]; exact h.le), hm, ih]
      omega
    · rename_i h
      rw [BitVec.sub_self]
      show 0 = _
      omega

/-- The loop writes the chunks in order. -/
theorem chunkLoop_written (n : ℕ) :
    (chunkLoop qp prepare base size n).written =
      (List.range n).map (chunkWqe qp prepare base size.toNat) := by
  induction n with
  | zero => rfl
  | succ n ih =>
    generalize hst : chunkLoop qp prepare base size n = st at ih
    have hr : st.remainingSize.toNat = size.toNat - n * maxTransferSize := by
      rw [← hst, toNat_remainingSize]
    have hs : (if maxTransferSize < st.remainingSize.toNat then BitVec.ofNat 64 maxTransferSize
        else st.remainingSize).toNat = (piece maxTransferSize size.toNat n).2 := by
      show _ = min maxTransferSize (size.toNat - n * maxTransferSize)
      rw [← hr]
      split
      · rename_i h
        exact (Nat.min_eq_left h.le).symm
      · rename_i h
        exact (Nat.min_eq_right (Nat.not_lt.1 h)).symm
    rw [chunkLoop_succ, List.range_succ, List.map_append, ← ih, hst]
    unfold chunkStep chunkWqe
    dsimp only
    rw [← BitVec.ofNat_toNat, hs]
    rfl

theorem chunkLoop_wqeIdx {n : ℕ} (hn : 0 < n) :
    (chunkLoop qp prepare base size n).wqeIdx = base + BitVec.ofNat 64 (n - 1) := by
  obtain ⟨k, rfl⟩ := Nat.exists_eq_add_of_lt hn
  rw [Nat.zero_add, chunkLoop_succ]
  rfl

/-- The index after the loop. -/
theorem chunkLoop_next {n : ℕ} (hn : 0 < n) :
    (chunkLoop qp prepare base size n).wqeIdx + 1 = base + BitVec.ofNat 64 n := by
  have hone : BitVec.ofNat 64 n = BitVec.ofNat 64 (n - 1) + 1 := by
    conv_lhs => rw [← Nat.sub_add_cancel hn]
    rw [BitVec.ofNat_add]
    rfl
  rw [chunkLoop_wqeIdx hn, hone, BitVec.add_assoc]

/-! ## The transfers -/

/-- The opcode below the index of a control word. -/
theorem opcode_opmodIdxOpcode (wqeIdx : ℕ) (opcode : BitVec 32)
    (h : opcode &&& 0xff#32 = opcode) :
    bswap32 (opmodIdxOpcode wqeIdx opcode) &&& 0xff#32 = opcode := by
  have hmask : ∀ i < 32, (0xff#32).getLsbD i = decide (i < 8) := by decide
  rw [opmodIdxOpcode, bswap32_bswap32]
  apply BitVec.eq_of_getLsbD_eq
  intro i hi
  have hop : opcode.getLsbD i = (opcode.getLsbD i && decide (i < 8)) := by
    conv_lhs => rw [← h]
    rw [BitVec.getLsbD_and, hmask i hi]
  rw [BitVec.getLsbD_and, BitVec.getLsbD_or, BitVec.getLsbD_shiftLeft, hmask i hi]
  by_cases h8 : i < 8
  · simp [h8]
  · rw [hop]
    simp [h8]

/-- A write of at most 1 GiB says so: the mask on the byte count removes nothing. -/
theorem transferOf_prepareWrite (args : ChunkArgs) (wqeIdx : BitVec 64) (i : ℕ) {bytes : ℕ}
    (hb : bytes ≤ maxTransferSize) :
    transferOf (prepareWrite qp args.raddr args.laddr wqeIdx i (BitVec.ofNat 32 bytes)) =
      some (pieceTransfer opcodeRdmaWrite args (i * maxTransferSize, bytes)) := by
  have hlt : bytes < 2 ^ 31 := lt_of_le_of_lt hb (by decide)
  have hcount : (BitVec.ofNat 32 bytes &&& (inlineSeg - 1#32)).toNat = bytes := by
    rw [BitVec.toNat_and, BitVec.toNat_ofNat, Nat.mod_eq_of_lt (by omega)]
    exact Nat.and_two_pow_sub_one_of_lt_two_pow hlt
  have hop := opcode_opmodIdxOpcode wqeIdx.toNat opcodeRdmaWrite (by decide)
  unfold prepareWrite wqePrepareWrite transferOf pieceTransfer VerbsAddr.chunk
  generalize i * maxTransferSize = o
  simp only [bswap32_bswap32, bswap64_bswap64, hcount, hop]

theorem transferOf_prepareRead (args : ChunkArgs) (wqeIdx : BitVec 64) (i : ℕ) {bytes : ℕ}
    (hb : bytes ≤ maxTransferSize) :
    transferOf (prepareRead qp args.raddr args.laddr wqeIdx i (BitVec.ofNat 32 bytes)) =
      some (pieceTransfer opcodeRdmaRead args (i * maxTransferSize, bytes)) := by
  have hlt : bytes < 2 ^ 32 := lt_of_le_of_lt hb (by decide)
  have hcount : (BitVec.ofNat 32 bytes).toNat = bytes := by
    rw [BitVec.toNat_ofNat, Nat.mod_eq_of_lt hlt]
  have hop := opcode_opmodIdxOpcode wqeIdx.toNat opcodeRdmaRead (by decide)
  unfold prepareRead wqePrepareRead transferOf pieceTransfer VerbsAddr.chunk
  generalize i * maxTransferSize = o
  simp only [bswap32_bswap32, bswap64_bswap64, hcount, hop]

/-- The chunks of a transfer are just enough. -/
theorem tiles_chunks {size : ℕ} (h : 0 < size) :
    Tiles maxTransferSize 0 size
      ((List.range (chunksOf size)).map (piece maxTransferSize size)) := by
  have hM : maxTransferSize = 2 ^ 30 := rfl
  have hn : chunksOf size = (size + (maxTransferSize - 1)) / maxTransferSize :=
    max_eq_left (by rw [hM]; omega)
  have ht := tiles_range maxTransferSize size (chunksOf size) 0
    (fun k hk => by rw [hn, hM] at hk; rw [hM]; omega) (by rw [hn, hM]; omega)
  simpa only [Nat.zero_mul, Nat.sub_zero, Nat.zero_add] using ht

/-- A chunk that is not empty carries its piece, if `prepare` makes WQEs that do. -/
theorem transferOf_chunkWqe {args : ChunkArgs} {opcode : BitVec 32} {bytes i : ℕ}
    (hp : ∀ wqeIdx i bytes, bytes ≤ maxTransferSize →
      transferOf (prepare wqeIdx i (BitVec.ofNat 32 bytes)) =
        some (pieceTransfer opcode args (i * maxTransferSize, bytes)))
    (hpos : 0 < (piece maxTransferSize bytes i).2)
    (hle : (piece maxTransferSize bytes i).2 ≤ maxTransferSize) :
    transferOf (chunkWqe qp prepare base bytes i).2 =
      some (pieceTransfer opcode args (piece maxTransferSize bytes i)) := by
  have h := hp (base + BitVec.ofNat 64 i) i _ hle
  rw [piece_eq] at h
  unfold chunkWqe
  dsimp only
  rw [if_pos hpos]
  exact h

/-- The transfers of the loop, if `prepare` makes WQEs that carry their chunk. -/
theorem chunkLoop_tiles {args : ChunkArgs} {opcode : BitVec 32}
    (hp : ∀ wqeIdx i bytes, bytes ≤ maxTransferSize →
      transferOf (prepare wqeIdx i (BitVec.ofNat 32 bytes)) =
        some (pieceTransfer opcode args (i * maxTransferSize, bytes)))
    (h : 0 < size.toNat) :
    (chunkLoop qp prepare base size (chunksOf size.toNat)).written.map (fun w => transferOf w.2) =
      ((List.range (chunksOf size.toNat)).map (piece maxTransferSize size.toNat)).map
        fun q => some (pieceTransfer opcode args q) := by
  rw [chunkLoop_written, List.map_map, List.map_map]
  apply List.map_congr_left
  intro i hi
  have hmem := List.mem_map_of_mem (f := piece maxTransferSize size.toNat) hi
  have hb := (tiles_chunks h).bounds hmem
  rw [Function.comp_apply, Function.comp_apply]
  exact transferOf_chunkWqe hp hb.2.1 hb.2.2.1

/-! ## The same WQEs as in the plans -/

/-- A WQE holds 16 bits of its index. -/
theorem opmodIdxOpcode_toNat (base i : ℕ) (opcode : BitVec 32) :
    opmodIdxOpcode (BitVec.ofNat 64 base + BitVec.ofNat 64 i).toNat opcode =
      opmodIdxOpcode (base + i) opcode := by
  have h : BitVec.ofNat 16 (BitVec.ofNat 64 base + BitVec.ofNat 64 i).toNat =
      BitVec.ofNat 16 (base + i) := by
    apply BitVec.eq_of_toNat_eq
    rw [← BitVec.ofNat_add, BitVec.toNat_ofNat, BitVec.toNat_ofNat, BitVec.toNat_ofNat,
      Nat.mod_mod_of_dvd _ (by decide)]
  rw [opmodIdxOpcode, h, opmodIdxOpcode]

/-- The recursion over the chunks of the plans, in closed form. -/
theorem chunkWqes_eq {prep : ℕ → ℕ → BitVec 32 → Wqe} {base size : ℕ} (n i : ℕ) :
    chunkWqes qp prep base n i (size - i * maxTransferSize) =
      (List.range n).map fun k =>
        if 0 < (piece maxTransferSize size (i + k)).2
        then prep (base + (i + k)) (i + k) (BitVec.ofNat 32 (piece maxTransferSize size (i + k)).2)
        else wqePrepareNop qp (base + (i + k)) ctrlCqUpdate := by
  induction n generalizing i with
  | zero => rfl
  | succ n ih =>
    have hsize : (if maxTransferSize < size - i * maxTransferSize then maxTransferSize
        else size - i * maxTransferSize) = (piece maxTransferSize size i).2 := by
      unfold piece
      split <;> omega
    have hrest : size - i * maxTransferSize - (piece maxTransferSize size i).2 =
        size - (i + 1) * maxTransferSize := by
      unfold piece
      dsimp only
      rw [Nat.succ_mul, ← Nat.sub_sub]
      generalize size - i * maxTransferSize = rest
      omega
    rw [List.range_succ_eq_map, List.map_cons, List.map_map, chunkWqes, hsize, hrest, ih,
      Nat.add_zero]
    refine congrArg (List.cons _) (List.map_congr_left ?_)
    intro k hk
    have hadd : i + Nat.succ k = i + 1 + k := by omega
    rw [Function.comp_apply, hadd]

/-- The loop writes the WQEs of the plans, if `prepare` makes the same WQEs. -/
theorem chunkLoop_wqes {prep : ℕ → ℕ → BitVec 32 → Wqe} {base : ℕ}
    (h : ∀ i k bytes, prepare (BitVec.ofNat 64 base + BitVec.ofNat 64 i) k bytes =
      prep (base + i) k bytes) (n : ℕ) :
    (chunkLoop qp prepare (BitVec.ofNat 64 base) size n).written.map Prod.snd =
      chunkWqes qp prep base n 0 size.toNat := by
  have hz : size.toNat = size.toNat - 0 * maxTransferSize := by
    rw [Nat.zero_mul, Nat.sub_zero]
  rw [chunkLoop_written, List.map_map, hz, chunkWqes_eq, ← hz]
  apply List.map_congr_left
  intro i hi
  rw [Function.comp_apply, Nat.zero_add]
  unfold chunkWqe
  dsimp only
  rw [h]
  split
  · rfl
  · rw [wqePrepareNop, opmodIdxOpcode_toNat, wqePrepareNop]

/-- The WQEs of the plan of the operation. -/
def ChunkedOp.planWqes (op : ChunkedOp) (args : ChunkArgs) (qp : QpConst) (base : ℕ) : List Wqe :=
  match op with
  | putThread => (Gpunetio.putThread args.raddr args.laddr args.size 0#32).wqes qp base
  | putSignalThread sig =>
    (Gpunetio.putSignalThread args.raddr args.laddr args.size sig.sigRaddr sig.sigLaddr sig.sigVal
      0#32).wqes qp base
  | getThread mcst =>
    (Gpunetio.getThread args.raddr args.laddr args.size mcst 0#32).wqes qp base
  | putCounter => (CounterOp.putCounter args.raddr args.laddr args.size).mainWqes qp base
  | putSignalCounter sig =>
    (CounterOp.putSignalCounter args.raddr args.laddr args.size sig.sigRaddr sig.sigLaddr
      sig.sigVal).mainWqes qp base
  | getCounter => (CounterOp.getCounter args.raddr args.laddr args.size).mainWqes qp base

theorem numChunks32_eq {size : BitVec 64} (h : chunksOf size.toNat < 2 ^ 32) :
    numChunks32 size = chunksOf size.toNat := by
  unfold numChunks32
  rw [toNat_divCeilAlignedPow2Bits32 (by decide), ceilDiv_mod h, chunksOf_eq]

theorem numChunks_eq (size : BitVec 64) : numChunks size = chunksOf size.toNat := by
  unfold numChunks
  rw [toNat_divCeilAlignedPow2 (by decide), chunksOf_eq]

theorem putLoop_wqes (args : ChunkArgs) (base n : ℕ) :
    (chunkLoop qp (prepareWrite qp args.raddr args.laddr) (BitVec.ofNat 64 base) args.size
      n).written.map Prod.snd =
      chunkWqes qp (writeChunk qp args.raddr args.laddr) base n 0 args.size.toNat := by
  apply chunkLoop_wqes
  intro i k bytes
  unfold prepareWrite writeChunk wqePrepareWrite
  rw [opmodIdxOpcode_toNat]

theorem getLoop_wqes (args : ChunkArgs) (base n : ℕ) :
    (chunkLoop qp (prepareRead qp args.raddr args.laddr) (BitVec.ofNat 64 base) args.size
      n).written.map Prod.snd =
      chunkWqes qp (readChunk qp args.raddr args.laddr) base n 0 args.size.toNat := by
  apply chunkLoop_wqes
  intro i k bytes
  unfold prepareRead readChunk wqePrepareRead
  rw [opmodIdxOpcode_toNat]

/-- The fetch-and-add is at the index after the loop. -/
theorem signalWqe_next (sig : SignalArgs) (base n : ℕ) :
    signalWqe qp sig (BitVec.ofNat 64 base + BitVec.ofNat 64 n) =
      faWqe qp (base + n) sig.sigRaddr sig.sigLaddr sig.sigVal := by
  unfold signalWqe faWqe wqePrepareAtomic
  rw [opmodIdxOpcode_toNat]

/-- An operation writes the WQEs of its plan: the loop of the source and the recursion agree. -/
theorem post_wqes (op : ChunkedOp) (qp : QpConst) (base : ℕ) (args : ChunkArgs)
    (h : chunksOf args.size.toNat < 2 ^ 32) :
    (op.post qp (BitVec.ofNat 64 base) args).written.map Prod.snd = op.planWqes args qp base := by
  have hpos := chunksOf_pos args.size.toNat
  cases op with
  | putThread =>
    unfold ChunkedOp.post ChunkedOp.planWqes putThread Gpunetio.putThread
    dsimp only
    rw [toNat_threadChunks h, numChunks32_eq h, putLoop_wqes]
  | putSignalThread sig =>
    unfold ChunkedOp.post ChunkedOp.planWqes putSignalThread Gpunetio.putSignalThread
    dsimp only
    rw [toNat_threadChunks h, numChunks32_eq h, chunkLoop_next hpos, List.map_append,
      putLoop_wqes, List.map_singleton, signalWqe_next]
  | getThread mcst =>
    cases mcst with
    | none =>
      unfold ChunkedOp.post ChunkedOp.planWqes getThread Gpunetio.getThread dumpWqes
      dsimp only
      rw [toNat_getChunks h, numChunks32_eq h, getLoop_wqes, List.append_nil]
    | some daddr =>
      have hlast : (getChunks args.size).setWidth 64 =
          BitVec.ofNat 64 (chunksOf args.size.toNat) := by
        rw [← toNat_getChunks h, BitVec.ofNat_toNat]
      unfold ChunkedOp.post ChunkedOp.planWqes getThread Gpunetio.getThread dumpWqes
      dsimp only
      rw [toNat_getChunks h, numChunks32_eq h, List.map_append, getLoop_wqes, List.map_singleton,
        hlast]
      unfold dumpWqe wqePrepareDump
      rw [opmodIdxOpcode_toNat]
  | putCounter =>
    unfold ChunkedOp.post ChunkedOp.planWqes putCounter CounterOp.mainWqes putWqes
    dsimp only
    rw [toNat_counterChunks, numChunks_eq, putLoop_wqes]
    rfl
  | putSignalCounter sig =>
    unfold ChunkedOp.post ChunkedOp.planWqes putSignalCounter CounterOp.mainWqes putWqes
    dsimp only
    rw [toNat_counterChunks, numChunks_eq, chunkLoop_next hpos, List.map_append, putLoop_wqes,
      List.map_singleton, signalWqe_next]
    rfl
  | getCounter =>
    unfold ChunkedOp.post ChunkedOp.planWqes getCounter CounterOp.mainWqes getWqes
    dsimp only
    rw [toNat_counterChunks, numChunks_eq, getLoop_wqes]
    rfl

/-! ## All six -/

theorem ChunkedOp.isSome_tail (op : ChunkedOp) (qp : QpConst) :
    (op.tail qp).isSome = op.hasTail := by
  cases op with
  | getThread mcst => cases mcst <;> rfl
  | putThread | putSignalThread _ | putCounter | putSignalCounter _ | getCounter => rfl

/-- The slots are the chunks and the tail. -/
theorem ChunkedOp.slots_eq (op : ChunkedOp) (qp : QpConst) (n : ℕ) :
    op.slots n = chunksOf n + (op.tail qp).toList.length := by
  have h := op.isSome_tail qp
  unfold ChunkedOp.slots
  cases ht : op.tail qp with
  | none =>
    rw [ht] at h
    rw [if_neg (by rw [← h]; decide), Option.toList_none, List.length_nil, Nat.add_zero]
  | some w =>
    rw [ht] at h
    rw [if_pos (by rw [← h]; rfl), Option.toList_some, List.length_singleton]

theorem length_chunkLoop_written (n : ℕ) :
    (chunkLoop qp prepare base size n).written.length = n := by
  rw [chunkLoop_written, List.length_map, List.length_range]

variable {args : ChunkArgs} {op : ChunkedOp} {p : Posted}

/-- What all six have in common: the loop, the tail at the last slot, and the index after it. -/
theorem Posted.Exact.of_loop {st : LoopState}
    (hst : chunkLoop qp prepare base args.size (chunksOf args.size.toNat) = st)
    (hp : ∀ wqeIdx i bytes, bytes ≤ maxTransferSize →
      transferOf (prepare wqeIdx i (BitVec.ofNat 32 bytes)) =
        some (pieceTransfer op.opcode args (i * maxTransferSize, bytes)))
    (hbase : p.base = base) (hreserved : p.reserved.toNat = op.slots args.size.toNat)
    (hwritten : p.written =
      st.written ++ ((op.tail qp).map fun w => (p.readyTo, w p.readyTo)).toList)
    (hfrom : p.readyFrom = base)
    (hto : p.readyTo = base + BitVec.ofNat 64 (op.slots args.size.toNat - 1))
    (hsubmit : p.prodIndex = p.readyTo + 1)
    (hticket : p.ticket = if op.hasTicket then some p.readyTo else none) :
    p.Exact qp base args op where
  start := hbase
  reserved := hreserved
  indices := by
    have hloop : st.written.map Prod.fst =
        (List.range (chunksOf args.size.toNat)).map fun i => base + BitVec.ofNat 64 i := by
      rw [← hst, chunkLoop_written, List.map_map]
      rfl
    rw [hwritten, List.map_append, hloop, hreserved, op.slots_eq qp]
    rw [op.slots_eq qp] at hto
    cases ht : op.tail qp with
    | none =>
      rw [Option.map_none, Option.toList_none, Option.toList_none, List.map_nil, List.append_nil,
        List.length_nil, Nat.add_zero]
    | some w =>
      rw [ht, Option.toList_some, List.length_singleton, Nat.add_sub_cancel] at hto
      rw [Option.map_some, Option.toList_some, Option.toList_some, List.length_singleton,
        List.range_succ, List.map_append, hto, List.map_singleton, List.map_singleton]
  nop := by
    intro h0
    have hn : chunksOf args.size.toNat = 1 := by
      rw [h0]
      decide
    have h1 : chunksOf 0 = 1 := by decide
    rw [hwritten, ← hst, hn, h1, List.take_left' (length_chunkLoop_written 1), chunkLoop_written,
      h0]
    show [wqePrepareNop qp (base + 0#64).toNat ctrlCqUpdate] = _
    rw [BitVec.add_zero]
  tiles := by
    intro h
    refine ⟨_, tiles_chunks h, ?_⟩
    rw [hwritten, ← hst, List.take_left' (length_chunkLoop_written _)]
    exact chunkLoop_tiles hp h
  tail := by
    rw [hwritten, ← hst, List.drop_left' (length_chunkLoop_written _)]
  readyFrom := hfrom
  readyTo := by rw [hreserved, hto]
  submitted := by
    have hpos : 0 < op.slots args.size.toNat := by
      have := chunksOf_pos args.size.toNat
      rw [op.slots_eq qp]
      omega
    have hone : BitVec.ofNat 64 (op.slots args.size.toNat) =
        BitVec.ofNat 64 (op.slots args.size.toNat - 1) + 1 := by
      conv_lhs => rw [← Nat.sub_add_cancel hpos]
      rw [BitVec.ofNat_add]
      rfl
    rw [hsubmit, hto, hreserved, hone, BitVec.add_assoc]
  ticket := hticket

/-- A 32-bit parameter takes a count that fits. -/
theorem toNat_setWidth_of_lt {n : BitVec 64} (h : n.toNat < 2 ^ 32) :
    (n.setWidth 32).toNat = n.toNat := by
  rw [BitVec.toNat_setWidth, Nat.mod_eq_of_lt h]

/-- One more slot, in either width. -/
theorem toNat_succ {w : ℕ} (hw : 0 < w) {n : BitVec w} (h : n.toNat + 1 < 2 ^ w) :
    (n + 1).toNat = n.toNat + 1 := by
  have h1 : (1 : BitVec w).toNat = 1 := BitVec.toNat_one hw
  rw [BitVec.toNat_add, h1, Nat.mod_eq_of_lt h]

/-- An operation without a tail. -/
theorem Posted.Exact.of_loop_nil {st : LoopState}
    (hst : chunkLoop qp prepare base args.size (chunksOf args.size.toNat) = st)
    (htail : op.tail qp = none) {reserved : BitVec 32} {ticket : Option (BitVec 64)}
    (hp : ∀ wqeIdx i bytes, bytes ≤ maxTransferSize →
      transferOf (prepare wqeIdx i (BitVec.ofNat 32 bytes)) =
        some (pieceTransfer op.opcode args (i * maxTransferSize, bytes)))
    (hreserved : reserved.toNat = op.slots args.size.toNat)
    (hticket : ticket = if op.hasTicket then some st.wqeIdx else none) :
    Posted.Exact qp base args op
      { base := base, reserved := reserved, written := st.written, readyFrom := base
        readyTo := st.wqeIdx, prodIndex := st.wqeIdx + 1, ticket := ticket } := by
  have hlast : st.wqeIdx = base + BitVec.ofNat 64 (chunksOf args.size.toNat - 1) := by
    rw [← hst, chunkLoop_wqeIdx (chunksOf_pos _)]
  refine .of_loop hst hp rfl hreserved ?_ rfl ?_ rfl hticket
  · rw [htail, Option.map_none, Option.toList_none, List.append_nil]
  · rw [op.slots_eq qp, htail, Option.toList_none, List.length_nil, Nat.add_zero]
    exact hlast

/-- An operation whose last WQE is not a chunk. -/
theorem Posted.Exact.of_loop_cons {st : LoopState}
    (hst : chunkLoop qp prepare base args.size (chunksOf args.size.toNat) = st)
    {w : BitVec 64 → Wqe} (htail : op.tail qp = some w)
    {reserved : BitVec 32} {ticket : Option (BitVec 64)} {last : BitVec 64}
    (hp : ∀ wqeIdx i bytes, bytes ≤ maxTransferSize →
      transferOf (prepare wqeIdx i (BitVec.ofNat 32 bytes)) =
        some (pieceTransfer op.opcode args (i * maxTransferSize, bytes)))
    (hreserved : reserved.toNat = op.slots args.size.toNat)
    (hlast : last = base + BitVec.ofNat 64 (chunksOf args.size.toNat))
    (hticket : ticket = if op.hasTicket then some last else none) :
    Posted.Exact qp base args op
      { base := base, reserved := reserved, written := st.written ++ [(last, w last)]
        readyFrom := base, readyTo := last, prodIndex := last + 1, ticket := ticket } := by
  refine .of_loop hst hp rfl hreserved ?_ rfl ?_ rfl hticket
  · rw [htail, Option.map_some, Option.toList_some]
  · rw [op.slots_eq qp, htail, Option.toList_some, List.length_singleton,
      Nat.add_sub_cancel]
    exact hlast

/-- **Chunking.** At every index and for every size, each of the six operations writes as many WQEs
as it reserves, one after the other; their transfers tile the two ranges, and a transfer of no bytes
is one NOP; all of them are marked ready and submitted, and the ticket is the index of the last. -/
theorem post_exact (op : ChunkedOp) (qp : QpConst) (base : BitVec 64) (args : ChunkArgs)
    (h : op.slots args.size.toNat < 2 ^ 32) : (op.post qp base args).Exact qp base args op := by
  have hpos := chunksOf_pos args.size.toNat
  have hwrite : ∀ (wqeIdx : BitVec 64) i bytes, bytes ≤ maxTransferSize →
      transferOf (prepareWrite qp args.raddr args.laddr wqeIdx i (BitVec.ofNat 32 bytes)) =
        some (pieceTransfer opcodeRdmaWrite args (i * maxTransferSize, bytes)) :=
    fun wqeIdx i _ => transferOf_prepareWrite args wqeIdx i
  have hread : ∀ (wqeIdx : BitVec 64) i bytes, bytes ≤ maxTransferSize →
      transferOf (prepareRead qp args.raddr args.laddr wqeIdx i (BitVec.ofNat 32 bytes)) =
        some (pieceTransfer opcodeRdmaRead args (i * maxTransferSize, bytes)) :=
    fun wqeIdx i _ => transferOf_prepareRead args wqeIdx i
  have hc := toNat_counterChunks args.size
  cases op with
  | putThread =>
    have hs : ChunkedOp.putThread.slots args.size.toNat = chunksOf args.size.toNat :=
      if_neg (by decide)
    have hn := toNat_threadChunks (hs ▸ h)
    unfold ChunkedOp.post putThread
    dsimp only
    rw [hn]
    exact .of_loop_nil rfl rfl hwrite (hn.trans hs.symm) (if_pos rfl).symm
  | putSignalThread sig =>
    have hs : (ChunkedOp.putSignalThread sig).slots args.size.toNat =
        chunksOf args.size.toNat + 1 := if_pos rfl
    rw [hs] at h
    have hn := toNat_threadChunks (Nat.lt_of_succ_lt h)
    have hn1 := toNat_succ (Nat.succ_pos 31) (by rw [hn]; exact h)
    rw [hn, ← hs] at hn1
    unfold ChunkedOp.post putSignalThread
    dsimp only
    rw [hn]
    exact .of_loop_cons rfl rfl hwrite hn1 (chunkLoop_next hpos) (if_pos rfl).symm
  | getThread mcst =>
    cases mcst with
    | none =>
      have hs : (ChunkedOp.getThread none).slots args.size.toNat = chunksOf args.size.toNat :=
        if_neg (by decide)
      have hn := toNat_getChunks (hs ▸ h)
      unfold ChunkedOp.post getThread
      dsimp only
      rw [hn]
      exact .of_loop_nil rfl rfl hread (hn.trans hs.symm) (if_pos rfl).symm
    | some daddr =>
      have hs : (ChunkedOp.getThread (some daddr)).slots args.size.toNat =
          chunksOf args.size.toNat + 1 := if_pos rfl
      rw [hs] at h
      have hn := toNat_getChunks (Nat.lt_of_succ_lt h)
      have hn1 := toNat_succ (Nat.succ_pos 31) (by rw [hn]; exact h)
      rw [hn, ← hs] at hn1
      -- the index of the dump is computed from the count, not from the loop
      have hlast : base + (getChunks args.size).setWidth 64 =
          base + BitVec.ofNat 64 (chunksOf args.size.toNat) := by
        rw [← hn, BitVec.ofNat_toNat]
      unfold ChunkedOp.post getThread
      dsimp only
      rw [hn]
      exact .of_loop_cons rfl rfl hread hn1 hlast (if_pos rfl).symm
  | putCounter =>
    have hs : ChunkedOp.putCounter.slots args.size.toNat = chunksOf args.size.toNat :=
      if_neg (by decide)
    rw [hs, ← hc] at h
    unfold ChunkedOp.post putCounter
    dsimp only
    have hn := toNat_setWidth_of_lt h
    rw [hc]
    exact .of_loop_nil rfl rfl hwrite (hn.trans (hc.trans hs.symm)) (if_neg Bool.false_ne_true).symm
  | putSignalCounter sig =>
    have hs : (ChunkedOp.putSignalCounter sig).slots args.size.toNat =
        chunksOf args.size.toNat + 1 := if_pos rfl
    rw [hs] at h
    have hn1 := toNat_succ (n := counterChunks args.size) (by decide) (by rw [hc]; omega)
    have hn := toNat_setWidth_of_lt (n := counterChunks args.size + 1) (by rw [hn1, hc]; exact h)
    rw [hn1, hc, ← hs] at hn
    unfold ChunkedOp.post putSignalCounter
    dsimp only
    rw [hc]
    exact .of_loop_cons rfl rfl hwrite hn (chunkLoop_next hpos) (if_neg Bool.false_ne_true).symm
  | getCounter =>
    have hs : ChunkedOp.getCounter.slots args.size.toNat = chunksOf args.size.toNat :=
      if_neg (by decide)
    rw [hs, ← hc] at h
    have hn := toNat_setWidth_of_lt h
    unfold ChunkedOp.post getCounter
    dsimp only
    rw [hc]
    exact .of_loop_nil rfl rfl hread (hn.trans (hc.trans hs.symm)) (if_neg Bool.false_ne_true).symm

/-- A put of two chunks and one byte, and its signal: four slots. -/
theorem putSignal_twoChunks :
    let args : ChunkArgs := ⟨⟨0x1000#64, 1#32⟩, ⟨0x2000#64, 2#32⟩, 0x80000001#64⟩
    let op := ChunkedOp.putSignalThread ⟨⟨0#64, 1#32⟩, ⟨0#64, 2#32⟩, 1#64⟩
    (op.post ⟨3#32, 4#32⟩ 0xffffffffffffffff#64 args).Exact ⟨3#32, 4#32⟩ 0xffffffffffffffff#64 args
      op :=
  post_exact _ _ _ _ (by decide)

end Gpunetio.Chunking
