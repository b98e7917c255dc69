import Gpunetio.Chunking

/-!
# Thread and warp scope

The put and get operations exist once for a thread and once for a warp. A thread cuts its transfer
into WQEs and writes a NOP if there is nothing to move. In a warp each lane writes one WQE for a
transfer of its own, and lane `0` reserves, dumps and submits for all of them.

* `DataExact`: every write and read has a pointer segment that says how many bytes it moves;
* **`dataExact_iff`**: so it is unless a lane of a warp has nothing to move;
* `warpBase`, `getWarpLane`: what a lane does in a get, with the ticket it returns;
* `GetOp.Covered`: the ticket is not before the dump, nor before the reads of the caller;
* **`covered_iff`**: so it is unless the caller is a lane other than `0` of a warp with a dump.
-/

namespace Gpunetio

open Tiling Chunking

/-! ## Byte counts -/

/-- The opcode of a WQE. -/
def opcodeOf : Wqe → Option (BitVec 32)
  | .ctrl w _ _ _ :: _ => some (bswap32 w &&& 0xff#32)
  | _ => none

/-- The WQE is an RDMA write or an RDMA read. -/
def IsData (w : Wqe) : Prop := opcodeOf w = some opcodeRdmaWrite ∨ opcodeOf w = some opcodeRdmaRead

/-- The byte count in the pointer segment of a write or a read. -/
def pointerCount : Wqe → Option (BitVec 32)
  | [.ctrl .., .raddr .., .data byteCount _ _] => some (bswap32 byteCount)
  | _ => none

/-- The pointer segment asks for just these bytes; a count of `0` would ask for 2 GiB. -/
def Moves (w : Wqe) (bytes : ℕ) : Prop :=
  ∃ count, pointerCount w = some count ∧ count ≠ 0#32 ∧ count &&& inlineSeg = 0#32 ∧
    count.toNat = bytes

/-- The lengths of the pieces of a transfer. -/
def pieceLengths (size : BitVec 64) : List ℕ :=
  (List.range (numChunks32 size)).map fun i => (piece maxTransferSize size.toNat i).2

/-- The bytes that the WQEs of a put or a get are meant to move, in their order. -/
def OneSidedOp.meant : OneSidedOp → Option (List ℕ)
  | putThread _ _ size => some (pieceLengths size)
  | putSignalThread _ _ size _ _ _ => some (pieceLengths size)
  | getThread _ _ size _ => some (pieceLengths size)
  | putWarp _ _ size => some ((List.range warpSize).map fun lane => (size lane).toNat)
  | getWarp _ _ size _ => some ((List.range warpSize).map fun lane => (size lane).toNat)
  | _ => none

/-- The WQEs an operation writes besides: its signal, or its dump. -/
def OneSidedOp.besides (qp : QpConst) (base : ℕ) : OneSidedOp → List Wqe
  | putSignalThread _ _ size sigRaddr sigLaddr sigVal =>
    [faWqe qp (base + numChunks32 size) sigRaddr sigLaddr sigVal]
  | getThread _ _ size mcst => dumpWqes qp (base + numChunks32 size) mcst
  | getWarp _ _ _ mcst => dumpWqes qp (base + warpSize) mcst
  | _ => []

/-- A lane of a warp is asked for at most one WQE's worth. -/
def OneSidedOp.Bounded : OneSidedOp → Prop
  | putWarp _ _ size => ∀ lane < warpSize, (size lane).toNat ≤ maxTransferSize
  | getWarp _ _ size _ => ∀ lane < warpSize, (size lane).toNat ≤ maxTransferSize
  | _ => True

/-- Every lane of a warp has something to move. -/
def OneSidedOp.NoEmptyLane : OneSidedOp → Prop
  | putWarp _ _ size => ∀ lane < warpSize, size lane ≠ 0#64
  | getWarp _ _ size _ => ∀ lane < warpSize, size lane ≠ 0#64
  | _ => True

/-- Every write and every read among the WQEs moves the bytes it is meant to, where there are none
to move there is a NOP, and the rest is the signal or the dump. -/
structure DataExact (qp : QpConst) (base : ℕ) (wqes : List Wqe) (meant : List ℕ)
    (besides : List Wqe) : Prop where
  data : ∀ (i : ℕ) (w : Wqe), wqes[i]? = some w → IsData w →
    ∃ bytes, meant[i]? = some bytes ∧ Moves w bytes
  nop : ∀ i : ℕ, meant[i]? = some 0 → wqes[i]? = some (wqePrepareNop qp (base + i) ctrlCqUpdate)
  rest : wqes.drop meant.length = besides

section Counts

variable {qp : QpConst} {base wqeIdx : ℕ} {raddr laddr : VerbsAddr} {bytes : BitVec 32}

theorem opcodeOf_ctrl {opcode qpnDs : BitVec 32} {flags : BitVec 8} {imm : Option (BitVec 32)}
    {segs : List Seg} (h : opcode &&& 0xff#32 = opcode) :
    opcodeOf (.ctrl (opmodIdxOpcode wqeIdx opcode) qpnDs flags imm :: segs) = some opcode := by
  unfold opcodeOf
  dsimp only
  rw [opcode_opmodIdxOpcode wqeIdx opcode h]

theorem not_isData_of_opcodeOf {w : Wqe} {opcode : BitVec 32} (h : opcodeOf w = some opcode)
    (hw : opcode ≠ opcodeRdmaWrite) (hr : opcode ≠ opcodeRdmaRead) : ¬ IsData w := by
  unfold IsData
  rw [h, Option.some.injEq, Option.some.injEq]
  exact fun hdata => hdata.elim hw hr

theorem not_isData_wqePrepareNop : ¬ IsData (wqePrepareNop qp wqeIdx ctrlCqUpdate) :=
  not_isData_of_opcodeOf (opcodeOf_ctrl (by decide)) (by decide) (by decide)

theorem not_isData_faWqe {val : BitVec 64} : ¬ IsData (faWqe qp wqeIdx raddr laddr val) :=
  not_isData_of_opcodeOf (opcodeOf_ctrl (by decide)) (by decide) (by decide)

theorem not_isData_dumpWqes {mcst : Option VerbsAddr} :
    ∀ w ∈ dumpWqes qp wqeIdx mcst, ¬ IsData w := by
  intro w hw
  cases mcst with
  | none => cases hw
  | some daddr =>
    rw [List.mem_singleton.1 hw]
    exact not_isData_of_opcodeOf (opcodeOf_ctrl (by decide)) (by decide) (by decide)

/-- A byte count of at most 1 GiB has no bit of the mask in it. -/
theorem and_mask_of_le (h : bytes.toNat ≤ maxTransferSize) :
    bytes &&& (inlineSeg - 1#32) = bytes := by
  apply BitVec.eq_of_toNat_eq
  rw [BitVec.toNat_and]
  exact Nat.and_two_pow_sub_one_of_lt_two_pow (n := 31) (lt_of_le_of_lt h (by decide))

theorem and_inlineSeg_of_le (h : bytes.toNat ≤ maxTransferSize) : bytes &&& inlineSeg = 0#32 := by
  rw [← and_mask_of_le h, BitVec.and_assoc]
  have hmask : (inlineSeg - 1#32) &&& inlineSeg = 0#32 := by decide
  rw [hmask, BitVec.and_zero]

theorem moves_iff {w : Wqe} (hw : pointerCount w = some bytes) (h : bytes.toNat ≤ maxTransferSize) :
    Moves w bytes.toNat ↔ bytes ≠ 0#32 := by
  unfold Moves
  rw [hw]
  constructor
  · rintro ⟨count, hcount, hne, -, -⟩
    rwa [Option.some.inj hcount]
  · exact fun hne => ⟨bytes, rfl, hne, and_inlineSeg_of_le h, rfl⟩

/-- A write moves the bytes it is given, if there are any. -/
theorem moves_wqePrepareWrite_iff (h : bytes.toNat ≤ maxTransferSize) :
    Moves (wqePrepareWrite qp wqeIdx opcodeRdmaWrite ctrlCqUpdate 0#32 raddr laddr bytes)
      bytes.toNat ↔ bytes ≠ 0#32 := by
  apply moves_iff _ h
  show some (bswap32 (bswap32 (bytes &&& (inlineSeg - 1#32)))) = _
  rw [bswap32_bswap32, and_mask_of_le h]

/-- So does a read, whose count is not masked. -/
theorem moves_wqePrepareRead_iff (h : bytes.toNat ≤ maxTransferSize) :
    Moves (wqePrepareRead qp wqeIdx ctrlCqUpdate raddr laddr bytes) bytes.toNat ↔
      bytes ≠ 0#32 :=
  moves_iff (congrArg some (bswap32_bswap32 bytes)) h

theorem isData_wqePrepareWrite :
    IsData (wqePrepareWrite qp wqeIdx opcodeRdmaWrite ctrlCqUpdate 0#32 raddr laddr bytes) :=
  .inl (opcodeOf_ctrl (by decide))

theorem isData_wqePrepareRead :
    IsData (wqePrepareRead qp wqeIdx ctrlCqUpdate raddr laddr bytes) :=
  .inr (opcodeOf_ctrl (by decide))

/-- WQE by WQE. -/
theorem dataExact_map_iff {n : ℕ} {f : ℕ → Wqe} {g : ℕ → ℕ} {besides : List Wqe}
    (hrest : ∀ w ∈ besides, ¬ IsData w) :
    DataExact qp base ((List.range n).map f ++ besides) ((List.range n).map g) besides ↔
      ∀ i < n, (IsData (f i) → Moves (f i) (g i)) ∧
        (g i = 0 → f i = wqePrepareNop qp (base + i) ctrlCqUpdate) := by
  have hf : ∀ i < n, ((List.range n).map f ++ besides)[i]? = some (f i) := by
    intro i hi
    rw [List.getElem?_append_left (by simpa using hi)]
    simp [hi]
  have hg : ∀ i < n, ((List.range n).map g)[i]? = some (g i) := fun i hi => by simp [hi]
  constructor
  · intro h i hi
    constructor
    · intro hdata
      obtain ⟨bytes, hbytes, hmoves⟩ := h.data i (f i) (hf i hi) hdata
      rw [hg i hi] at hbytes
      rwa [Option.some.inj hbytes]
    · intro hzero
      have hnop := h.nop i (by rw [hg i hi, hzero])
      rw [hf i hi] at hnop
      exact Option.some.inj hnop
  · intro h
    refine ⟨?_, ?_, ?_⟩
    · intro i w hw hdata
      obtain hi | hi := Nat.lt_or_ge i n
      · rw [hf i hi] at hw
        obtain rfl := Option.some.inj hw
        exact ⟨g i, hg i hi, (h i hi).1 hdata⟩
      · rw [List.getElem?_append_right (by simpa using hi)] at hw
        exact absurd hdata (hrest w (List.mem_of_getElem? hw))
    · intro i hi
      obtain ⟨hlt, hzero⟩ := List.getElem?_eq_some_iff.1 hi
      rw [List.length_map, List.length_range] at hlt
      rw [List.getElem_map, List.getElem_range] at hzero
      rw [hf i hlt, (h i hlt).2 hzero]
    · rw [List.length_map, List.length_range]
      exact List.drop_left' (by simp)

theorem piece_le (size i : ℕ) : (piece maxTransferSize size i).2 ≤ maxTransferSize :=
  Nat.min_le_left ..

/-- The loop of a thread, for a transfer of any size. -/
theorem dataExact_thread {prep : ℕ → ℕ → BitVec 32 → Wqe} {size : BitVec 64}
    {besides : List Wqe} (hrest : ∀ w ∈ besides, ¬ IsData w)
    (hprep : ∀ k i bytes, bytes.toNat ≤ maxTransferSize → bytes ≠ 0#32 →
      Moves (prep k i bytes) bytes.toNat) :
    DataExact qp base (chunkWqes qp prep base (numChunks32 size) 0 size.toNat ++ besides)
      (pieceLengths size) besides := by
  have hlist := @chunkWqes_eq qp prep base size.toNat (numChunks32 size) 0
  rw [Nat.zero_mul, Nat.sub_zero] at hlist
  rw [hlist]
  unfold pieceLengths
  rw [dataExact_map_iff hrest]
  intro i hi
  rw [Nat.zero_add]
  have hle := piece_le size.toNat i
  have hcount : (BitVec.ofNat 32 (piece maxTransferSize size.toNat i).2).toNat =
      (piece maxTransferSize size.toNat i).2 := by
    rw [BitVec.toNat_ofNat, Nat.mod_eq_of_lt (lt_of_le_of_lt hle (by decide))]
  constructor
  · split
    · rename_i hpos
      intro _
      have hne : BitVec.ofNat 32 (piece maxTransferSize size.toNat i).2 ≠ 0#32 := by
        intro hzero
        rw [hzero, BitVec.toNat_zero] at hcount
        exact hpos.ne hcount
      have hmoves := hprep (base + i) i _ (by rw [hcount]; exact hle) hne
      rwa [hcount] at hmoves
    · exact fun hdata => absurd hdata not_isData_wqePrepareNop
  · intro hzero
    rw [if_neg (by rw [hzero]; decide)]

/-- The WQEs of a warp, one for each lane. -/
theorem dataExact_warp_iff {prep : ℕ → BitVec 32 → Wqe} {size : ℕ → BitVec 64}
    {besides : List Wqe} (hrest : ∀ w ∈ besides, ¬ IsData w)
    (hdata : ∀ lane bytes, IsData (prep lane bytes))
    (hprep : ∀ lane bytes, bytes.toNat ≤ maxTransferSize →
      (Moves (prep lane bytes) bytes.toNat ↔ bytes ≠ 0#32))
    (hsize : ∀ lane < warpSize, (size lane).toNat ≤ maxTransferSize) :
    DataExact qp base
        (((List.range warpSize).map fun lane => prep lane ((size lane).setWidth 32)) ++ besides)
        ((List.range warpSize).map fun lane => (size lane).toNat) besides ↔
      ∀ lane < warpSize, size lane ≠ 0#64 := by
  rw [dataExact_map_iff hrest]
  apply forall_congr'
  intro lane
  apply imp_congr_right
  intro hlane
  have hle := hsize lane hlane
  have hcount : ((size lane).setWidth 32).toNat = (size lane).toNat := by
    rw [BitVec.toNat_setWidth, Nat.mod_eq_of_lt (lt_of_le_of_lt hle (by decide))]
  have hiff := hprep lane ((size lane).setWidth 32) (by rw [hcount]; exact hle)
  have hzero : (size lane).setWidth 32 = 0#32 ↔ size lane = 0#64 := by
    rw [← BitVec.toNat_inj, ← BitVec.toNat_inj, hcount]
    rfl
  rw [hcount] at hiff
  constructor
  · exact fun h hz => hiff.1 (h.1 (hdata lane _)) (hzero.2 hz)
  · intro hne
    refine ⟨fun _ => hiff.2 fun hz => hne (hzero.1 hz), fun hz => absurd ?_ hne⟩
    exact BitVec.eq_of_toNat_eq hz

end Counts

/-- **Byte counts.** Every write and read of a put or a get, for every size, has a pointer segment
for the bytes it is meant to move, and there are NOPs where there are none, exactly if no lane of a
warp has nothing to move. -/
theorem OneSidedOp.dataExact_iff (op : OneSidedOp) {cudaArch : ℕ} {codeOpt : BitVec 32}
    {plan : Plan} (hplan : op.plan cudaArch codeOpt = some plan) {meant : List ℕ}
    (hmeant : op.meant = some meant) (hsize : op.Bounded) (qp : QpConst) (base : ℕ) :
    DataExact qp base (plan.wqes qp base) meant (op.besides qp base) ↔ op.NoEmptyLane := by
  cases op with
  | putThread raddr laddr size =>
    obtain rfl := Option.some.inj hplan
    obtain rfl := Option.some.inj hmeant
    have h : DataExact qp base
        (chunkWqes qp (writeChunk qp raddr laddr) base (numChunks32 size) 0 size.toNat ++ [])
        (pieceLengths size) [] :=
      dataExact_thread (by simp) fun k i bytes hle hne => (moves_wqePrepareWrite_iff hle).2 hne
    rw [List.append_nil] at h
    exact iff_of_true h trivial
  | putSignalThread raddr laddr size sigRaddr sigLaddr sigVal =>
    obtain rfl := Option.some.inj hplan
    obtain rfl := Option.some.inj hmeant
    exact iff_of_true (dataExact_thread
      (fun w hw => List.mem_singleton.1 hw ▸ not_isData_faWqe)
      fun k i bytes hle hne => (moves_wqePrepareWrite_iff hle).2 hne) trivial
  | getThread raddr laddr size mcst =>
    obtain rfl := Option.some.inj hplan
    obtain rfl := Option.some.inj hmeant
    exact iff_of_true (dataExact_thread not_isData_dumpWqes
      fun k i bytes hle hne => (moves_wqePrepareRead_iff hle).2 hne) trivial
  | putWarp raddr laddr size =>
    obtain ⟨-, hplan⟩ := Option.ite_none_right_eq_some.1 hplan
    obtain rfl := Option.some.inj hplan
    obtain rfl := Option.some.inj hmeant
    let prep := fun lane bytes => wqePrepareWrite qp (base + lane) opcodeRdmaWrite ctrlCqUpdate
      0#32 (raddr lane) (laddr lane) bytes
    have h : DataExact qp base (((List.range warpSize).map fun lane =>
        prep lane ((size lane).setWidth 32)) ++ [])
        ((List.range warpSize).map fun lane => (size lane).toNat) [] ↔ _ :=
      dataExact_warp_iff (by simp) (fun _ _ => isData_wqePrepareWrite)
        (fun _ _ => moves_wqePrepareWrite_iff) hsize
    rwa [List.append_nil] at h
  | getWarp raddr laddr size mcst =>
    obtain ⟨-, hplan⟩ := Option.ite_none_right_eq_some.1 hplan
    obtain rfl := Option.some.inj hplan
    obtain rfl := Option.some.inj hmeant
    let prep := fun lane bytes => wqePrepareRead qp (base + lane) ctrlCqUpdate (raddr lane)
      (laddr lane) bytes
    have h : DataExact qp base (((List.range warpSize).map fun lane =>
        prep lane ((size lane).setWidth 32)) ++ dumpWqes qp (base + warpSize) mcst)
        ((List.range warpSize).map fun lane => (size lane).toNat) _ ↔ _ :=
      dataExact_warp_iff not_isData_dumpWqes (fun _ _ => isData_wqePrepareRead)
        (fun _ _ => moves_wqePrepareRead_iff) hsize
    exact h
  | pThread | pWarp | putSignalWarp | pSignal | signalThread | signalWarp => cases hmeant

/-- A warp that puts, its lanes with up to 1 GiB each. -/
theorem putWarp_exact :
    DataExact ⟨3#32, 4#32⟩ 7
      ((Gpunetio.putWarp (fun _ => ⟨0x1000#64, 1#32⟩) (fun _ => ⟨0x2000#64, 2#32⟩)
        (fun lane => if lane = 0 then 0x40000000#64 else 1#64) 0#32).wqes ⟨3#32, 4#32⟩ 7)
      ((List.range warpSize).map fun lane =>
        (if lane = 0 then 0x40000000#64 else 1#64).toNat) [] :=
  ((OneSidedOp.putWarp (fun _ => ⟨0x1000#64, 1#32⟩) (fun _ => ⟨0x2000#64, 2#32⟩)
    (fun lane => if lane = 0 then 0x40000000#64 else 1#64)).dataExact_iff
    (rfl : OneSidedOp.plan 800 0#32 _ = _) rfl (fun lane _ => by dsimp only; split <;> decide)
    ⟨3#32, 4#32⟩ 7).2
    fun lane _ => by dsimp only; split <;> decide

/-- The lanes have nothing to put, and write WQEs for 2 GiB each. -/
theorem putWarp_zero_not_exact :
    let op := OneSidedOp.putWarp (fun _ => ⟨0x1000#64, 1#32⟩) (fun _ => ⟨0x2000#64, 2#32⟩)
      fun _ => 0#64
    op.Bounded ∧ ∃ plan meant, op.plan 800 0#32 = some plan ∧ op.meant = some meant ∧
      (plan.wqes ⟨3#32, 4#32⟩ 0).head?.bind pointerCount = some 0#32 ∧
      ¬ DataExact ⟨3#32, 4#32⟩ 0 (plan.wqes ⟨3#32, 4#32⟩ 0) meant (op.besides ⟨3#32, 4#32⟩ 0) := by
  refine ⟨fun _ _ => Nat.zero_le _, _, _, rfl, rfl, by decide, fun h => ?_⟩
  exact absurd (h.nop 0 rfl) (by decide)

/-! ## Tickets -/

/-- `__reduce_max_sync`, over all lanes. -/
def reduceMaxSync (v : ℕ → BitVec 32) : BitVec 32 :=
  BitVec.ofNat 32 ((List.range warpSize).foldl (fun m lane => max m (v lane).toNat) 0)

/-- `base_wqe_idx`, as every lane has it: lane `0` shares the index it has reserved, by halves. -/
def warpBase (base : BitVec 64) : BitVec 64 :=
  let baseWqeIdx0 := reduceMaxSync fun lane => if lane = 0 then base.setWidth 32 else 0
  let baseWqeIdx1 := reduceMaxSync fun lane => if lane = 0 then (base >>> 32).setWidth 32 else 0
  baseWqeIdx1.setWidth 64 <<< 32 ||| baseWqeIdx0.setWidth 64

/-- The WQEs a caller writes, and the ticket it is left with. -/
structure Returned where
  written : List (BitVec 64 × Wqe)
  ticket : BitVec 64

/-- A lane in `doca_gpu_dev_verbs_get_warp`, once lane `0` has reserved the slots from `base` on;
`mcst` is `daddr` if `mcst_mode` is enabled. -/
def getWarpLane (qp : QpConst) (base : BitVec 64) (args : ℕ → ChunkArgs) (mcst : Option VerbsAddr)
    (lane : ℕ) : Returned :=
  let baseWqeIdx := warpBase base
  let wqeIdx := baseWqeIdx + BitVec.ofNat 64 lane
  let read := wqePrepareRead qp wqeIdx.toNat ctrlCqUpdate (args lane).raddr (args lane).laddr
    ((args lane).size.setWidth 32)
  if lane = 0 then
    match mcst with
    | some daddr =>
      let dumpIdx := baseWqeIdx + BitVec.ofNat 64 warpSize
      { written := [(wqeIdx, read), (dumpIdx, dumpWqe qp daddr dumpIdx)], ticket := dumpIdx }
    | none => { written := [(wqeIdx, read)], ticket := wqeIdx }
  else { written := [(wqeIdx, read)], ticket := wqeIdx }

/-- A call of `doca_gpu_dev_verbs_get`. -/
inductive GetOp
  | thread (args : ChunkArgs)
  | warp (args : ℕ → ChunkArgs)

namespace GetOp

/-- The callers: a thread counts as lane `0`. -/
def IsCaller : GetOp → ℕ → Prop
  | thread _, lane => lane = 0
  | warp _, lane => lane < warpSize

/-- What a caller writes and returns, from the index reserved on; a warp needs
`__CUDA_ARCH__ >= 800`. -/
def returned (cudaArch : ℕ) (qp : QpConst) (base : BitVec 64) (mcst : Option VerbsAddr) :
    GetOp → ℕ → Returned
  | thread args, _ =>
    let p := Chunking.getThread qp base args mcst
    { written := p.written, ticket := p.ticket.getD 0 }
  | warp args, lane =>
    if 800 ≤ cudaArch then getWarpLane qp base args mcst lane else { written := [], ticket := 0 }

end GetOp

/-- The caller writes the dump itself, if there is one. -/
def GetOp.WritesDump (cudaArch : ℕ) (mcst : Option VerbsAddr) (lane : ℕ) : GetOp → Prop
  | thread _ => True
  | warp _ => 800 ≤ cudaArch → mcst.isSome → lane = 0

/-- A WQE is not after the ticket, counting from the first index reserved. -/
def NotAfter (base ticket wqeIdx : BitVec 64) : Prop :=
  (wqeIdx - base).toNat ≤ (ticket - base).toNat

/-- The ticket of a caller is not before the dump, whoever wrote it, nor before a read of its own.
-/
structure GetOp.Covered (op : GetOp) (cudaArch : ℕ) (qp : QpConst) (base : BitVec 64)
    (mcst : Option VerbsAddr) (lane : ℕ) : Prop where
  dump : ∀ other, op.IsCaller other → ∀ e ∈ (op.returned cudaArch qp base mcst other).written,
    opcodeOf e.2 = some opcodeDump →
      NotAfter base (op.returned cudaArch qp base mcst lane).ticket e.1
  read : ∀ e ∈ (op.returned cudaArch qp base mcst lane).written,
    opcodeOf e.2 = some opcodeRdmaRead →
      NotAfter base (op.returned cudaArch qp base mcst lane).ticket e.1

/-- A maximum in which only lane `0` takes part. -/
theorem reduceMaxSync_lane_zero (x : BitVec 32) :
    reduceMaxSync (fun lane => if lane = 0 then x else 0) = x := by
  have hfold : ∀ n, (List.range (n + 1)).foldl
      (fun m lane => max m (if lane = 0 then x else 0).toNat) 0 = x.toNat := by
    intro n
    induction n with
    | zero => exact Nat.max_eq_right (Nat.zero_le _)
    | succ n ih =>
      rw [List.range_succ, List.foldl_append, ih]
      exact Nat.max_eq_left (Nat.zero_le _)
  have hmax : reduceMaxSync (fun lane => if lane = 0 then x else 0) = BitVec.ofNat 32 x.toNat :=
    congrArg (BitVec.ofNat 32) (hfold 31)
  rw [hmax, BitVec.ofNat_toNat, BitVec.setWidth_eq]

/-- The two halves make the index again. -/
theorem warpBase_eq (base : BitVec 64) : warpBase base = base := by
  unfold warpBase
  dsimp only
  rw [reduceMaxSync_lane_zero, reduceMaxSync_lane_zero]
  apply BitVec.eq_of_getLsbD_eq
  intro i hi
  rw [BitVec.getLsbD_or, BitVec.getLsbD_shiftLeft, BitVec.getLsbD_setWidth, BitVec.getLsbD_setWidth,
    BitVec.getLsbD_setWidth, BitVec.getLsbD_setWidth, BitVec.getLsbD_ushiftRight]
  obtain hlt | hge := Nat.lt_or_ge i 32
  · simp [hlt, hi]
  · have hsub : 32 + (i - 32) = i := by omega
    rw [hsub]
    simp [hi, Nat.not_lt.2 hge, show i - 32 < 64 by omega, show i - 32 < 32 by omega]

theorem notAfter_add_iff (base : BitVec 64) {i j : ℕ} (hi : i < 2 ^ 64) (hj : j < 2 ^ 64) :
    NotAfter base (base + BitVec.ofNat 64 j) (base + BitVec.ofNat 64 i) ↔ i ≤ j := by
  have hsub : ∀ k < 2 ^ 64, (base + BitVec.ofNat 64 k - base).toNat = k := by
    intro k hk
    rw [BitVec.add_comm, BitVec.add_sub_cancel, BitVec.toNat_ofNat, Nat.mod_eq_of_lt hk]
  unfold NotAfter
  rw [hsub i hi, hsub j hj]

section Tickets

variable {qp : QpConst} {base : BitVec 64} {args : ChunkArgs}

/-- A thread returns the last index it writes. -/
theorem notAfter_getThread (mcst : Option VerbsAddr) :
    ∀ e ∈ (Chunking.getThread qp base args mcst).written,
      NotAfter base ((Chunking.getThread qp base args mcst).ticket.getD 0) e.1 := by
  have hlt := (getChunks args.size).isLt
  have hpos : 0 < (getChunks args.size).toNat := by
    unfold getChunks
    rw [toNat_atLeastOne (by decide) (Nat.zero_le 1)]
    exact lt_of_lt_of_le Nat.one_pos (le_max_right _ _)
  have hloop : ∀ last, (getChunks args.size).toNat - 1 ≤ last → last < 2 ^ 64 →
      ∀ e ∈ (chunkLoop qp (prepareRead qp args.raddr args.laddr) base args.size
        (getChunks args.size).toNat).written, NotAfter base (base + BitVec.ofNat 64 last) e.1 := by
    intro last hle hlast e he
    rw [chunkLoop_written] at he
    obtain ⟨i, hi, rfl⟩ := List.mem_map.1 he
    rw [List.mem_range] at hi
    exact (notAfter_add_iff base (by omega) hlast).2 (by omega)
  intro e he
  cases mcst with
  | none =>
    show NotAfter base (chunkLoop ..).wqeIdx e.1
    rw [chunkLoop_wqeIdx hpos]
    exact hloop _ le_rfl (by omega) e he
  | some daddr =>
    have hidx : (getChunks args.size).setWidth 64 =
        BitVec.ofNat 64 (getChunks args.size).toNat := (BitVec.ofNat_toNat 64 _).symm
    show NotAfter base (base + (getChunks args.size).setWidth 64) e.1
    rw [hidx]
    obtain he | he := List.mem_append.1 he
    · exact hloop _ (Nat.sub_le _ _) (by omega) e he
    · rw [List.mem_singleton.1 he]
      show NotAfter base _ (base + (getChunks args.size).setWidth 64)
      rw [hidx]
      exact le_rfl

/-- A lane of a warp returns the index of its read, lane `0` that of the dump if there is one. -/
theorem ticket_getWarpLane (args : ℕ → ChunkArgs) (mcst : Option VerbsAddr) (lane : ℕ) :
    (getWarpLane qp base args mcst lane).ticket =
      base + BitVec.ofNat 64 (if lane = 0 ∧ mcst.isSome then warpSize else lane) := by
  unfold getWarpLane
  dsimp only
  rw [warpBase_eq]
  by_cases h0 : lane = 0
  · cases mcst with
    | none => rw [if_pos h0, if_neg (by simp)]
    | some daddr => rw [if_pos h0, if_pos ⟨h0, rfl⟩]
  · rw [if_neg h0, if_neg (fun h => h0 h.1)]

/-- What a lane writes: its read and, if it is lane `0`, the dump. -/
theorem mem_getWarpLane {args : ℕ → ChunkArgs} {mcst : Option VerbsAddr} {lane : ℕ}
    {e : BitVec 64 × Wqe} (he : e ∈ (getWarpLane qp base args mcst lane).written) :
    (e.1 = base + BitVec.ofNat 64 lane ∧ opcodeOf e.2 = some opcodeRdmaRead) ∨
      (lane = 0 ∧ mcst.isSome ∧ e.1 = base + BitVec.ofNat 64 warpSize ∧
        opcodeOf e.2 = some opcodeDump) := by
  unfold getWarpLane at he
  dsimp only at he
  rw [warpBase_eq] at he
  by_cases h0 : lane = 0
  · rw [if_pos h0] at he
    cases mcst with
    | none =>
      rw [List.mem_singleton.1 he]
      exact .inl ⟨rfl, opcodeOf_ctrl (by decide)⟩
    | some daddr =>
      obtain rfl | he := List.mem_cons.1 he
      · exact .inl ⟨rfl, opcodeOf_ctrl (by decide)⟩
      · rw [List.mem_singleton.1 he]
        exact .inr ⟨h0, rfl, rfl, opcodeOf_ctrl (by decide)⟩
  · rw [if_neg h0, List.mem_singleton] at he
    rw [he]
    exact .inl ⟨rfl, opcodeOf_ctrl (by decide)⟩

end Tickets

/-- **Tickets.** For every size and base index, the ticket of a get is not before the dump, nor
before a read of its caller, exactly if the caller writes the dump itself or there is none. -/
theorem GetOp.covered_iff (op : GetOp) (cudaArch : ℕ) (qp : QpConst) (base : BitVec 64)
    (mcst : Option VerbsAddr) {lane : ℕ} (hlane : op.IsCaller lane) :
    op.Covered cudaArch qp base mcst lane ↔ op.WritesDump cudaArch mcst lane := by
  cases op with
  | thread args =>
    exact iff_of_true ⟨fun _ _ e he _ => notAfter_getThread mcst e he,
      fun e he _ => notAfter_getThread mcst e he⟩ trivial
  | warp args =>
    have hlt : lane < 32 := hlane
    unfold GetOp.WritesDump
    by_cases harch : 800 ≤ cudaArch
    · have hret : ∀ other, (warp args).returned cudaArch qp base mcst other =
          getWarpLane qp base args mcst other := fun other => if_pos harch
      constructor
      · intro h _ hmcst
        obtain ⟨daddr, rfl⟩ := Option.isSome_iff_exists.1 hmcst
        by_contra h0
        -- the dump is at `base + 32`, the ticket is that of the read of the lane
        have hdump := h.dump 0 (Nat.succ_pos 31)
          (base + BitVec.ofNat 64 warpSize, dumpWqe qp daddr (base + BitVec.ofNat 64 warpSize))
        rw [hret, hret, ticket_getWarpLane, if_neg (fun h => h0 h.1)] at hdump
        have hmem := hdump (by simp [getWarpLane, warpBase_eq]) (opcodeOf_ctrl (by decide))
        have hle := (notAfter_add_iff base (by decide) (by omega)).1 hmem
        exact absurd hle (Nat.not_le.2 hlt)
      · intro h
        refine ⟨?_, ?_⟩
        · intro other _ e he hop
          rw [hret] at he
          rw [hret, ticket_getWarpLane]
          obtain ⟨-, hread⟩ | ⟨-, hmcst, hidx, -⟩ := mem_getWarpLane he
          · rw [hread] at hop
            cases hop
          · rw [if_pos ⟨h harch hmcst, hmcst⟩, hidx]
            exact le_rfl
        · intro e he hop
          rw [hret] at he
          rw [hret, ticket_getWarpLane]
          obtain ⟨hidx, -⟩ | ⟨-, -, -, hdump⟩ := mem_getWarpLane he
          · have hw : warpSize = 32 := rfl
            rw [hidx, notAfter_add_iff base (by omega) (by split <;> omega)]
            split <;> omega
          · rw [hdump] at hop
            cases hop
    · have hret : ∀ other, (warp args).returned cudaArch qp base mcst other =
          { written := [], ticket := 0 } := fun other => if_neg harch
      refine iff_of_true ⟨fun other _ e he => ?_, fun e he => ?_⟩ fun h => absurd h harch
      · rw [hret] at he
        cases he
      · rw [hret] at he
        cases he

/-- Lane `0` of a warp with a dump. -/
theorem getWarp_lane_zero_covered :
    (GetOp.warp fun _ => ⟨⟨0x1000#64, 1#32⟩, ⟨0x2000#64, 2#32⟩, 8#64⟩).Covered 800 ⟨3#32, 4#32⟩
      0xfffffffffffffff0#64 (some ⟨0x3000#64, 2#32⟩) 0 :=
  (GetOp.covered_iff (.warp _) 800 _ _ _ (Nat.succ_pos 31)).2 fun _ _ => rfl

/-- Lane `5` of a warp with a dump returns `5`; the dump is at `32`. -/
theorem getWarp_lane_five_not_covered :
    let op := GetOp.warp fun _ => ⟨⟨0x1000#64, 1#32⟩, ⟨0x2000#64, 2#32⟩, 8#64⟩
    op.IsCaller 5 ∧
      (op.returned 800 ⟨3#32, 4#32⟩ 0#64 (some ⟨0x3000#64, 2#32⟩) 5).ticket = 5#64 ∧
      ¬ op.Covered 800 ⟨3#32, 4#32⟩ 0#64 (some ⟨0x3000#64, 2#32⟩) 5 := by
  have hlane : 5 < warpSize := by decide
  refine ⟨hlane, by decide, fun h => ?_⟩
  have hdump := h.dump 0 (Nat.succ_pos 31)
    (32#64, dumpWqe ⟨3#32, 4#32⟩ ⟨0x3000#64, 2#32⟩ 32#64) (by decide) (by decide)
  have hle : (32#64 - 0#64).toNat ≤ (5#64 - 0#64).toNat := hdump
  exact absurd hle (by decide)

end Gpunetio
