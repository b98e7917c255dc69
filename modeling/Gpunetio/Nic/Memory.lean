import Gpunetio.Chunking
import Gpunetio.Lib.AddrSpace
import Gpunetio.Lib.InOrder
import Gpunetio.Nic.Model
import Gpunetio.Scope

/-!
# What the operations do to the memory

The WQEs of an operation work on the local and the remote memory, each a byte at each address under
each key. What a NIC does for a write, a read, a fetch-and-add, a NOP and a dump is assumed; that
the WQEs of an operation together do what the operation is for is not.

* `RdmaMem`, `Transfer.write`, `Transfer.read`, `FetchAdd.apply`;
* `RdmaNic`: a NIC that does these; `rdmaExec`, `rdmaNic_rdmaExec`: one that does;
* `ChunkedOp.apply`: what the operation is for: one copy, and then the counter is raised;
* `planWqes_counted`: the WQEs count their segments;
* **`replay_planWqes`**: the WQEs of an operation, executed in order, do it.
-/

namespace Gpunetio

open Tiling

/-- The local and the remote memory. -/
structure RdmaMem where
  loc : AddrSpace (BitVec 32) 64
  rem : AddrSpace (BitVec 32) 64

open Chunking

namespace Chunking.Transfer

/-- The bytes from the local range to the remote one. -/
def write (t : Transfer) (m : RdmaMem) : RdmaMem :=
  { m with
    rem := .blit m.loc t.locl.key t.locl.addr t.remote.key t.remote.addr t.byteCount m.rem }

/-- The bytes from the remote range to the local one. -/
def read (t : Transfer) (m : RdmaMem) : RdmaMem :=
  { m with
    loc := .blit m.rem t.remote.key t.remote.addr t.locl.key t.locl.addr t.byteCount m.loc }

end Chunking.Transfer

/-- A fetch-and-add as the NIC decodes it. -/
structure FetchAdd where
  remote : VerbsAddr
  locl : VerbsAddr
  add : BitVec 64
deriving DecidableEq, Repr

/-- The fetch-and-add of 8 bytes. -/
def fetchAddOf : Wqe → Option FetchAdd
  | [.ctrl w _ _ _, .raddr raddr rkey, .atomic swapAdd _, .data byteCount lkey laddr] =>
    if bswap32 w &&& 0xff#32 = opcodeAtomicFa ∧ bswap32 byteCount = 8#32 then
      some ⟨⟨bswap64 raddr, rkey⟩, ⟨bswap64 laddr, lkey⟩, bswap64 swapAdd⟩
    else none
  | _ => none

/-- The remote word is raised, and the local one becomes what it was. -/
def FetchAdd.apply (f : FetchAdd) (m : RdmaMem) : RdmaMem where
  loc := m.loc.setWord f.locl.key f.locl.addr (m.rem.word f.remote.key f.remote.addr)
  rem := m.rem.setWord f.remote.key f.remote.addr
    (m.rem.word f.remote.key f.remote.addr + f.add)

/-- **A NIC** as documented: it copies for a write and for a read of at most 2 GiB, adds for a
fetch-and-add, and leaves the memory alone for a NOP and for a dump. -/
structure RdmaNic (effect : Wqe → RdmaMem → RdmaMem) : Prop where
  write : ∀ w t m, transferOf w = some t → t.opcode = opcodeRdmaWrite → 0 < t.byteCount →
    t.byteCount ≤ 2 ^ 31 → effect w m = t.write m
  read : ∀ w t m, transferOf w = some t → t.opcode = opcodeRdmaRead → 0 < t.byteCount →
    t.byteCount ≤ 2 ^ 31 → effect w m = t.read m
  fetchAdd : ∀ w f m, fetchAddOf w = some f → effect w m = f.apply m
  nop : ∀ w m, opcodeOf w = some opcodeNop → effect w m = m
  dump : ∀ w m, opcodeOf w = some opcodeDump → effect w m = m

/-- Such a NIC. -/
def rdmaExec (w : Wqe) (m : RdmaMem) : RdmaMem :=
  match fetchAddOf w, transferOf w with
  | some f, _ => f.apply m
  | none, some t =>
    if t.opcode = opcodeRdmaWrite then t.write m
    else if t.opcode = opcodeRdmaRead then t.read m
    else m
  | none, none => m

theorem opcodeOf_of_transferOf {w : Wqe} {t : Transfer} (h : transferOf w = some t) :
    opcodeOf w = some t.opcode ∧ fetchAddOf w = none := by
  unfold transferOf at h
  split at h
  · obtain rfl := Option.some.inj h
    exact ⟨rfl, rfl⟩
  · cases h

theorem opcodeOf_of_fetchAddOf {w : Wqe} {f : FetchAdd} (h : fetchAddOf w = some f) :
    opcodeOf w = some opcodeAtomicFa := by
  unfold fetchAddOf at h
  split at h
  · obtain ⟨⟨hop, -⟩, -⟩ := Option.ite_none_right_eq_some.1 h
    exact congrArg some hop
  · cases h

theorem rdmaNic_rdmaExec : RdmaNic rdmaExec where
  write := by
    intro w t m ht hop _ _
    simp only [rdmaExec, (opcodeOf_of_transferOf ht).2, ht, hop, if_true]
  read := by
    intro w t m ht hop _ _
    simp only [rdmaExec, (opcodeOf_of_transferOf ht).2, ht, hop,
      (by decide : opcodeRdmaRead ≠ opcodeRdmaWrite), if_true, if_false]
  fetchAdd := by
    intro w f m hf
    simp only [rdmaExec, hf]
  nop := by
    intro w m hop
    unfold rdmaExec
    split
    · rename_i f hf
      rw [opcodeOf_of_fetchAddOf hf] at hop
      exact absurd hop (by decide)
    · rename_i t _ ht
      rw [(opcodeOf_of_transferOf ht).1, Option.some.injEq] at hop
      rw [hop, if_neg (by decide), if_neg (by decide)]
    · rfl
  dump := by
    intro w m hop
    unfold rdmaExec
    split
    · rename_i f hf
      rw [opcodeOf_of_fetchAddOf hf] at hop
      exact absurd hop (by decide)
    · rename_i t _ ht
      rw [(opcodeOf_of_transferOf ht).1, Option.some.injEq] at hop
      rw [hop, if_neg (by decide), if_neg (by decide)]
    · rfl

/-! ## What the operations are for -/

namespace Chunking

/-- A put: one copy. -/
def ChunkArgs.put (args : ChunkArgs) (m : RdmaMem) : RdmaMem :=
  { m with
    rem := .blit m.loc args.laddr.key args.laddr.addr args.raddr.key args.raddr.addr
      args.size.toNat m.rem }

/-- A get: one copy back. -/
def ChunkArgs.get (args : ChunkArgs) (m : RdmaMem) : RdmaMem :=
  { m with
    loc := .blit m.rem args.raddr.key args.raddr.addr args.laddr.key args.laddr.addr
      args.size.toNat m.loc }

/-- A signal: the counter is raised. -/
def SignalArgs.signal (sig : SignalArgs) : RdmaMem → RdmaMem :=
  FetchAdd.apply ⟨sig.sigRaddr, sig.sigLaddr, sig.sigVal⟩

/-- What an operation is for. -/
def ChunkedOp.apply (args : ChunkArgs) : ChunkedOp → RdmaMem → RdmaMem
  | putThread, m => args.put m
  | putSignalThread sig, m => sig.signal (args.put m)
  | getThread _, m => args.get m
  | putCounter, m => args.put m
  | putSignalCounter sig, m => sig.signal (args.put m)
  | getCounter, m => args.get m

end Chunking

section Effect

variable {effect : Wqe → RdmaMem → RdmaMem} {qp : QpConst} {args : ChunkArgs} {m : RdmaMem}

theorem opcodeOf_nop (wqeIdx : ℕ) :
    opcodeOf (wqePrepareNop qp wqeIdx ctrlCqUpdate) = some opcodeNop :=
  opcodeOf_ctrl (by decide)

/-- The writes of pieces, one after the other. -/
theorem replay_writes (hnic : RdmaNic effect) {pieces : List (ℕ × ℕ)} {ws : List Wqe}
    (hws : ws.map transferOf = pieces.map fun p => some (pieceTransfer opcodeRdmaWrite args p))
    (hb : ∀ p ∈ pieces, 0 < p.2 ∧ p.2 ≤ 2 ^ 31) (rem : AddrSpace (BitVec 32) 64) :
    replay effect ws { m with rem := rem } =
      { m with
        rem := pieces.foldl (fun rem p => .blit m.loc args.laddr.key
          (args.laddr.addr + BitVec.ofNat 64 p.1) args.raddr.key
          (args.raddr.addr + BitVec.ofNat 64 p.1) p.2 rem) rem } := by
  induction pieces generalizing ws rem with
  | nil =>
    rw [List.map_nil, List.map_eq_nil_iff] at hws
    rw [hws]
    rfl
  | cons p l ih =>
    obtain ⟨w, ws, rfl, hw, hrest⟩ := List.map_eq_cons_iff.1 hws
    obtain ⟨hpos, hle⟩ := hb p List.mem_cons_self
    rw [replay_cons, hnic.write w _ _ hw rfl hpos hle]
    exact ih hrest (fun q hq => hb q (List.mem_cons_of_mem _ hq)) _

/-- The reads of pieces, one after the other. -/
theorem replay_reads (hnic : RdmaNic effect) {pieces : List (ℕ × ℕ)} {ws : List Wqe}
    (hws : ws.map transferOf = pieces.map fun p => some (pieceTransfer opcodeRdmaRead args p))
    (hb : ∀ p ∈ pieces, 0 < p.2 ∧ p.2 ≤ 2 ^ 31) (loc : AddrSpace (BitVec 32) 64) :
    replay effect ws { m with loc := loc } =
      { m with
        loc := pieces.foldl (fun loc p => .blit m.rem args.raddr.key
          (args.raddr.addr + BitVec.ofNat 64 p.1) args.laddr.key
          (args.laddr.addr + BitVec.ofNat 64 p.1) p.2 loc) loc } := by
  induction pieces generalizing ws loc with
  | nil =>
    rw [List.map_nil, List.map_eq_nil_iff] at hws
    rw [hws]
    rfl
  | cons p l ih =>
    obtain ⟨w, ws, rfl, hw, hrest⟩ := List.map_eq_cons_iff.1 hws
    obtain ⟨hpos, hle⟩ := hb p List.mem_cons_self
    rw [replay_cons, hnic.read w _ _ hw rfl hpos hle]
    exact ih hrest (fun q hq => hb q (List.mem_cons_of_mem _ hq)) _

/-- The pieces of a transfer of some bytes. -/
theorem pieces_bounds {size : BitVec 64} (h : 0 < size.toNat) :
    ∀ p ∈ (List.range (chunksOf size.toNat)).map (piece maxTransferSize size.toNat),
      0 < p.2 ∧ p.2 ≤ 2 ^ 31 := by
  intro p hp
  obtain ⟨-, hpos, hle, -⟩ := (tiles_chunks h).bounds hp
  exact ⟨hpos, hle.trans (by decide)⟩

/-- A transfer of no bytes is a NOP. -/
theorem replay_empty (hnic : RdmaNic effect) {prepare : BitVec 64 → ℕ → BitVec 32 → Wqe}
    {base size : BitVec 64} (h : size.toNat = 0) :
    replay effect ((chunkLoop qp prepare base size (chunksOf size.toNat)).written.map Prod.snd) m =
      m := by
  have hone : chunksOf 0 = 1 := by decide
  rw [chunkLoop_written, h, hone]
  exact hnic.nop _ m (opcodeOf_nop _)

/-- **The writes of a put are one copy.** -/
theorem replay_put (hnic : RdmaNic effect) (qp : QpConst) (args : ChunkArgs) (base : BitVec 64)
    (m : RdmaMem) :
    replay effect ((chunkLoop qp (prepareWrite qp args.raddr args.laddr) base args.size
      (chunksOf args.size.toNat)).written.map Prod.snd) m = args.put m := by
  obtain h0 | hpos := Nat.eq_zero_or_pos args.size.toNat
  · rw [replay_empty hnic h0, ChunkArgs.put, h0, AddrSpace.blit_zero]
  · have hprep : ∀ (wqeIdx : BitVec 64) i bytes, bytes ≤ maxTransferSize →
        transferOf (prepareWrite qp args.raddr args.laddr wqeIdx i (BitVec.ofNat 32 bytes)) =
          some (pieceTransfer opcodeRdmaWrite args (i * maxTransferSize, bytes)) :=
      fun wqeIdx i _ => transferOf_prepareWrite args wqeIdx i
    have htiles := AddrSpace.foldl_blit m.loc args.laddr.key args.laddr.addr args.raddr.key
      args.raddr.addr m.rem (tiles_chunks hpos) (by rw [Nat.zero_add]; exact args.size.isLt.le)
    rw [AddrSpace.blit_zero, Nat.zero_add] at htiles
    exact (replay_writes hnic (by rw [List.map_map]; exact chunkLoop_tiles hprep hpos)
      (pieces_bounds hpos) m.rem).trans
      (congrArg (fun rem => { m with rem := rem }) htiles)

/-- **The reads of a get are one copy.** -/
theorem replay_get (hnic : RdmaNic effect) (qp : QpConst) (args : ChunkArgs) (base : BitVec 64)
    (m : RdmaMem) :
    replay effect ((chunkLoop qp (prepareRead qp args.raddr args.laddr) base args.size
      (chunksOf args.size.toNat)).written.map Prod.snd) m = args.get m := by
  obtain h0 | hpos := Nat.eq_zero_or_pos args.size.toNat
  · rw [replay_empty hnic h0, ChunkArgs.get, h0, AddrSpace.blit_zero]
  · have hprep : ∀ (wqeIdx : BitVec 64) i bytes, bytes ≤ maxTransferSize →
        transferOf (prepareRead qp args.raddr args.laddr wqeIdx i (BitVec.ofNat 32 bytes)) =
          some (pieceTransfer opcodeRdmaRead args (i * maxTransferSize, bytes)) :=
      fun wqeIdx i _ => transferOf_prepareRead args wqeIdx i
    have htiles := AddrSpace.foldl_blit m.rem args.raddr.key args.raddr.addr args.laddr.key
      args.laddr.addr m.loc (tiles_chunks hpos) (by rw [Nat.zero_add]; exact args.size.isLt.le)
    rw [AddrSpace.blit_zero, Nat.zero_add] at htiles
    exact (replay_reads hnic (by rw [List.map_map]; exact chunkLoop_tiles hprep hpos)
      (pieces_bounds hpos) m.loc).trans
      (congrArg (fun loc => { m with loc := loc }) htiles)

theorem fetchAddOf_faWqe (wqeIdx : ℕ) (raddr laddr : VerbsAddr) (val : BitVec 64) :
    fetchAddOf (faWqe qp wqeIdx raddr laddr val) = some ⟨raddr, laddr, val⟩ := by
  have hop := opcode_opmodIdxOpcode wqeIdx opcodeAtomicFa (by decide)
  unfold faWqe wqePrepareAtomic fetchAddOf
  simp only [hop, bswap32_bswap32, bswap64_bswap64, and_self, if_true]

/-- The fetch-and-add of a signal. -/
theorem replay_signal (hnic : RdmaNic effect) (sig : SignalArgs) (wqeIdx : ℕ) :
    replay effect [faWqe qp wqeIdx sig.sigRaddr sig.sigLaddr sig.sigVal] m = sig.signal m :=
  hnic.fetchAdd _ _ m (fetchAddOf_faWqe wqeIdx _ _ _)

theorem replay_dump (hnic : RdmaNic effect) (wqeIdx : ℕ) (mcst : Option VerbsAddr) :
    replay effect (dumpWqes qp wqeIdx mcst) m = m := by
  cases mcst with
  | none => rfl
  | some daddr => exact hnic.dump _ m (opcodeOf_ctrl (by decide))

theorem replay_putWqes (hnic : RdmaNic effect) (base : ℕ) :
    replay effect (putWqes qp args.raddr args.laddr args.size base) m = args.put m := by
  have h := replay_put hnic qp args (BitVec.ofNat 64 base) m
  rw [putLoop_wqes] at h
  unfold putWqes
  rw [numChunks_eq]
  exact h

theorem replay_getWqes (hnic : RdmaNic effect) (base : ℕ) :
    replay effect (getWqes qp args.raddr args.laddr args.size base) m = args.get m := by
  have h := replay_get hnic qp args (BitVec.ofNat 64 base) m
  rw [getLoop_wqes] at h
  unfold getWqes
  rw [numChunks_eq]
  exact h

theorem replay_putThread (hnic : RdmaNic effect) (h : chunksOf args.size.toNat < 2 ^ 32)
    (base : ℕ) : replay effect (ChunkedOp.putThread.planWqes args qp base) m = args.put m := by
  have hput := replay_put hnic qp args (BitVec.ofNat 64 base) m
  rw [putLoop_wqes] at hput
  unfold ChunkedOp.planWqes
  simp only [Gpunetio.putThread, numChunks32_eq h]
  exact hput

theorem replay_putSignalThread (hnic : RdmaNic effect) (h : chunksOf args.size.toNat < 2 ^ 32)
    (sig : SignalArgs) (base : ℕ) :
    replay effect ((ChunkedOp.putSignalThread sig).planWqes args qp base) m =
      sig.signal (args.put m) := by
  have hput := replay_put hnic qp args (BitVec.ofNat 64 base) m
  rw [putLoop_wqes] at hput
  unfold ChunkedOp.planWqes
  simp only [Gpunetio.putSignalThread, numChunks32_eq h]
  rw [replay_append, hput, replay_signal hnic]

theorem replay_getThread (hnic : RdmaNic effect) (h : chunksOf args.size.toNat < 2 ^ 32)
    (mcst : Option VerbsAddr) (base : ℕ) :
    replay effect ((ChunkedOp.getThread mcst).planWqes args qp base) m = args.get m := by
  have hget := replay_get hnic qp args (BitVec.ofNat 64 base) m
  rw [getLoop_wqes] at hget
  unfold ChunkedOp.planWqes
  simp only [Gpunetio.getThread, numChunks32_eq h]
  rw [replay_append, hget, replay_dump hnic]

/-- **An operation does what it is for.** For every size whose chunks a 32-bit number counts and at
every index, addresses wrapping around, the WQEs that an operation writes, executed in their order,
make one copy of the whole range and change nothing else, and then raise the counter to signal, if
there is one. -/
theorem replay_planWqes (hnic : RdmaNic effect) (op : ChunkedOp) (args : ChunkArgs) (qp : QpConst)
    (base : ℕ) (m : RdmaMem) (h : chunksOf args.size.toNat < 2 ^ 32) :
    replay effect (op.planWqes args qp base) m = op.apply args m := by
  cases op with
  | putThread => exact replay_putThread hnic h base
  | putSignalThread sig => exact replay_putSignalThread hnic h sig base
  | getThread mcst => exact replay_getThread hnic h mcst base
  | putCounter => exact replay_putWqes hnic base
  | putSignalCounter sig =>
    have hsplit : replay effect ((ChunkedOp.putSignalCounter sig).planWqes args qp base) m =
        sig.signal (replay effect (putWqes qp args.raddr args.laddr args.size base) m) := by
      rw [ChunkedOp.planWqes, CounterOp.mainWqes, replay_append, replay_signal hnic]
    rw [hsplit, replay_putWqes hnic]
    rfl
  | getCounter => exact replay_getWqes hnic base

/-- A put of two chunks and one byte, and its signal, into a memory of zeros. -/
theorem putSignal_executed :
    let args : ChunkArgs := ⟨⟨0x1000#64, 1#32⟩, ⟨0x2000#64, 2#32⟩, 0x80000001#64⟩
    let sig : SignalArgs := ⟨⟨0#64, 1#32⟩, ⟨0#64, 2#32⟩, 1#64⟩
    replay rdmaExec ((ChunkedOp.putSignalThread sig).planWqes args ⟨3#32, 4#32⟩ 65534)
        ⟨fun _ _ => 0, fun _ _ => 0⟩ =
      sig.signal (args.put ⟨fun _ _ => 0, fun _ _ => 0⟩) :=
  replay_planWqes rdmaNic_rdmaExec (.putSignalThread _) _ _ _ _ (by decide)

/-! ## The segments are counted -/

/-- The low byte of the second word of a control segment. -/
theorem dsCount_ctrl (qp : QpConst) {ds : BitVec 32} (h : ds.toNat < 2 ^ 8) (w : BitVec 32)
    (flags : BitVec 8) (imm : Option (BitVec 32)) :
    (Seg.ctrl w (qp.qpnDs ds) flags imm).dsCount = ds.toNat := by
  have hshift : qp.sqNumShift8.toNat % 2 ^ 8 = 0 := by
    unfold QpConst.sqNumShift8
    rw [BitVec.toNat_shiftLeft, Nat.shiftLeft_eq]
    omega
  unfold Seg.dsCount QpConst.qpnDs
  dsimp only
  rw [bswap32_bswap32, BitVec.toNat_or, Nat.or_mod_two_pow, hshift, Nat.zero_or,
    Nat.mod_eq_of_lt h]

/-- A WQE that begins with a control segment with the right count. -/
theorem counted_cons (qp : QpConst) {ds : BitVec 32} (h : ds.toNat < 2 ^ 8) {w : BitVec 32}
    {flags : BitVec 8} {imm : Option (BitVec 32)} {l : Wqe} (hl : l.length + 1 = ds.toNat) :
    Wqe.Counted (.ctrl w (qp.qpnDs ds) flags imm :: l) :=
  ⟨_, rfl, (dsCount_ctrl qp h w flags imm).trans hl.symm⟩

theorem counted_nop (wqeIdx : ℕ) : (wqePrepareNop qp wqeIdx ctrlCqUpdate).Counted :=
  counted_cons qp (by decide) rfl

theorem counted_faWqe (wqeIdx : ℕ) (raddr laddr : VerbsAddr) (val : BitVec 64) :
    (faWqe qp wqeIdx raddr laddr val).Counted := counted_cons qp (by decide) rfl

theorem counted_dumpWqes (wqeIdx : ℕ) (mcst : Option VerbsAddr) :
    ∀ w ∈ dumpWqes qp wqeIdx mcst, w.Counted := by
  intro w hw
  cases mcst with
  | none => cases hw
  | some daddr =>
    obtain rfl := List.mem_singleton.1 hw
    exact counted_cons qp (by decide) rfl

theorem counted_chunkWqes {prepare : ℕ → ℕ → BitVec 32 → Wqe}
    (hp : ∀ wqeIdx i bytes, (prepare wqeIdx i bytes).Counted) (base n i remaining : ℕ) :
    ∀ w ∈ chunkWqes qp prepare base n i remaining, w.Counted := by
  induction n generalizing i remaining with
  | zero => exact fun w hw => absurd hw List.not_mem_nil
  | succ n ih =>
    intro w hw
    obtain rfl | hw := List.mem_cons.1 hw
    · repeat' split
      all_goals first | exact hp _ _ _ | exact counted_nop _
    · exact ih _ _ w hw

/-- **The WQEs of an operation count their segments.** -/
theorem planWqes_counted (op : ChunkedOp) (args : ChunkArgs) (qp : QpConst) (base : ℕ) :
    ∀ w ∈ op.planWqes args qp base, w.Counted := by
  have hwrite : ∀ n, ∀ w ∈ chunkWqes qp (writeChunk qp args.raddr args.laddr) base n 0
      args.size.toNat, w.Counted := fun n =>
    counted_chunkWqes (fun _ _ _ => counted_cons qp (by decide) rfl) base n 0 _
  have hread : ∀ n, ∀ w ∈ chunkWqes qp (readChunk qp args.raddr args.laddr) base n 0
      args.size.toNat, w.Counted := fun n =>
    counted_chunkWqes (fun _ _ _ => counted_cons qp (by decide) rfl) base n 0 _
  have hfa : ∀ wqeIdx raddr laddr val, ∀ w ∈ [faWqe qp wqeIdx raddr laddr val], w.Counted :=
    fun wqeIdx raddr laddr val w hw => by
      obtain rfl := List.mem_singleton.1 hw
      exact counted_faWqe wqeIdx raddr laddr val
  cases op with
  | putThread => exact hwrite _
  | putCounter => exact hwrite _
  | getCounter => exact hread _
  | putSignalThread sig =>
    exact List.forall_mem_append.2 ⟨hwrite _, hfa _ _ _ _⟩
  | putSignalCounter sig =>
    exact List.forall_mem_append.2 ⟨hwrite _, hfa _ _ _ _⟩
  | getThread mcst =>
    exact List.forall_mem_append.2 ⟨hread _, counted_dumpWqes _ mcst⟩

end Effect

end Gpunetio
