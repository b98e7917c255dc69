import Gpunetio.Wire.Decode

/-!
# Extended atomics

The operands of a masked fetch-and-add or compare-and-swap lie in one segment, or in two if there
are four of eight bytes; the pointer is then the fifth segment and lies in the next slot. The
encoder swaps the bytes of some operands and not of the others.

* `AtomicExt.operands`, `AtomicExt.readBack`: the operands as passed, and as the NIC reads them;
* **`atomicExt_iff`**: they are the same if the boundary of a fetch-and-add, and what a
  compare-and-swap compares and the mask for it, are the same in either byte order.
-/

namespace Gpunetio.Wire

open ByteMem

/-- The number of bits of an operand. -/
def AtomicExtBytes.bits : AtomicExtBytes → ℕ
  | four => 32
  | eight => 64

/-- The number of bytes, as the pointer has it. -/
def AtomicExtBytes.byteCount : AtomicExtBytes → BitVec 32
  | four => 4#32
  | eight => 8#32

namespace AtomicExt

/-- The operands as the caller passes them, cut to their width. -/
def operands (bytes : AtomicExtBytes) : AtomicExt → List ℕ
  | maskedFa addData fieldBoundary =>
    [addData, fieldBoundary].map fun x => x.toNat % 2 ^ bytes.bits
  | maskedCs swapData compareData swapMask compareMask =>
    [swapData, compareData, swapMask, compareMask].map fun x => x.toNat % 2 ^ bytes.bits

/-- The operands that the NIC reads in the WQE at `p`. -/
def readBack (p : ℕ) (bytes : AtomicExtBytes) (op : AtomicExt) (m : ByteMem) : List ℕ :=
  match op, bytes with
  | maskedFa _ _, .four => [(be32 (p + 32) m).toNat, (be32 (p + 32 + 4) m).toNat]
  | maskedFa _ _, .eight => [(be64 (p + 32) m).toNat, (be64 (p + 32 + 8) m).toNat]
  | maskedCs _ _ _ _, .four =>
    [(be32 (p + 32) m).toNat, (be32 (p + 32 + 4) m).toNat, (be32 (p + 32 + 8) m).toNat,
     (be32 (p + 32 + 12) m).toNat]
  | maskedCs _ _ _ _, .eight =>
    [(be64 (p + 32) m).toNat, (be64 (p + 32 + 8) m).toNat, (be64 (p + 48) m).toNat,
     (be64 (p + 48 + 8) m).toNat]

/-- The segments written: a fifth one if there are four operands of eight bytes. -/
def segments (bytes : AtomicExtBytes) : AtomicExt → ℕ
  | maskedFa _ _ => 4
  | maskedCs _ _ _ _ => if bytes = .eight then 5 else 4

/-- Where the pointer is: in the fourth segment, or in the next slot. -/
def lastSeg (p wqePtr1 : ℕ) : AtomicExtBytes → AtomicExt → ℕ
  | _, maskedFa _ _ => p + 48
  | .four, maskedCs _ _ _ _ => p + 48
  | .eight, maskedCs _ _ _ _ => wqePtr1

/-- The operands that are not swapped are the same in either byte order. -/
def Palindromic (bytes : AtomicExtBytes) (op : AtomicExt) : Prop :=
  match op, bytes with
  | maskedFa _ fieldBoundary, .four =>
    bswap32 (fieldBoundary.setWidth 32) = fieldBoundary.setWidth 32
  | maskedFa _ fieldBoundary, .eight => bswap64 fieldBoundary = fieldBoundary
  | maskedCs _ compareData _ compareMask, .four =>
    bswap32 (compareData.setWidth 32) = compareData.setWidth 32 ∧
      bswap32 (compareMask.setWidth 32) = compareMask.setWidth 32
  | maskedCs _ compareData _ compareMask, .eight =>
    bswap64 compareData = compareData ∧ bswap64 compareMask = compareMask

end AtomicExt

/-- The NIC reads the operands, the number of segments and the pointer as they were meant. -/
structure AtomicExtExact (c : Call) (wqePtr1 : ℕ) (bytes : AtomicExtBytes) (op : AtomicExt)
    (raddr laddr : VerbsAddr) (m : ByteMem) : Prop where
  operands : op.readBack c.wqePtr bytes (wqePrepareAtomicExt c wqePtr1 bytes op raddr laddr m) =
    op.operands bytes
  ds : (ctrlView c.wqePtr (wqePrepareAtomicExt c wqePtr1 bytes op raddr laddr m)).ds =
    op.segments bytes
  pointer : segView (op.lastSeg c.wqePtr wqePtr1 bytes)
      (wqePrepareAtomicExt c wqePtr1 bytes op raddr laddr m) .ptr =
    Request.ptrView c.mkeySwapped laddr bytes.byteCount

section Results

variable {c : Call} {wqePtr1 : ℕ} {bytes : AtomicExtBytes} {op : AtomicExt}
  {raddr laddr : VerbsAddr} {m : ByteMem}

/-- The operands as they are read: every other one swapped. -/
theorem readBack_wqePrepareAtomicExt
    (hapart : c.wqePtr + 64 ≤ wqePtr1 ∨ wqePtr1 + 16 ≤ c.wqePtr) :
    op.readBack c.wqePtr bytes (wqePrepareAtomicExt c wqePtr1 bytes op raddr laddr m) =
      match op, bytes with
      | .maskedFa addData fieldBoundary, .four =>
        [(addData.setWidth 32).toNat, (bswap32 (fieldBoundary.setWidth 32)).toNat]
      | .maskedFa addData fieldBoundary, .eight => [addData.toNat, (bswap64 fieldBoundary).toNat]
      | .maskedCs swapData compareData swapMask compareMask, .four =>
        [(swapData.setWidth 32).toNat, (bswap32 (compareData.setWidth 32)).toNat,
         (swapMask.setWidth 32).toNat, (bswap32 (compareMask.setWidth 32)).toNat]
      | .maskedCs swapData compareData swapMask compareMask, .eight =>
        [swapData.toNat, (bswap64 compareData).toNat, swapMask.toNat,
         (bswap64 compareMask).toNat] := by
  cases op <;> cases bytes <;>
    simp (disch := omega) only [AtomicExt.readBack, wqePrepareAtomicExt, CtrlSeg.store,
      RaddrSeg.store, DataSeg.store, AtomicSeg.store, AtomicSeg32.store, be32, be64,
      load_store_self, load_store_of_apart, bswap32_bswap32, bswap64_bswap64]

theorem ds_wqePrepareAtomicExt {sqNum : BitVec 32} (hqp : sqNum.toNat < 2 ^ 24)
    (hc : c.qp = exportSqWords sqNum)
    (hapart : c.wqePtr + 64 ≤ wqePtr1 ∨ wqePtr1 + 16 ≤ c.wqePtr) :
    (ctrlView c.wqePtr (wqePrepareAtomicExt c wqePtr1 bytes op raddr laddr m)).ds =
      op.segments bytes := by
  have hword : be32 (c.wqePtr + 4) (wqePrepareAtomicExt c wqePtr1 bytes op raddr laddr m) =
      sqNum <<< 8 ||| BitVec.ofNat 32 (op.segments bytes) := by
    cases op <;> cases bytes <;>
      simp (disch := omega) only [wqePrepareAtomicExt, CtrlSeg.store, RaddrSeg.store,
        DataSeg.store, AtomicSeg.store, AtomicSeg32.store, be32, Call.csegExt, hc, exportSqWords,
        AtomicExt.segments, load_store_self, load_store_of_apart, bswap32_bswap32, reduceCtorEq,
        if_true, if_false]
  have hle : op.segments bytes ≤ 5 := by
    cases op <;> cases bytes <;> simp only [AtomicExt.segments] <;> decide
  have hds : (BitVec.ofNat 32 (op.segments bytes)).toNat = op.segments bytes := by
    rw [BitVec.toNat_ofNat, Nat.mod_eq_of_lt (by omega)]
  unfold ctrlView
  dsimp only
  rw [hword, toNat_shiftLeft_or hqp (by omega), hds]
  omega

/-- The pointer, wherever it is, with the length of an operand. -/
theorem pointer_wqePrepareAtomicExt :
    segView (op.lastSeg c.wqePtr wqePtr1 bytes)
        (wqePrepareAtomicExt c wqePtr1 bytes op raddr laddr m) .ptr =
      Request.ptrView c.mkeySwapped laddr bytes.byteCount := by
  have hlt : bytes.byteCount.toNat < 2 ^ 31 := by
    cases bytes <;> decide
  rw [← (view_dsegUnmasked_iff (c := c) laddr _).2 hlt]
  cases op <;> cases bytes <;>
    simp (disch := omega) only [AtomicExt.lastSeg, segView, wqePrepareAtomicExt, DataSeg.store,
      be32, be64, DataSeg.view, AtomicExtBytes.byteCount, load_store_self, load_store_of_apart]

/-- **Extended atomics.** For all operands, both widths and both opcodes, the NIC reads the operands
as they were passed exactly if those that the encoder does not swap are the same either way. -/
theorem atomicExt_iff (c : Call) {sqNum : BitVec 32} (hqp : sqNum.toNat < 2 ^ 24)
    (hc : c.qp = exportSqWords sqNum) {wqePtr1 : ℕ}
    (hapart : c.wqePtr + 64 ≤ wqePtr1 ∨ wqePtr1 + 16 ≤ c.wqePtr) (bytes : AtomicExtBytes)
    (op : AtomicExt) (raddr laddr : VerbsAddr) (m : ByteMem) :
    AtomicExtExact c wqePtr1 bytes op raddr laddr m ↔ op.Palindromic bytes := by
  have hiff : AtomicExtExact c wqePtr1 bytes op raddr laddr m ↔
      op.readBack c.wqePtr bytes (wqePrepareAtomicExt c wqePtr1 bytes op raddr laddr m) =
        op.operands bytes :=
    ⟨fun h => h.operands, fun h =>
      ⟨h, ds_wqePrepareAtomicExt hqp hc hapart, pointer_wqePrepareAtomicExt⟩⟩
  have h32 : ∀ x : BitVec 64, x.toNat % 2 ^ 32 = (x.setWidth 32).toNat := fun x =>
    (BitVec.toNat_setWidth 32 x).symm
  have h64 : ∀ x : BitVec 64, x.toNat % 2 ^ 64 = x.toNat := fun x => Nat.mod_eq_of_lt x.isLt
  rw [hiff, readBack_wqePrepareAtomicExt hapart]
  cases op <;> cases bytes <;>
    simp only [AtomicExt.operands, AtomicExtBytes.bits, AtomicExt.Palindromic, List.map_cons,
      List.map_nil, h32, h64, List.cons.injEq, BitVec.toNat_inj, true_and, and_true]

/-- A fetch-and-add without a boundary. -/
theorem maskedFa_exact :
    AtomicExtExact someCall 0x180 .eight (.maskedFa 0x0102030405060708#64 0#64) ⟨0x1000#64, 1#32⟩
      ⟨0x2000#64, 2#32⟩ fun _ => 0xff#8 :=
  (atomicExt_iff someCall (by decide) rfl (.inl (by decide)) .eight _ _ _ _).2
    (by decide : bswap64 0#64 = 0#64)

/-- A compare-and-swap that compares with `1` compares with `2 ^ 56`. -/
theorem maskedCs_not_exact :
    ¬ AtomicExtExact someCall 0x180 .eight (.maskedCs 2#64 1#64 0xffffffffffffffff#64
      0xffffffffffffffff#64) ⟨0x1000#64, 1#32⟩ ⟨0x2000#64, 2#32⟩ fun _ => 0xff#8 := by
  intro h
  have hoperands := h.operands
  rw [readBack_wqePrepareAtomicExt (.inl (by decide))] at hoperands
  exact absurd hoperands (by decide)

end Results

end Gpunetio.Wire
