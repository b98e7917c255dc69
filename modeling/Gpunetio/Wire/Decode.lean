import Gpunetio.Wire.Model

/-!
# WQEs as the NIC reads them

The NIC reads the words of a WQE in big-endian order. An encoder is right if what it reads are the
arguments, if the count in the control segment is that of the 16-byte units written, and if just the
inline data is marked as such.

* `CtrlView`, `SegView`: what the NIC reads; `Request.layout`: where it reads it;
* `Request.meaning`: what it should read;
* `memcpyData_apply`: the copy of the inline data copies it;
* **`decodes_iff`**: the encoders are right but for immediates and for lengths from `2 ^ 31` on that
  three of them do not mask.
-/

namespace Gpunetio.Wire

open ByteMem

/-! ## What the NIC reads -/

/-- A big-endian word of 32 bits. -/
def be32 (p : ℕ) (m : ByteMem) : BitVec 32 := bswap32 (m.load 32 p)

/-- A big-endian word of 64 bits. -/
def be64 (p : ℕ) (m : ByteMem) : BitVec 64 := bswap64 (m.load 64 p)

/-- A control segment. -/
structure CtrlView where
  opmod : ℕ
  wqeIdx : ℕ
  opcode : ℕ
  qpn : ℕ
  ds : ℕ
  flags : BitVec 8
deriving DecidableEq, Repr

/-- The control segment at `p`. -/
def ctrlView (p : ℕ) (m : ByteMem) : CtrlView where
  opmod := (be32 p m).toNat / 2 ^ 24
  wqeIdx := (be32 p m).toNat / 2 ^ 8 % 2 ^ 16
  opcode := (be32 p m).toNat % 2 ^ 8
  qpn := (be32 (p + 4) m).toNat / 2 ^ 8
  ds := (be32 (p + 4) m).toNat % 2 ^ 8
  flags := m.load 8 (p + 11)

/-- What can be read in a WQE besides. -/
inductive SegView
  | imm (value : BitVec 32)
  | raddr (addr : BitVec 64) (key : BitVec 32)
  | ptr (isInline : Bool) (bytes : ℕ) (key : BitVec 32) (addr : BitVec 64)
  | inl (isInline : Bool) (payload : List (BitVec 8))
  | atomic (swapAdd compare : BitVec 64)
  | wait (maxIndex qpnCqn : BitVec 32)
deriving DecidableEq, Repr

/-- Its kinds. -/
inductive SegKind
  | imm
  | raddr
  | ptr
  | inl
  | atomic
  | wait
deriving DecidableEq, Repr

/-- Bit 31 of a byte count. -/
def isInline (count : BitVec 32) : Bool := decide (2 ^ 31 ≤ count.toNat)

/-- What is read at `p`. -/
def segView (p : ℕ) (m : ByteMem) : SegKind → SegView
  | .imm => .imm (be32 p m)
  | .raddr => .raddr (be64 p m) (be32 (p + 8) m)
  | .ptr => .ptr (isInline (be32 p m)) ((be32 p m).toNat % 2 ^ 31) (be32 (p + 4) m) (be64 (p + 8) m)
  | .inl => .inl (isInline (be32 p m)) (m.bytes (p + 4) ((be32 p m).toNat % 2 ^ 31))
  | .atomic => .atomic (be64 p m) (be64 (p + 8) m)
  | .wait => .wait (be32 (p + 8) m) (be32 (p + 12) m)

/-! ## Requests -/

/-- A call of an encoder. -/
inductive Request
  | nop
  | write (opcode immediate : BitVec 32) (raddr laddr0 : VerbsAddr) (bytes0 : BitVec 32)
  | write2 (opcode immediate : BitVec 32) (raddr laddr0 : VerbsAddr) (bytes0 : BitVec 32)
    (laddr1 : VerbsAddr) (bytes1 : BitVec 32)
  | writeInl (raddr : VerbsAddr) (laddr : ℕ) (bytes : BitVec 32)
  | read (raddr laddr0 : VerbsAddr) (bytes0 : BitVec 32)
  | read2 (raddr laddr0 : VerbsAddr) (bytes0 : BitVec 32) (laddr1 : VerbsAddr) (bytes1 : BitVec 32)
  | atomic (opcode : BitVec 32) (raddr laddr : VerbsAddr) (bytes : BitVec 32)
    (compareAdd swapAdd : BitVec 64)
  | wait (maxIndex qpnCqn : BitVec 32)
  | dump (laddr : VerbsAddr) (bytes : BitVec 32)

namespace Request

/-- The slot after the call; `data` holds the source of an inline write. -/
def encode (c : Call) (data : ByteMem) : Request → ByteMem → ByteMem
  | nop => wqePrepareNop c
  | write opcode immediate raddr laddr0 bytes0 =>
    wqePrepareWrite c opcode immediate raddr laddr0 bytes0
  | write2 opcode immediate raddr laddr0 bytes0 laddr1 bytes1 =>
    wqePrepareWrite2 c opcode immediate raddr laddr0 bytes0 laddr1 bytes1
  | writeInl raddr laddr bytes => wqePrepareWriteInl c data raddr laddr bytes
  | read raddr laddr0 bytes0 => wqePrepareRead c raddr laddr0 bytes0
  | read2 raddr laddr0 bytes0 laddr1 bytes1 => wqePrepareRead2 c raddr laddr0 bytes0 laddr1 bytes1
  | atomic opcode raddr laddr bytes compareAdd swapAdd =>
    wqePrepareAtomic c opcode raddr laddr bytes compareAdd swapAdd
  | wait maxIndex qpnCqn => wqePrepareWait c maxIndex qpnCqn
  | dump laddr bytes => wqePrepareDump c laddr bytes

/-- The opcode asked for. -/
def opcode : Request → BitVec 32
  | nop => opcodeNop
  | write opcode .. => opcode
  | write2 opcode .. => opcode
  | writeInl .. => opcodeRdmaWrite
  | read .. => opcodeRdmaRead
  | read2 .. => opcodeRdmaRead
  | atomic opcode .. => opcode
  | wait .. => opcodeWait
  | dump .. => opcodeDump

/-- The 16-byte units of the WQE: inline data begins with a byte count of 4 bytes. -/
def units : Request → ℕ
  | nop => 1
  | write .. => 3
  | write2 .. => 4
  | writeInl _ _ bytes => 2 + (4 + bytes.toNat + 15) / 16
  | read .. => 3
  | read2 .. => 4
  | atomic .. => 4
  | wait .. => 2
  | dump .. => 2

/-- What is to be found in the WQE, and at which offset. -/
def layout : Request → List (ℕ × SegKind)
  | nop => []
  | write .. => [(12, .imm), (16, .raddr), (32, .ptr)]
  | write2 .. => [(12, .imm), (16, .raddr), (32, .ptr), (48, .ptr)]
  | writeInl .. => [(16, .raddr), (32, .inl)]
  | read .. => [(16, .raddr), (32, .ptr)]
  | read2 .. => [(16, .raddr), (32, .ptr), (48, .ptr)]
  | atomic .. => [(16, .raddr), (32, .atomic), (48, .ptr)]
  | wait .. => [(16, .wait)]
  | dump .. => [(16, .ptr)]

/-- A memory key, passed in big-endian order if `DOCA_GPUNETIO_VERBS_MKEY_SWAPPED` is set. -/
def keyOf (mkeySwapped : Bool) (key : BitVec 32) : BitVec 32 :=
  if mkeySwapped then bswap32 key else key

/-- A remote address as it should be read. -/
def raddrView (mkeySwapped : Bool) (a : VerbsAddr) : SegView :=
  .raddr a.addr (keyOf mkeySwapped a.key)

/-- A pointer as it should be read: not inline, its length modulo `2 ^ 31`. -/
def ptrView (mkeySwapped : Bool) (a : VerbsAddr) (bytes : BitVec 32) : SegView :=
  .ptr false (bytes.toNat % 2 ^ 31) (keyOf mkeySwapped a.key) a.addr

/-- The arguments. A fetch-and-add has one operand, the first. -/
def meaning (mkeySwapped : Bool) (data : ByteMem) : Request → List SegView
  | nop => []
  | write _ immediate raddr laddr0 bytes0 =>
    [.imm immediate, raddrView mkeySwapped raddr, ptrView mkeySwapped laddr0 bytes0]
  | write2 _ immediate raddr laddr0 bytes0 laddr1 bytes1 =>
    [.imm immediate, raddrView mkeySwapped raddr, ptrView mkeySwapped laddr0 bytes0,
     ptrView mkeySwapped laddr1 bytes1]
  | writeInl raddr laddr bytes =>
    [raddrView mkeySwapped raddr, .inl true (data.bytes laddr bytes.toNat)]
  | read raddr laddr0 bytes0 =>
    [raddrView mkeySwapped raddr, ptrView mkeySwapped laddr0 bytes0]
  | read2 raddr laddr0 bytes0 laddr1 bytes1 =>
    [raddrView mkeySwapped raddr, ptrView mkeySwapped laddr0 bytes0,
     ptrView mkeySwapped laddr1 bytes1]
  | atomic opcode raddr laddr bytes compareAdd swapAdd =>
    [raddrView mkeySwapped raddr,
     .atomic (if opcode = opcodeAtomicFa then compareAdd else swapAdd) compareAdd,
     ptrView mkeySwapped laddr bytes]
  | wait maxIndex qpnCqn => [.wait maxIndex qpnCqn]
  | dump laddr bytes => [ptrView mkeySwapped laddr bytes]

/-- An opcode has 8 bits, and inline data at most 28 bytes. -/
def Valid : Request → Prop
  | write opcode .. => opcode.toNat < 2 ^ 8
  | write2 opcode .. => opcode.toNat < 2 ^ 8
  | writeInl _ _ bytes => bytes.toNat ≤ 28
  | atomic opcode .. => opcode.toNat < 2 ^ 8
  | _ => True

/-- An immediate is the same in either byte order, and a length that is not masked has 31 bits. -/
def Plain : Request → Prop
  | write _ immediate .. => bswap32 immediate = immediate
  | write2 _ immediate .. => bswap32 immediate = immediate
  | read _ _ bytes0 => bytes0.toNat < 2 ^ 31
  | atomic _ _ _ bytes _ _ => bytes.toNat < 2 ^ 31
  | dump _ bytes => bytes.toNat < 2 ^ 31
  | _ => True

/-- The NIC reads what the encoder was called with. -/
structure Decodes (r : Request) (c : Call) (data m : ByteMem) : Prop where
  ctrl : ctrlView c.wqePtr (r.encode c data m) =
    { opmod := 0, wqeIdx := c.wqeIdx.toNat, opcode := r.opcode.toNat, qpn := c.qp.sqNum.toNat
      ds := r.units, flags := c.ctrlFlags }
  segs : (r.layout.map fun l => segView (c.wqePtr + l.1) (r.encode c data m) l.2) =
    r.meaning c.mkeySwapped data

end Request

/-! ## The copy of the inline data -/

section Memcpy

variable {data m : ByteMem} {dst src n a : ℕ}

/-- The copy, byte by byte: by chunks of 8, 4, 2 or 1 bytes, as the two addresses are aligned. -/
theorem memcpyData_apply (data : ByteMem) (dst src n : ℕ) (m : ByteMem) (a : ℕ) :
    memcpyData data dst src n m a =
      if dst ≤ a ∧ a < dst + n then data (src + (a - dst)) else m a := by
  induction n using Nat.strong_induction_on generalizing dst src m with
  | _ n ih =>
    unfold memcpyData
    split
    · rename_i hpos
      obtain ⟨hk, hkn⟩ := copiedSize_spec dst src hpos
      dsimp only
      generalize copiedSize dst src n = k at hk hkn
      have hdiv : 8 * k / 8 = k := Nat.mul_div_cancel_left k (by decide)
      rw [ih (n - k) (by omega), store_load (Nat.dvd_mul_right 8 k), hdiv]
      by_cases hlo : dst ≤ a ∧ a < dst + k
      · rw [if_neg (by omega), if_pos hlo, if_pos (by omega)]
      · by_cases hhi : dst + k ≤ a ∧ a < dst + n
        · have hsub : src + k + (a - (dst + k)) = src + (a - dst) := by omega
          rw [if_pos (by omega), if_pos (by omega), hsub]
        · rw [if_neg (by omega), if_neg hlo, if_neg (by omega)]
    · rw [if_neg (by omega)]

theorem bytes_memcpyData : (memcpyData data dst src n m).bytes dst n = data.bytes src n := by
  apply bytes_congr
  intro i hi
  rw [memcpyData_apply, if_pos ⟨Nat.le_add_right _ _, Nat.add_lt_add_left hi dst⟩,
    Nat.add_sub_cancel_left]

theorem load_memcpyData_of_apart {w p : ℕ} (hw : 8 ∣ w) (h : p + w / 8 ≤ dst ∨ dst + n ≤ p) :
    (memcpyData data dst src n m).load w p = m.load w p := by
  apply load_congr
  intro i hi
  rw [memcpyData_apply, if_neg (by omega)]

end Memcpy

/-! ## The words -/

section Words

variable {c : Call} {p : ℕ} {m : ByteMem}

/-- Two fields in one word. -/
theorem toNat_shiftLeft_or {x y : BitVec 32} (hx : x.toNat < 2 ^ 24) (hy : y.toNat < 2 ^ 8) :
    (x <<< 8 ||| y).toNat = x.toNat * 2 ^ 8 + y.toNat := by
  have hlt : x.toNat * 2 ^ 8 < 2 ^ 32 := by omega
  rw [BitVec.toNat_or, BitVec.toNat_shiftLeft, Nat.shiftLeft_eq, Nat.mod_eq_of_lt hlt,
    ← Nat.shiftLeft_eq, ← Nat.shiftLeft_add_eq_or_of_lt hy]

/-- A control segment that holds these words. -/
theorem ctrlView_eq {wqeIdx : BitVec 16} {opcode sqNum ds : BitVec 32} {flags : BitVec 8}
    (hop : opcode.toNat < 2 ^ 8) (hqp : sqNum.toNat < 2 ^ 24) (hds : ds.toNat < 2 ^ 8)
    (hw : be32 p m = wqeIdx.setWidth 32 <<< 8 ||| opcode)
    (hq : be32 (p + 4) m = sqNum <<< 8 ||| ds) (hflags : m.load 8 (p + 11) = flags) :
    ctrlView p m =
      { opmod := 0, wqeIdx := wqeIdx.toNat, opcode := opcode.toNat, qpn := sqNum.toNat
        ds := ds.toNat, flags := flags } := by
  have hidx := wqeIdx.isLt
  have hwide : (wqeIdx.setWidth 32).toNat = wqeIdx.toNat := by
    rw [BitVec.toNat_setWidth, Nat.mod_eq_of_lt (by omega)]
  unfold ctrlView
  rw [hw, hq, hflags, toNat_shiftLeft_or (by omega) hop, toNat_shiftLeft_or hqp hds, hwide]
  simp only [CtrlView.mk.injEq, and_true]
  refine ⟨?_, ?_, ?_, ?_, ?_⟩ <;> omega

theorem bswap32_mkey (key : BitVec 32) :
    bswap32 (c.mkey key) = Request.keyOf c.mkeySwapped key := by
  unfold Call.mkey Request.keyOf
  cases c.mkeySwapped with
  | false => exact bswap32_bswap32 key
  | true => rfl

theorem raddrView_rseg (a : VerbsAddr) :
    SegView.raddr (bswap64 (c.rseg a).raddr) (bswap32 (c.rseg a).rkey) =
      Request.raddrView c.mkeySwapped a := by
  unfold Call.rseg Request.raddrView
  rw [bswap64_bswap64, bswap32_mkey]

/-- The pointer that a data segment stands for. -/
def DataSeg.view (s : DataSeg) : SegView :=
  .ptr (isInline (bswap32 s.byteCount)) ((bswap32 s.byteCount).toNat % 2 ^ 31) (bswap32 s.lkey)
    (bswap64 s.addr)

/-- A masked length is what it should be. -/
theorem view_dseg (a : VerbsAddr) (bytes : BitVec 32) :
    (c.dseg a bytes).view = Request.ptrView c.mkeySwapped a bytes := by
  have hmask : (bytes &&& (inlineSeg - 1#32)).toNat = bytes.toNat % 2 ^ 31 := by
    rw [BitVec.toNat_and]
    exact Nat.and_two_pow_sub_one_eq_mod _ 31
  have hinline : isInline (bytes &&& (inlineSeg - 1#32)) = false := by
    unfold isInline
    rw [hmask, decide_eq_false_iff_not]
    omega
  unfold DataSeg.view Call.dseg Request.ptrView
  dsimp only
  rw [bswap32_bswap32, bswap64_bswap64, bswap32_mkey, hmask, Nat.mod_mod, hinline]

/-- A length that is not masked is what it should be if the flag is clear in it. -/
theorem view_dsegUnmasked_iff (a : VerbsAddr) (bytes : BitVec 32) :
    (c.dsegUnmasked a bytes).view = Request.ptrView c.mkeySwapped a bytes ↔
      bytes.toNat < 2 ^ 31 := by
  unfold DataSeg.view Call.dsegUnmasked Request.ptrView isInline
  dsimp only
  rw [bswap32_bswap32, bswap64_bswap64, bswap32_mkey]
  simp only [SegView.ptr.injEq, decide_eq_false_iff_not, Nat.not_le, and_true]

end Words

/-! ## The encoders, read back -/

section Requests

variable {c : Call} {data m : ByteMem}

/-- The first word of a WQE, whatever comes after it. -/
theorem be32_encode (r : Request) :
    be32 c.wqePtr (r.encode c data m) = c.wqeIdx.setWidth 32 <<< 8 ||| r.opcode := by
  cases r <;>
    simp (disch := omega) only [Request.encode, Request.opcode, wqePrepareNop, wqePrepareWrite,
      wqePrepareWrite2, wqePrepareWriteInl, prepareInlRdmaWriteWqeHeader, wqePrepareRead,
      wqePrepareRead2, wqePrepareAtomic, wqePrepareWait, wqePrepareDump, CtrlSeg.store,
      RaddrSeg.store, DataSeg.store, AtomicSeg.store, WaitSeg.store, be32, Call.cseg,
      load_store_self, load_store_of_apart, load_memcpyData_of_apart, bswap32_bswap32]

/-- The units of an inline write, counted by comparing its length with what fits into the third. -/
theorem inlineDs_eq {bytes : BitVec 32} (h : bytes.toNat ≤ 28) :
    (if 16 - 4 < bytes.toNat then 4#32 else 3#32) =
      BitVec.ofNat 32 (2 + (4 + bytes.toNat + 15) / 16) := by
  split
  · rename_i hlt
    have hunits : 2 + (4 + bytes.toNat + 15) / 16 = 4 := by omega
    rw [hunits]
  · rename_i hge
    have hunits : 2 + (4 + bytes.toNat + 15) / 16 = 3 := by omega
    rw [hunits]

/-- The second word: the words swapped in advance and those swapped here count the units alike. -/
theorem be32_encode_ds (r : Request) (hr : r.Valid) {sqNum : BitVec 32}
    (hc : c.qp = exportSqWords sqNum) :
    be32 (c.wqePtr + 4) (r.encode c data m) = sqNum <<< 8 ||| BitVec.ofNat 32 r.units := by
  cases r with
  | writeInl raddr laddr bytes =>
    have hds := inlineDs_eq hr
    simp (disch := omega) only [Request.encode, wqePrepareWriteInl, prepareInlRdmaWriteWqeHeader,
      CtrlSeg.store, RaddrSeg.store, be32, Call.cseg, hc, exportSqWords, Request.units,
      load_store_self, load_store_of_apart, load_memcpyData_of_apart, bswap32_bswap32, hds]
  | _ =>
    simp (disch := omega) only [Request.encode, wqePrepareNop, wqePrepareWrite, wqePrepareWrite2,
      wqePrepareRead, wqePrepareRead2, wqePrepareAtomic, wqePrepareWait, wqePrepareDump,
      CtrlSeg.store, RaddrSeg.store, DataSeg.store, AtomicSeg.store, WaitSeg.store, be32, Call.cseg,
      hc, exportSqWords, Request.units, load_store_self, load_store_of_apart, bswap32_bswap32]

theorem flags_encode (r : Request) : (r.encode c data m).load 8 (c.wqePtr + 11) = c.ctrlFlags := by
  cases r <;>
    simp (disch := omega) only [Request.encode, wqePrepareNop, wqePrepareWrite, wqePrepareWrite2,
      wqePrepareWriteInl, prepareInlRdmaWriteWqeHeader, wqePrepareRead, wqePrepareRead2,
      wqePrepareAtomic, wqePrepareWait, wqePrepareDump, CtrlSeg.store, RaddrSeg.store,
      DataSeg.store, AtomicSeg.store, WaitSeg.store, Call.cseg, load_store_self,
      load_store_of_apart, load_memcpyData_of_apart]

theorem Request.Valid.opcode_lt {r : Request} (hr : r.Valid) : r.opcode.toNat < 2 ^ 8 := by
  cases r with
  | write | write2 | atomic => exact hr
  | nop | writeInl | read | read2 | wait | dump =>
    simp only [Request.opcode]
    decide

theorem Request.Valid.units_lt {r : Request} (hr : r.Valid) : r.units < 2 ^ 8 := by
  cases r with
  | writeInl raddr laddr bytes =>
    have hle : bytes.toNat ≤ 28 := hr
    simp only [Request.units]
    omega
  | nop | write | write2 | read | read2 | atomic | wait | dump =>
    simp only [Request.units]
    decide

/-- The control segment is read as it was meant, of every WQE. -/
theorem ctrl_encode {r : Request} (hr : r.Valid) {sqNum : BitVec 32} (hqp : sqNum.toNat < 2 ^ 24)
    (hc : c.qp = exportSqWords sqNum) :
    ctrlView c.wqePtr (r.encode c data m) =
      { opmod := 0, wqeIdx := c.wqeIdx.toNat, opcode := r.opcode.toNat, qpn := c.qp.sqNum.toNat
        ds := r.units, flags := c.ctrlFlags } := by
  have hunits := hr.units_lt
  have hds : (BitVec.ofNat 32 r.units).toNat = r.units := by
    rw [BitVec.toNat_ofNat, Nat.mod_eq_of_lt (by omega)]
  have hnum : c.qp.sqNum = sqNum := by
    rw [hc]
    rfl
  rw [ctrlView_eq hr.opcode_lt hqp (by rw [hds]; exact hunits) (be32_encode r)
    (be32_encode_ds r hr hc) (flags_encode r), hds, hnum]

/-- The segments as they are read. -/
def Request.readBack (c : Call) (data : ByteMem) : Request → List SegView
  | nop => []
  | write _ immediate raddr laddr0 bytes0 =>
    [.imm (bswap32 immediate), raddrView c.mkeySwapped raddr, (c.dseg laddr0 bytes0).view]
  | write2 _ immediate raddr laddr0 bytes0 laddr1 bytes1 =>
    [.imm (bswap32 immediate), raddrView c.mkeySwapped raddr, (c.dseg laddr0 bytes0).view,
     (c.dseg laddr1 bytes1).view]
  | writeInl raddr laddr bytes =>
    [raddrView c.mkeySwapped raddr, .inl true (data.bytes laddr bytes.toNat)]
  | read raddr laddr0 bytes0 =>
    [raddrView c.mkeySwapped raddr, (c.dsegUnmasked laddr0 bytes0).view]
  | read2 raddr laddr0 bytes0 laddr1 bytes1 =>
    [raddrView c.mkeySwapped raddr, (c.dseg laddr0 bytes0).view, (c.dseg laddr1 bytes1).view]
  | atomic opcode raddr laddr bytes compareAdd swapAdd =>
    [raddrView c.mkeySwapped raddr,
     .atomic (if opcode = opcodeAtomicFa then compareAdd else swapAdd) compareAdd,
     (c.dsegUnmasked laddr bytes).view]
  | wait maxIndex qpnCqn => [.wait maxIndex qpnCqn]
  | dump laddr bytes => [(c.dsegUnmasked laddr bytes).view]

/-- The byte count of inline data, with its flag. -/
theorem toNat_or_inlineSeg {bytes : BitVec 32} (h : bytes.toNat < 2 ^ 31) :
    (bytes ||| inlineSeg).toNat = bytes.toNat + 2 ^ 31 := by
  have hseg : inlineSeg.toNat = 2 ^ 31 * 1 := by decide
  rw [BitVec.toNat_or, hseg, Nat.lor_comm, ← Nat.two_pow_add_eq_or_of_lt h, Nat.mul_one,
    Nat.add_comm]

theorem segs_encode {r : Request} (hr : r.Valid) :
    (r.layout.map fun l => segView (c.wqePtr + l.1) (r.encode c data m) l.2) =
      r.readBack c data := by
  cases r with
  | writeInl raddr laddr bytes =>
    have hle : bytes.toNat ≤ 28 := hr
    have hcount := @toNat_or_inlineSeg bytes (by omega)
    have hinline : isInline (bytes ||| inlineSeg) = true := by
      unfold isInline
      rw [hcount]
      exact decide_eq_true (Nat.le_add_left _ _)
    have hmod : (bytes ||| inlineSeg).toNat % 2 ^ 31 = bytes.toNat := by omega
    simp (disch := omega) only [Request.layout, Request.readBack, List.map_cons, List.map_nil,
      segView, Request.encode, wqePrepareWriteInl, prepareInlRdmaWriteWqeHeader, RaddrSeg.store,
      be32, be64, load_store_self, load_store_of_apart, load_memcpyData_of_apart, bswap32_bswap32,
      hinline, hmod, bytes_memcpyData, raddrView_rseg]
  | _ =>
    simp (disch := omega) only [Request.layout, Request.readBack, List.map_cons, List.map_nil,
      segView, Request.encode, wqePrepareNop, wqePrepareWrite, wqePrepareWrite2, wqePrepareRead,
      wqePrepareRead2, wqePrepareAtomic, wqePrepareWait, wqePrepareDump, CtrlSeg.store,
      RaddrSeg.store, DataSeg.store, AtomicSeg.store, WaitSeg.store, be32, be64, DataSeg.view,
      load_store_self, load_store_of_apart, bswap32_bswap32, bswap64_bswap64, raddrView_rseg]

/-- **Encoding and decoding.** For every QP number of 24 bits and all arguments, the NIC reads in a
WQE what its encoder was called with, exactly if the immediate of a write is the same in either byte
order, and the length passed to a read of one segment, an atomic or a dump is below `2 ^ 31`. -/
theorem decodes_iff (r : Request) (hr : r.Valid) (c : Call) {sqNum : BitVec 32}
    (hqp : sqNum.toNat < 2 ^ 24) (hc : c.qp = exportSqWords sqNum) (data m : ByteMem) :
    r.Decodes c data m ↔ r.Plain := by
  have hsegs : r.Decodes c data m ↔ r.readBack c data = r.meaning c.mkeySwapped data := by
    rw [← segs_encode hr]
    exact ⟨fun h => h.segs, fun h => ⟨ctrl_encode hr hqp hc, h⟩⟩
  rw [hsegs]
  cases r with
  | nop | writeInl | read2 | wait =>
    simp only [Request.readBack, Request.meaning, Request.Plain, view_dseg]
  | write | write2 =>
    simp only [Request.readBack, Request.meaning, Request.Plain, view_dseg, List.cons.injEq,
      SegView.imm.injEq, and_true]
  | read | atomic | dump =>
    simp only [Request.readBack, Request.meaning, Request.Plain, view_dsegUnmasked_iff,
      List.cons.injEq, and_true, true_and]

/-- A stack of zeros. -/
def zeroLocals : Locals where
  cseg := ⟨0, 0, 0, 0, 0, 0⟩
  rseg := ⟨0, 0, 0⟩
  wseg := ⟨0, 0, 0⟩
  aseg := ⟨0, 0, 0, 0⟩

/-- A call for WQE `5` of QP `7`. -/
def someCall : Call where
  mkeySwapped := true
  locals := zeroLocals
  qp := exportSqWords 7#32
  wqePtr := 0x140
  wqeIdx := 5#16
  ctrlFlags := ctrlCqUpdate

/-- A read of 1 GiB. -/
theorem read_decodes :
    (Request.read ⟨0x1000#64, 1#32⟩ ⟨0x2000#64, 2#32⟩ 0x40000000#32).Decodes someCall (fun _ => 0)
      fun _ => 0xff#8 :=
  (decodes_iff (.read _ _ _) trivial someCall (by decide) rfl _ _).2
    (by decide : (0x40000000#32).toNat < 2 ^ 31)

/-- A read of 2 GiB is marked as inline data, and the immediate `1` of a write is read as
`0x1000000`. -/
theorem read_marked_inline :
    ¬ (Request.read ⟨0x1000#64, 1#32⟩ ⟨0x2000#64, 2#32⟩ 0x80000000#32).Decodes someCall
        (fun _ => 0) (fun _ => 0xff#8) ∧
      ¬ (Request.write opcodeRdmaWrite 1#32 ⟨0x1000#64, 1#32⟩ ⟨0x2000#64, 2#32⟩ 8#32).Decodes
        someCall (fun _ => 0) fun _ => 0xff#8 := by
  constructor
  · intro h
    have hsegs := h.segs
    rw [segs_encode (r := .read _ _ _) trivial] at hsegs
    exact absurd hsegs (by decide)
  · intro h
    have hsegs := h.segs
    have hop : opcodeRdmaWrite.toNat < 2 ^ 8 := by decide
    rw [segs_encode (r := .write ..) hop] at hsegs
    exact absurd hsegs (by decide)

/-! ## The WQEs as lists of segments -/

/-- The store of a segment at `p`, over what a local variable held before. -/
def storeSeg (locals : Locals) (p : ℕ) : Seg → ByteMem → ByteMem
  | .ctrl opmodIdxOpcode qpnDs fmCeSe imm =>
    { locals.cseg with
      opmodIdxOpcode := opmodIdxOpcode
      qpnDs := qpnDs
      fmCeSe := fmCeSe
      imm := imm.getD locals.cseg.imm }.store p
  | .raddr raddr rkey => { locals.rseg with raddr := raddr, rkey := rkey }.store p
  | .data byteCount lkey addr => DataSeg.store p ⟨byteCount, lkey, addr⟩
  | .atomic swapAdd compare => AtomicSeg.store p ⟨swapAdd, compare⟩
  | .wait maxIndex qpnCqn =>
    { locals.wseg with maxIndex := maxIndex, qpnCqn := qpnCqn }.store p
  | .inl byteCount data => fun m => fun a =>
    if p + 4 ≤ a then (data[a - (p + 4)]?).getD (m a) else m.store p byteCount a

/-- The store of a WQE, segment by segment. -/
def storeWqe (locals : Locals) : ℕ → Wqe → ByteMem → ByteMem
  | _, [], m => m
  | p, s :: w, m => storeWqe locals (p + 16) w (storeSeg locals p s m)

/-- The WQE of a request as a list of segments, of those that the operations make. -/
def Request.wqe (qp : QpConst) (wqeIdx : ℕ) (ctrlFlags : BitVec 8) : Request → Option Wqe
  | nop => some (Gpunetio.wqePrepareNop qp wqeIdx ctrlFlags)
  | write opcode immediate raddr laddr0 bytes0 =>
    some (Gpunetio.wqePrepareWrite qp wqeIdx opcode ctrlFlags immediate raddr laddr0 bytes0)
  | read raddr laddr0 bytes0 =>
    some (Gpunetio.wqePrepareRead qp wqeIdx ctrlFlags raddr laddr0 bytes0)
  | atomic opcode raddr laddr bytes compareAdd swapAdd =>
    some (Gpunetio.wqePrepareAtomic qp wqeIdx opcode ctrlFlags raddr laddr bytes compareAdd swapAdd)
  | wait maxIndex qpnCqn =>
    some (Gpunetio.wqePrepareWait qp wqeIdx ctrlFlags maxIndex.toNat qpnCqn)
  | dump laddr bytes => some (Gpunetio.wqePrepareDump qp wqeIdx ctrlFlags laddr bytes)
  | _ => none

/-- **The encoders store the segments** of the WQEs that the operations make, keys as passed. -/
theorem encode_eq_storeWqe {r : Request} {qp : QpConst} {wqeIdx : ℕ} {w : Wqe}
    (hw : r.wqe qp wqeIdx c.ctrlFlags = some w) (hswapped : c.mkeySwapped = true)
    (hqp : c.qp = exportSqWords qp.sqNum) (hidx : c.wqeIdx = BitVec.ofNat 16 wqeIdx) :
    r.encode c data m = storeWqe c.locals c.wqePtr w m := by
  have hkey : ∀ key, c.mkey key = key := fun key => if_pos hswapped
  cases r with
  | write2 | writeInl | read2 => cases hw
  | wait maxIndex qpnCqn =>
    obtain rfl := Option.some.inj hw
    have hmax : BitVec.ofNat 32 maxIndex.toNat = maxIndex := by
      rw [BitVec.ofNat_toNat, BitVec.setWidth_eq]
    simp only [Request.encode, wqePrepareWait, Gpunetio.wqePrepareWait, Call.cseg, hqp, hidx, hmax]
    rfl
  | nop | write | read | atomic | dump =>
    obtain rfl := Option.some.inj hw
    simp only [Request.encode, wqePrepareNop, wqePrepareWrite, wqePrepareRead, wqePrepareAtomic,
      wqePrepareDump, Call.cseg, Call.rseg, Call.dseg, Call.dsegUnmasked, hkey, hqp, hidx]
    rfl

end Requests

end Gpunetio.Wire
