import Gpunetio.Wire.Decode

/-!
# Inline values

`doca_gpu_dev_verbs_p`, `doca_gpu_dev_verbs_p_signal` and `doca_gpu_dev_verbs_p_counter` put a value
of any type into a WQE. The header announces as many bytes as the type has; the payload is stored by
another function, which knows values of at most four bytes and copies two words of any other.

* `putInline`: the WQE of a value; `InlineExact`: what it should be;
* `putInline_apply`: what it is, byte by byte;
* **`inlineExact_iff`**: it is what it should be for values of at most four bytes, and of eight.
-/

namespace Gpunetio.Wire

open ByteMem

variable {c : Call} {data m : ByteMem} {value sizeof : ℕ}

/-- The WQE of a value that lies at `value` in `data`: the header, then the data. -/
def putInline (c : Call) (raddr : VerbsAddr) (data : ByteMem) (value sizeof : ℕ) (m : ByteMem) :
    ByteMem :=
  prepareInlRdmaWriteWqeData c data value sizeof
    (prepareInlRdmaWriteWqeHeader c raddr (BitVec.ofNat 32 sizeof) m)

/-- The WQE announces the bytes of the value as inline data, has the units they take together with
their count, and carries them; and nothing beyond the value is loaded. -/
structure InlineExact (c : Call) (raddr : VerbsAddr) (data : ByteMem) (value sizeof : ℕ)
    (m : ByteMem) : Prop where
  isInline : isInline (be32 (c.wqePtr + 32) (putInline c raddr data value sizeof m)) = true
  length : (be32 (c.wqePtr + 32) (putInline c raddr data value sizeof m)).toNat % 2 ^ 31 = sizeof
  ds : (ctrlView c.wqePtr (putInline c raddr data value sizeof m)).ds = 2 + (4 + sizeof + 15) / 16
  payload : (putInline c raddr data value sizeof m).bytes (c.wqePtr + 32 + 4) sizeof =
    data.bytes value sizeof
  loads : ∀ l ∈ inlDataLoads sizeof, l.1 + l.2 ≤ sizeof

/-- The bytes loaded. -/
def inlBytes (sizeof : ℕ) : ℕ := if sizeof ≤ 4 then sizeof else 8

/-- The value has a size the code knows, or the slot happens to hold the rest of it. -/
def InlineFits (c : Call) (data : ByteMem) (value sizeof : ℕ) (m : ByteMem) : Prop :=
  sizeof ≤ 4 ∨ sizeof = 8 ∨
    8 < sizeof ∧ ∀ i, 8 ≤ i → i < sizeof → m (c.wqePtr + 32 + 4 + i) = data (value + i)

/-- The data function, byte by byte. -/
theorem prepareInlData_apply (a : ℕ) :
    prepareInlRdmaWriteWqeData c data value sizeof m a =
      if c.wqePtr + 32 + 4 ≤ a ∧ a < c.wqePtr + 32 + 4 + inlBytes sizeof
      then data (value + (a - (c.wqePtr + 32 + 4)))
      else m.store (c.wqePtr + 32) (bswap32 (BitVec.ofNat 32 sizeof ||| inlineSeg)) a := by
  unfold prepareInlRdmaWriteWqeData inlDataLoads inlBytes
  by_cases h4 : sizeof ≤ 4
  · have hdiv : 8 * sizeof / 8 = sizeof := Nat.mul_div_cancel_left _ (by decide)
    rw [if_pos h4, if_pos h4, List.foldl_cons, List.foldl_nil, store_load (Nat.dvd_mul_right 8 _),
      hdiv]
    rfl
  · rw [if_neg h4, if_neg h4, List.foldl_cons, List.foldl_cons, List.foldl_nil]
    dsimp only
    rw [store_load (by decide), store_load (by decide)]
    by_cases hhi : c.wqePtr + 32 + 4 + 4 ≤ a ∧ a < c.wqePtr + 32 + 4 + 8
    · have hsub :
          value + 4 + (a - (c.wqePtr + 32 + 4 + 4)) = value + (a - (c.wqePtr + 32 + 4)) := by
        omega
      rw [if_pos (by omega), if_pos (by omega), hsub]
    · rw [if_neg (by omega), Nat.add_zero]
      by_cases hlo : c.wqePtr + 32 + 4 ≤ a ∧ a < c.wqePtr + 32 + 4 + 4
      · rw [if_pos (by omega), if_pos (by omega)]
        rfl
      · rw [if_neg (by omega), if_neg (by omega)]

/-- The header does not reach into the data. -/
theorem header_apply {raddr : VerbsAddr} {bytes : BitVec 32} {a : ℕ} (h : c.wqePtr + 32 ≤ a) :
    prepareInlRdmaWriteWqeHeader c raddr bytes m a = m a := by
  unfold prepareInlRdmaWriteWqeHeader RaddrSeg.store CtrlSeg.store
  simp (disch := omega) only [store_of_not_mem]

theorem load_putInline_of_le {raddr : VerbsAddr} {w p : ℕ} (hw : 8 ∣ w)
    (h : p + w / 8 ≤ c.wqePtr + 32) :
    (putInline c raddr data value sizeof m).load w p =
      (prepareInlRdmaWriteWqeHeader c raddr (BitVec.ofNat 32 sizeof) m).load w p := by
  apply load_congr
  intro i hi
  unfold putInline
  rw [prepareInlData_apply, if_neg (by omega), store_of_not_mem (by omega)]

/-- The byte count of the inline data. -/
theorem be32_putInline {raddr : VerbsAddr} :
    be32 (c.wqePtr + 32) (putInline c raddr data value sizeof m) =
      BitVec.ofNat 32 sizeof ||| inlineSeg := by
  have hcount : (putInline c raddr data value sizeof m).load 32 (c.wqePtr + 32) =
      bswap32 (BitVec.ofNat 32 sizeof ||| inlineSeg) := by
    rw [← load_store_self (by decide)
      (m := prepareInlRdmaWriteWqeHeader c raddr (BitVec.ofNat 32 sizeof) m) (p := c.wqePtr + 32)
      (bswap32 (BitVec.ofNat 32 sizeof ||| inlineSeg))]
    apply load_congr
    intro i hi
    unfold putInline
    rw [prepareInlData_apply, if_neg (by omega)]
  rw [be32, hcount, bswap32_bswap32]

/-- The units the header counts are those of an inline write of as many bytes. -/
theorem ds_putInline {raddr : VerbsAddr} (hsize : sizeof ≤ 28) {sqNum : BitVec 32}
    (hqp : sqNum.toNat < 2 ^ 24) (hc : c.qp = exportSqWords sqNum) :
    (ctrlView c.wqePtr (putInline c raddr data value sizeof m)).ds =
      2 + (4 + sizeof + 15) / 16 := by
  have hn : (BitVec.ofNat 32 sizeof).toNat = sizeof := by
    rw [BitVec.toNat_ofNat, Nat.mod_eq_of_lt (by omega)]
  have hds := @inlineDs_eq (BitVec.ofNat 32 sizeof) (by omega)
  rw [hn] at hds
  have hword : be32 (c.wqePtr + 4) (putInline c raddr data value sizeof m) =
      sqNum <<< 8 ||| BitVec.ofNat 32 (2 + (4 + sizeof + 15) / 16) := by
    unfold be32
    rw [load_putInline_of_le (by decide) (by omega)]
    simp (disch := omega) only [prepareInlRdmaWriteWqeHeader, RaddrSeg.store, CtrlSeg.store,
      Call.cseg, hc, exportSqWords, load_store_self, load_store_of_apart, bswap32_bswap32, hds, hn]
  have hunits :
      (BitVec.ofNat 32 (2 + (4 + sizeof + 15) / 16)).toNat = 2 + (4 + sizeof + 15) / 16 := by
    rw [BitVec.toNat_ofNat, Nat.mod_eq_of_lt (by omega)]
  unfold ctrlView
  dsimp only
  rw [hword, toNat_shiftLeft_or hqp (by omega), hunits]
  omega

/-- The payload, byte by byte. -/
theorem putInline_apply {raddr : VerbsAddr} {i : ℕ} :
    putInline c raddr data value sizeof m (c.wqePtr + 32 + 4 + i) =
      if i < inlBytes sizeof then data (value + i) else m (c.wqePtr + 32 + 4 + i) := by
  unfold putInline
  rw [prepareInlData_apply]
  split
  · rw [if_pos (by omega), Nat.add_sub_cancel_left]
  · rw [if_neg (by omega), store_of_not_mem (by omega), header_apply (by omega)]

/-- The WQE as a list of segments, if it takes no byte from outside the value: so it is in the plans
of `doca_gpu_dev_verbs_p`, `doca_gpu_dev_verbs_p_signal` and `doca_gpu_dev_verbs_p_counter`. -/
theorem putInline_eq_storeWqe {qp : QpConst} {wqeIdx : ℕ} {raddr : VerbsAddr}
    (hsize : sizeof ≤ 4 ∨ 8 ≤ sizeof) (hlt : sizeof < 2 ^ 32) (hswapped : c.mkeySwapped = true)
    (hqp : c.qp = exportSqWords qp.sqNum) (hidx : c.wqeIdx = BitVec.ofNat 16 wqeIdx) :
    putInline c raddr data value sizeof m =
      storeWqe c.locals c.wqePtr
        (prepareInlRdmaWriteWqe qp wqeIdx c.ctrlFlags raddr (data.bytes value sizeof)) m := by
  have hlen : (data.bytes value sizeof).length = sizeof := by
    rw [bytes, List.length_map, List.length_range]
  have hheader : prepareInlRdmaWriteWqeHeader c raddr (BitVec.ofNat 32 sizeof) m =
      storeSeg c.locals (c.wqePtr + 16) (.raddr (bswap64 raddr.addr) raddr.key)
        (storeSeg c.locals c.wqePtr (.ctrl (opmodIdxOpcode wqeIdx opcodeRdmaWrite)
          (qp.qpnDs (if 16 - 4 < sizeof then 4#32 else 3#32)) c.ctrlFlags none) m) := by
    have hn : (BitVec.ofNat 32 sizeof).toNat = sizeof := by
      rw [BitVec.toNat_ofNat, Nat.mod_eq_of_lt hlt]
    unfold prepareInlRdmaWriteWqeHeader
    rw [hn, hqp]
    simp only [Call.cseg, Call.rseg, Call.mkey, hswapped, hidx, if_true]
    rfl
  have hbytes : ∀ j < inlBytes sizeof,
      (if sizeof ≤ 4 then data.bytes value sizeof else (data.bytes value sizeof).take 8)[j]? =
        some (data (value + j)) := by
    intro j hj
    unfold inlBytes at hj
    by_cases h4 : sizeof ≤ 4
    · rw [if_pos h4] at hj
      rw [if_pos h4, bytes, List.getElem?_map, List.getElem?_range hj, Option.map_some]
    · rw [if_neg h4] at hj
      rw [if_neg h4, List.getElem?_take_of_lt hj, bytes, List.getElem?_map,
        List.getElem?_range (by omega), Option.map_some]
  have hbeyond : (if sizeof ≤ 4 then data.bytes value sizeof
      else (data.bytes value sizeof).take 8).length = inlBytes sizeof := by
    unfold inlBytes
    split
    · exact hlen
    · rw [List.length_take, hlen]
      omega
  unfold putInline prepareInlRdmaWriteWqe
  rw [hheader, hlen]
  funext a
  rw [prepareInlData_apply]
  simp only [storeWqe]
  generalize storeSeg c.locals (c.wqePtr + 16) _ _ = before
  unfold storeSeg
  dsimp only
  by_cases hlo : c.wqePtr + 32 + 4 ≤ a
  · have hptr : c.wqePtr + 16 + 16 = c.wqePtr + 32 := rfl
    rw [hptr, if_pos hlo]
    by_cases hin : a < c.wqePtr + 32 + 4 + inlBytes sizeof
    · rw [if_pos ⟨hlo, hin⟩, hbytes _ (by omega), Option.getD_some]
    · rw [if_neg (by omega), store_of_not_mem (by omega),
        List.getElem?_eq_none (by rw [hbeyond]; omega), Option.getD_none]
  · rw [if_neg (by omega), if_neg (by omega)]

/-- Nothing beyond the value is loaded. -/
theorem inlDataLoads_le_iff :
    (∀ l ∈ inlDataLoads sizeof, l.1 + l.2 ≤ sizeof) ↔ sizeof ≤ 4 ∨ 8 ≤ sizeof := by
  unfold inlDataLoads
  by_cases h4 : sizeof ≤ 4
  · rw [if_pos h4]
    refine ⟨fun _ => .inl h4, fun _ l hl => ?_⟩
    rw [List.mem_singleton.1 hl, Nat.zero_add]
  · rw [if_neg h4]
    refine ⟨fun h => .inr (h (4, 4) (by simp)), fun h l hl => ?_⟩
    have h8 : 8 ≤ sizeof := h.resolve_left h4
    obtain rfl | rfl : l = (0, 4) ∨ l = (4, 4) := by simpa using hl
    · exact Nat.le_trans (by decide) h8
    · exact h8

/-- The WQE carries the value if the slot holds the bytes that are not stored. -/
theorem payload_putInline_iff {raddr : VerbsAddr} :
    (putInline c raddr data value sizeof m).bytes (c.wqePtr + 32 + 4) sizeof =
        data.bytes value sizeof ↔
      ∀ i, inlBytes sizeof ≤ i → i < sizeof → m (c.wqePtr + 32 + 4 + i) = data (value + i) := by
  constructor
  · intro h i hlo hi
    have hbyte := bytes_inj h hi
    rwa [putInline_apply, if_neg (Nat.not_lt.2 hlo)] at hbyte
  · intro h
    apply bytes_congr
    intro i hi
    rw [putInline_apply]
    by_cases hin : i < inlBytes sizeof
    · exact if_pos hin
    · rw [if_neg hin]
      exact h i (Nat.not_lt.1 hin) hi

/-- **Inline values.** For a value of any type of at most 28 bytes, its WQE is what it should be
exactly if the type has at most four bytes or eight, or the slot happens to hold the rest. -/
theorem inlineExact_iff (c : Call) {sqNum : BitVec 32} (hqp : sqNum.toNat < 2 ^ 24)
    (hc : c.qp = exportSqWords sqNum) (raddr : VerbsAddr) (data : ByteMem) (value : ℕ)
    {sizeof : ℕ} (hsize : sizeof ≤ 28) (m : ByteMem) :
    InlineExact c raddr data value sizeof m ↔ InlineFits c data value sizeof m := by
  have hn : (BitVec.ofNat 32 sizeof).toNat = sizeof := by
    rw [BitVec.toNat_ofNat, Nat.mod_eq_of_lt (by omega)]
  have hcount := @toNat_or_inlineSeg (BitVec.ofNat 32 sizeof) (by omega)
  unfold InlineFits
  constructor
  · intro h
    obtain h4 | h8 := inlDataLoads_le_iff.1 h.loads
    · exact .inl h4
    · by_cases heq : sizeof = 8
      · exact .inr (.inl heq)
      · have hbytes : inlBytes sizeof = 8 := if_neg (by omega)
        have hrest := payload_putInline_iff.1 h.payload
        rw [hbytes] at hrest
        exact .inr (.inr ⟨by omega, hrest⟩)
  · intro h
    refine ⟨?_, ?_, ds_putInline hsize hqp hc, payload_putInline_iff.2 fun i hlo hi => ?_,
      inlDataLoads_le_iff.2 (by omega)⟩
    · unfold isInline
      rw [be32_putInline, hcount]
      exact decide_eq_true (Nat.le_add_left _ _)
    · rw [be32_putInline, hcount, hn]
      omega
    · unfold inlBytes at hlo
      -- only a value of more than eight bytes has bytes that are not stored
      obtain h4 | h8 | ⟨hlt, hrest⟩ := h
      · rw [if_pos h4] at hlo
        omega
      · rw [if_neg (by omega)] at hlo
        omega
      · rw [if_neg (by omega)] at hlo
        exact hrest i hlo hi

/-- A value of eight bytes. -/
theorem inlineExact_eight :
    InlineExact someCall ⟨0x1000#64, 1#32⟩ (fun a => BitVec.ofNat 8 a) 16 8 fun _ => 0xff#8 :=
  (inlineExact_iff someCall (by decide) rfl _ _ _ (by decide) _).2 (.inr (.inl rfl))

/-- Of a value of twelve bytes the last four are not stored, and of one of six bytes two bytes after
it are loaded. -/
theorem inline_not_exact :
    ¬ InlineExact someCall ⟨0x1000#64, 1#32⟩ (fun a => BitVec.ofNat 8 a) 16 12 (fun _ => 0xff#8) ∧
      ¬ InlineExact someCall ⟨0x1000#64, 1#32⟩ (fun a => BitVec.ofNat 8 a) 16 6
        fun _ => 0xff#8 := by
  constructor
  · intro h
    have hbyte := bytes_inj h.payload (i := 8) (by decide)
    rw [putInline_apply] at hbyte
    exact absurd hbyte (by decide)
  · intro h
    exact absurd (h.loads (4, 4) (by decide)) (by decide)

end Gpunetio.Wire
