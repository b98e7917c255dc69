import Gpunetio.Host.Layout

/-!
# Sizes that do not wrap

`doca_verbs_qp_open::create` and `doca_verbs_srq::create` round sizes up and multiply them in 32
bits before they compare them with the limits of the device, and divide by some of them.

* `quot`, `refuseIf`: a division, and a comparison that throws;
* `QpAttr.sizing`, `SrqAttr.sizing`: the sizes, with their divisions; `toOption_rqSizing`,
  `toOption_sqSizing`: the creations take these;
* `QpAttr.Sized`: no division by zero, and sizes that are large enough and within the limits;
* **`QpAttr.sized_iff`**: the requests for which it holds; `sges_divide_by_zero`;
* **`SrqAttr.sized`**: an SRQ within the limits is sized well;
* `CqAttr.isSome_create`, `QpAttr.isSome_create`, `SrqAttr.isSome_create`: what is created.
-/

namespace Gpunetio.Layout

/-- How a creation can end before it has its sizes. -/
inductive Fault
  | refused
  | divByZero
deriving DecidableEq, Repr

/-- A quotient. -/
def quot (a b : ℕ) : Except Fault ℕ := if b = 0 then .error .divByZero else .ok (a / b)

/-- A comparison that throws. -/
def refuseIf (c : Prop) [Decidable c] : Except Fault Unit :=
  if c then .error .refused else .ok ()

section Fault

variable {α : Type} {p : Prop} [Decidable p] {a b : ℕ}

theorem refuseIf_of {f : Unit → Except Fault α} (h : p) :
    (refuseIf p >>= f) = .error .refused := by
  unfold refuseIf
  rw [if_pos h]
  rfl

theorem refuseIf_of_not {f : Unit → Except Fault α} (h : ¬ p) : (refuseIf p >>= f) = f () := by
  unfold refuseIf
  rw [if_neg h]
  rfl

theorem quot_zero {f : ℕ → Except Fault α} (h : b = 0) :
    (quot a b >>= f) = .error .divByZero := by
  unfold quot
  rw [if_pos h]
  rfl

theorem quot_of_ne_zero {f : ℕ → Except Fault α} (h : b ≠ 0) : (quot a b >>= f) = f (a / b) := by
  unfold quot
  rw [if_neg h]
  rfl

/-- What a computation that goes on has passed. -/
theorem of_refuseIf_eq_ok {f : Unit → Except Fault α} {r : α}
    (h : (refuseIf p >>= f) = .ok r) : ¬ p ∧ f () = .ok r := by
  by_cases hp : p
  · rw [refuseIf_of hp] at h
    cases h
  · rw [refuseIf_of_not hp] at h
    exact ⟨hp, h⟩

theorem of_quot_eq_ok {f : ℕ → Except Fault α} {r : α} (h : (quot a b >>= f) = .ok r) :
    b ≠ 0 ∧ f (a / b) = .ok r := by
  by_cases hb : b = 0
  · rw [quot_zero hb] at h
    cases h
  · rw [quot_of_ne_zero hb] at h
    exact ⟨hb, h⟩

end Fault

/-! ## Queue pairs -/

/-- An RQ is asked for. -/
def QpAttr.WantsRq (attr : QpAttr) : Prop := 0 < attr.rqWr.toNat ∧ attr.srq = false

/-- An SQ is asked for. -/
def QpAttr.WantsSq (attr : QpAttr) : Prop := 0 < attr.sqWr.toNat

instance (attr : QpAttr) : Decidable attr.WantsRq := inferInstanceAs (Decidable (_ ∧ _))

instance (attr : QpAttr) : Decidable attr.WantsSq := inferInstanceAs (Decidable (_ < _))

/-- The receive queue. -/
def rqSizing (dev : DeviceAttr) (attr : QpAttr) : Except Fault RqSizes :=
  if attr.WantsRq then do
    refuseIf (dev.maxQpWr < attr.rqWr.toNat)
    refuseIf (attr.receiveMaxSges.toNat = 0)
    let rcvWqeSize := nextPow32 attr.receiveMaxSges.toNat * 16 % 2 ^ 32
    refuseIf (dev.maxRqDescSize < rcvWqeSize)
    let rqSizeBytes := max (nextPow32 (attr.rqWr.toNat * rcvWqeSize)) 64
    let rqSize ← quot rqSizeBytes rcvWqeSize
    return {
      rqSize := rqSize
      rcvWqeSize := rcvWqeSize
      logRcvWqeSize := rcvWqeSize.log2
      logRqSize := rqSize.log2
      logStride := rcvWqeSize.log2 - 4 }
  else return ⟨0, 0, 0, 0, 0⟩

/-- `m_send_wqe_size`, `m_sq_size_wqebb`, `log_sq_size_wqebb`, `m_sq_size_wr` and
`max_inline_data`, which is raised to what fits. -/
structure SqSizing where
  sendWqeSize : ℕ
  sqSizeWqebb : ℕ
  logSqSizeWqebb : ℕ
  sqSizeWr : ℕ
  maxInlineData : ℕ
deriving DecidableEq, Repr

/-- `send_wqe_size`. -/
def QpAttr.sendBytes (attr : QpAttr) : ℕ := (16 + 16 + attr.sendMaxSges.toNat * 16) % 2 ^ 32

/-- `send_wqe_inline_size`. -/
def QpAttr.inlineBytes (attr : QpAttr) : ℕ :=
  if 0 < attr.maxInlineData.toNat then
    (16 + 16 + alignUp ((4 + attr.maxInlineData.toNat) % 2 ^ 32) 16 % 2 ^ 32) % 2 ^ 32
  else 0

/-- The send queue. -/
def sqSizing (dev : DeviceAttr) (attr : QpAttr) : Except Fault SqSizing :=
  if attr.WantsSq then do
    let maxSqWr ← quot 0x7fffffff dev.maxSqDescSize
    refuseIf (maxSqWr < attr.sqWr.toNat)
    refuseIf (attr.sendMaxSges.toNat = 0)
    refuseIf (dev.maxSqDescSize < attr.sendBytes)
    refuseIf (0 < attr.maxInlineData.toNat ∧ dev.maxSqDescSize < attr.inlineBytes)
    let sendWqeSize := alignUpUint32 (max attr.sendBytes attr.inlineBytes) 64
    let sqSizeBytes := nextPow32 (sendWqeSize * attr.sqWr.toNat)
    let sqSizeWqebb := sqSizeBytes / 64
    refuseIf (dev.maxSendWqebb < sqSizeWqebb)
    let sqSizeWr ← quot sqSizeBytes sendWqeSize
    return {
      sendWqeSize := sendWqeSize
      sqSizeWqebb := sqSizeWqebb
      logSqSizeWqebb := sqSizeWqebb.log2
      sqSizeWr := sqSizeWr
      maxInlineData :=
        if 0 < attr.maxInlineData.toNat then sendWqeSize - (16 + 16 + 4) else 0 }
  else return ⟨0, 0, 0, 0, attr.maxInlineData.toNat⟩

/-- The checks before the sizes that refuse a request. -/
def QpAttr.Barred (dev : DeviceAttr) (attr : QpAttr) : Prop :=
  attr.externalUmem.isSome ≠ attr.externalUmemDbr.isSome ∨ attr.rcType = false ∨
    (attr.sendDbrModeNoDbrExt && !dev.sendDbrModeNoDbrExt) = true ∨
    (attr.emulateNoDbrExt && attr.sendDbrModeNoDbrExt) = true

instance (dev : DeviceAttr) (attr : QpAttr) : Decidable (attr.Barred dev) :=
  inferInstanceAs (Decidable (_ ∨ _))

/-- `doca_verbs_qp_open::create`, up to the end of its arithmetic. -/
def QpAttr.sizing (dev : DeviceAttr) (attr : QpAttr) : Except Fault (RqSizes × SqSizing) := do
  refuseIf (attr.Barred dev)
  let rq ← rqSizing dev attr
  let sq ← sqSizing dev attr
  return (rq, sq)

/-- The creation takes the sizes of the receive queue. -/
theorem toOption_rqSizing (dev : DeviceAttr) (attr : QpAttr) :
    (rqSizing dev attr).toOption = rqSizes dev attr := by
  unfold rqSizing rqSizes
  by_cases hwants : attr.WantsRq
  · have hasked : 0 < attr.rqWr.toNat ∧ attr.srq = false := hwants
    rw [if_pos hwants, if_pos hasked]
    by_cases hwr : dev.maxQpWr < attr.rqWr.toNat
    · rw [refuseIf_of hwr, if_pos (.inl hwr)]
      rfl
    by_cases hsges : attr.receiveMaxSges.toNat = 0
    · rw [refuseIf_of_not hwr, refuseIf_of hsges, if_pos (.inr hsges)]
      rfl
    rw [refuseIf_of_not hwr, refuseIf_of_not hsges, if_neg (not_or_intro hwr hsges)]
    dsimp only
    by_cases hlimit : dev.maxRqDescSize < nextPow32 attr.receiveMaxSges.toNat * 16 % 2 ^ 32
    · rw [refuseIf_of hlimit, if_pos (.inl hlimit)]
      rfl
    by_cases hzero : nextPow32 attr.receiveMaxSges.toNat * 16 % 2 ^ 32 = 0
    · rw [refuseIf_of_not hlimit, quot_zero hzero, if_pos (.inr hzero)]
      rfl
    rw [refuseIf_of_not hlimit, quot_of_ne_zero hzero, if_neg (not_or_intro hlimit hzero)]
    rfl
  · have hasked : ¬ (0 < attr.rqWr.toNat ∧ attr.srq = false) := hwants
    rw [if_neg hwants, if_neg hasked]
    rfl

theorem sendWqeSize_eq (dev : DeviceAttr) (attr : QpAttr) :
    sendWqeSize dev attr =
      if dev.maxSqDescSize < attr.sendBytes ∨
        (0 < attr.maxInlineData.toNat ∧ dev.maxSqDescSize < attr.inlineBytes) then none
      else some (max attr.sendBytes attr.inlineBytes) := by
  unfold sendWqeSize QpAttr.sendBytes QpAttr.inlineBytes
  dsimp only
  generalize (16 + 16 + attr.sendMaxSges.toNat * 16) % 2 ^ 32 = sendBytes
  generalize (16 + 16 + alignUp ((4 + attr.maxInlineData.toNat) % 2 ^ 32) 16 % 2 ^ 32) % 2 ^ 32 =
    inlineBytes
  by_cases hsend : dev.maxSqDescSize < sendBytes
  · rw [if_pos hsend, if_pos (.inl hsend)]
  by_cases hinl : 0 < attr.maxInlineData.toNat
  · simp only [hsend, hinl, if_true, if_false, false_or, true_and]
  · simp only [hsend, hinl, if_false, false_or, false_and, Nat.max_zero]

/-- The creation takes the sizes of the send queue. -/
theorem toOption_sqSizing (dev : DeviceAttr) (attr : QpAttr) :
    ((sqSizing dev attr).toOption.map fun sq => (sq.sqSizeWqebb, sq.logSqSizeWqebb)) =
      sqSizes dev attr := by
  unfold sqSizing sqSizes
  by_cases hwants : attr.WantsSq
  · have hasked : 0 < attr.sqWr.toNat := hwants
    rw [if_pos hwants, if_pos hasked, sendWqeSize_eq]
    by_cases hdev : dev.maxSqDescSize = 0
    · rw [quot_zero hdev, if_pos (.inl hdev)]
      rfl
    rw [quot_of_ne_zero hdev]
    by_cases hwr : 0x7fffffff / dev.maxSqDescSize < attr.sqWr.toNat
    · rw [refuseIf_of hwr, if_pos (.inr (.inl hwr))]
      rfl
    rw [refuseIf_of_not hwr]
    by_cases hsges : attr.sendMaxSges.toNat = 0
    · rw [refuseIf_of hsges, if_pos (.inr (.inr hsges))]
      rfl
    rw [refuseIf_of_not hsges, if_neg (by tauto)]
    by_cases hsend : dev.maxSqDescSize < attr.sendBytes
    · rw [refuseIf_of hsend, if_pos (.inl hsend)]
      rfl
    rw [refuseIf_of_not hsend]
    by_cases hinl : 0 < attr.maxInlineData.toNat ∧ dev.maxSqDescSize < attr.inlineBytes
    · rw [refuseIf_of hinl, if_pos (.inr hinl)]
      rfl
    rw [refuseIf_of_not hinl, if_neg (by tauto)]
    dsimp only
    generalize alignUpUint32 (max attr.sendBytes attr.inlineBytes) 64 = size
    by_cases hblocks : dev.maxSendWqebb < nextPow32 (size * attr.sqWr.toNat) / 64
    · rw [refuseIf_of hblocks, if_pos (.inl hblocks)]
      rfl
    by_cases hzero : size = 0
    · rw [refuseIf_of_not hblocks, quot_zero hzero, if_pos (.inr hzero)]
      rfl
    rw [refuseIf_of_not hblocks, quot_of_ne_zero hzero, if_neg (not_or_intro hblocks hzero)]
    rfl
  · have hasked : ¬ 0 < attr.sqWr.toNat := hwants
    rw [if_neg hwants, if_neg hasked]
    rfl

/-- A QP that is created has these sizes. -/
theorem QpAttr.sizing_of_create {dev : DeviceAttr} {attr : QpAttr} {internal : Umem}
    {c : CreateCalls} {qp : QpOpen} (h : attr.create dev internal c = some qp) :
    ∃ rq sq, attr.sizing dev = .ok (rq, sq) ∧ qp.rqSize = rq.rqSize ∧
      qp.rcvWqeSize = rq.rcvWqeSize ∧ qp.sqSizeWqebb = sq.sqSizeWqebb ∧
      qp.cmd.logSize = rq.logRqSize ∧ qp.cmd.logStride = rq.logStride ∧
      qp.cmd.logSqSize = sq.logSqSizeWqebb := by
  obtain ⟨hchecks, h⟩ := Option.ite_none_left_eq_some.1 h
  have hbar : ¬ attr.Barred dev := by
    unfold QpAttr.Barred
    tauto
  have hsizing : attr.sizing dev =
      (rqSizing dev attr >>= fun rq => sqSizing dev attr >>= fun sq => .ok (rq, sq)) :=
    refuseIf_of_not hbar
  rw [← toOption_rqSizing, ← toOption_sqSizing] at h
  cases hrq : rqSizing dev attr with
  | error =>
    rw [hrq] at h
    cases h
  | ok rq =>
    cases hsq : sqSizing dev attr with
    | error =>
      rw [hrq, hsq] at h
      cases h
    | ok sq =>
      rw [hrq, hsq] at h hsizing
      obtain rfl := Option.some.inj h
      exact ⟨rq, sq, hsizing, rfl, rfl, rfl, rfl, rfl, rfl⟩

/-! ## What the sizes should be -/

/-- The bytes of a receive WQE, for as many entries. -/
def QpAttr.rcvWqeBytes (attr : QpAttr) : ℕ := 2 ^ Nat.clog 2 attr.receiveMaxSges.toNat * 16

/-- The sizes of the receive queue in numbers that do not wrap. -/
def QpAttr.rqUnbounded (attr : QpAttr) : RqSizes :=
  let rqSize := max (2 ^ Nat.clog 2 (attr.rqWr.toNat * attr.rcvWqeBytes)) 64 / attr.rcvWqeBytes
  { rqSize := rqSize
    rcvWqeSize := attr.rcvWqeBytes
    logRcvWqeSize := attr.rcvWqeBytes.log2
    logRqSize := rqSize.log2
    logStride := attr.rcvWqeBytes.log2 - 4 }

/-- The bytes of a send WQE, in blocks of 64. -/
def QpAttr.sendWqeBytes (attr : QpAttr) : ℕ :=
  alignUp (max (32 + attr.sendMaxSges.toNat * 16)
    (if 0 < attr.maxInlineData.toNat then 32 + alignUp (4 + attr.maxInlineData.toNat) 16 else 0)) 64

/-- The sizes of the send queue in numbers that do not wrap. -/
def QpAttr.sqUnbounded (attr : QpAttr) : SqSizing :=
  let sqSizeBytes := 2 ^ Nat.clog 2 (attr.sendWqeBytes * attr.sqWr.toNat)
  { sendWqeSize := attr.sendWqeBytes
    sqSizeWqebb := sqSizeBytes / 64
    logSqSizeWqebb := (sqSizeBytes / 64).log2
    sqSizeWr := sqSizeBytes / attr.sendWqeBytes
    maxInlineData := if 0 < attr.maxInlineData.toNat then attr.sendWqeBytes - 36 else 0 }

/-- The receive queue holds what was asked for. -/
structure RqSizes.Fit (dev : DeviceAttr) (attr : QpAttr) (rq : RqSizes) : Prop where
  unbounded : rq = attr.rqUnbounded
  wqe : 16 * attr.receiveMaxSges.toNat ≤ rq.rcvWqeSize
  limit : rq.rcvWqeSize ≤ dev.maxRqDescSize
  entries : attr.rqWr.toNat ≤ rq.rqSize

/-- The send queue holds what was asked for. -/
structure SqSizing.Fit (dev : DeviceAttr) (attr : QpAttr) (sq : SqSizing) : Prop where
  unbounded : sq = attr.sqUnbounded
  wqe : 32 + 16 * attr.sendMaxSges.toNat ≤ sq.sendWqeSize
  inl : 36 + attr.maxInlineData.toNat ≤ sq.sendWqeSize
  limit : sq.sendWqeSize ≤ alignUp dev.maxSqDescSize 64
  entries : attr.sqWr.toNat ≤ sq.sqSizeWr
  room : attr.sqWr.toNat * sq.sendWqeSize ≤ sq.sqSizeWqebb * 64
  pow : ∃ k, sq.sqSizeWqebb = 2 ^ k
  blocks : sq.sqSizeWqebb ≤ dev.maxSendWqebb

/-- Nothing is divided by zero, and a request that is not refused gets the sizes it should. -/
def QpAttr.Sized (dev : DeviceAttr) (attr : QpAttr) : Prop :=
  attr.sizing dev ≠ .error .divByZero ∧
    ∀ rq sq, attr.sizing dev = .ok (rq, sq) →
      (attr.WantsRq → rq.Fit dev attr) ∧ (attr.WantsSq → sq.Fit dev attr)

/-- The comparisons that refuse a receive queue. -/
def QpAttr.RqRefused (dev : DeviceAttr) (attr : QpAttr) : Prop :=
  attr.WantsRq ∧ (dev.maxQpWr < attr.rqWr.toNat ∨ attr.receiveMaxSges.toNat = 0 ∨
    attr.receiveMaxSges.toNat ≤ 2 ^ 27 ∧ dev.maxRqDescSize < attr.rcvWqeBytes)

/-- The comparisons that refuse a send queue. -/
def QpAttr.SqRefused (dev : DeviceAttr) (attr : QpAttr) : Prop :=
  attr.WantsSq ∧ (0x7fffffff / dev.maxSqDescSize < attr.sqWr.toNat ∨
    attr.sendMaxSges.toNat = 0 ∨ dev.maxSqDescSize < attr.sendBytes ∨
    dev.maxSqDescSize < attr.inlineBytes ∨
    dev.maxSendWqebb <
      nextPow32 (alignUpUint32 (max attr.sendBytes attr.inlineBytes) 64 * attr.sqWr.toNat) / 64)

/-- The bytes of the receive queue are at most `2 ^ 31`. -/
def QpAttr.RqInRange (attr : QpAttr) : Prop :=
  attr.WantsRq → attr.rqWr.toNat * attr.rcvWqeBytes ≤ 2 ^ 31

/-- The bytes of the send queue are at most `2 ^ 31`. -/
def QpAttr.SqInRange (attr : QpAttr) : Prop :=
  attr.WantsSq → attr.sqWr.toNat * attr.sendWqeBytes ≤ 2 ^ 31

/-! ## Running the arithmetic -/

theorem nextPow32_eq {x : ℕ} (h : 0 < x) (hx : x ≤ 2 ^ 31) : nextPow32 x = 2 ^ Nat.clog 2 x := by
  have hclog : Nat.clog 2 x ≤ 31 := Nat.clog_le_of_le_pow hx
  have hle : 2 ^ Nat.clog 2 x ≤ 2 ^ 31 := Nat.pow_le_pow_right Nat.two_pos hclog
  unfold nextPow32
  rw [Nat.mod_eq_of_lt (hx.trans_lt (by decide)), nextPowerOfTwo_eq h (hx.trans (by decide)),
    Nat.mod_eq_of_lt (hle.trans_lt (by decide))]

/-- More than `2 ^ 27` entries are rounded to a multiple of `2 ^ 28`, and their bytes to none. -/
theorem nextPow32_mul_eq_zero {x : ℕ} (hx : 2 ^ 27 < x) (hlt : x < 2 ^ 32) :
    nextPow32 x * 16 % 2 ^ 32 = 0 := by
  have hclog : 28 ≤ Nat.clog 2 x := (Nat.lt_clog_iff_pow_lt Nat.one_lt_two).2 hx
  have hpow : 2 ^ Nat.clog 2 x * 16 = 2 ^ (Nat.clog 2 x + 4) := (Nat.pow_add 2 _ 4).symm
  unfold nextPow32
  rw [Nat.mod_eq_of_lt hlt, nextPowerOfTwo_eq (by omega) (by omega), Nat.mod_mul_mod, hpow]
  exact Nat.mod_eq_zero_of_dvd (Nat.pow_dvd_pow 2 (by omega))

section Rq

variable {dev : DeviceAttr} {attr : QpAttr}

theorem rcvWqeBytes_eq (hpos : 0 < attr.receiveMaxSges.toNat)
    (hle : attr.receiveMaxSges.toNat ≤ 2 ^ 27) :
    nextPow32 attr.receiveMaxSges.toNat * 16 % 2 ^ 32 = attr.rcvWqeBytes := by
  have hclog : Nat.clog 2 attr.receiveMaxSges.toNat ≤ 27 := Nat.clog_le_of_le_pow hle
  have hpow := Nat.pow_le_pow_right Nat.two_pos hclog
  rw [nextPow32_eq hpos (hle.trans (by decide)), QpAttr.rcvWqeBytes]
  exact Nat.mod_eq_of_lt (by omega)

theorem rcvWqeBytes_pos : 0 < attr.rcvWqeBytes :=
  Nat.mul_pos (Nat.two_pow_pos _) (by decide)

theorem le_rcvWqeBytes : 16 * attr.receiveMaxSges.toNat ≤ attr.rcvWqeBytes := by
  have hle := Nat.le_pow_clog Nat.one_lt_two attr.receiveMaxSges.toNat
  unfold QpAttr.rcvWqeBytes
  omega

/-- A queue in range has few entries for each WQE. -/
theorem QpAttr.RqInRange.sges_le (h : attr.RqInRange) (hwants : attr.WantsRq) :
    attr.receiveMaxSges.toNat ≤ 2 ^ 27 := by
  have hwr : 0 < attr.rqWr.toNat := hwants.1
  have hmul := Nat.le_mul_of_pos_left attr.rcvWqeBytes hwr
  have hle := @le_rcvWqeBytes attr
  have hrange := h hwants
  omega

theorem rqSizing_refused (h : attr.RqRefused dev) : rqSizing dev attr = .error .refused := by
  obtain ⟨hwants, h⟩ := h
  unfold rqSizing
  rw [if_pos hwants]
  by_cases hwr : dev.maxQpWr < attr.rqWr.toNat
  · exact refuseIf_of hwr
  rw [refuseIf_of_not hwr]
  by_cases hsges : attr.receiveMaxSges.toNat = 0
  · exact refuseIf_of hsges
  rw [refuseIf_of_not hsges]
  obtain ⟨hle, hlimit⟩ := (h.resolve_left hwr).resolve_left hsges
  dsimp only
  rw [rcvWqeBytes_eq (Nat.pos_of_ne_zero hsges) hle]
  exact refuseIf_of hlimit

/-- A WQE of no bytes. -/
theorem rqSizing_divByZero (hwants : attr.WantsRq) (href : ¬ attr.RqRefused dev)
    (hlt : 2 ^ 27 < attr.receiveMaxSges.toNat) : rqSizing dev attr = .error .divByZero := by
  have hwr : ¬ dev.maxQpWr < attr.rqWr.toNat := fun h => href ⟨hwants, .inl h⟩
  have hsges : attr.receiveMaxSges.toNat ≠ 0 := by omega
  unfold rqSizing
  rw [if_pos hwants, refuseIf_of_not hwr, refuseIf_of_not hsges]
  dsimp only
  rw [nextPow32_mul_eq_zero hlt attr.receiveMaxSges.isLt, refuseIf_of_not (Nat.not_lt_zero _)]
  exact quot_zero rfl

/-- Otherwise there are sizes, which are right exactly if the queue is in range. -/
theorem rqSizing_ok (href : ¬ attr.RqRefused dev)
    (hle : attr.WantsRq → attr.receiveMaxSges.toNat ≤ 2 ^ 27) :
    ∃ rq, rqSizing dev attr = .ok rq ∧ ((attr.WantsRq → rq.Fit dev attr) ↔ attr.RqInRange) := by
  by_cases hwants : attr.WantsRq
  · have hwr : ¬ dev.maxQpWr < attr.rqWr.toNat := fun h => href ⟨hwants, .inl h⟩
    have hsges : attr.receiveMaxSges.toNat ≠ 0 := fun h => href ⟨hwants, .inr (.inl h)⟩
    have hlimit : ¬ dev.maxRqDescSize < attr.rcvWqeBytes :=
      fun h => href ⟨hwants, .inr (.inr ⟨hle hwants, h⟩)⟩
    have hpos := @rcvWqeBytes_pos attr
    unfold rqSizing
    rw [if_pos hwants, refuseIf_of_not hwr, refuseIf_of_not hsges]
    dsimp only
    rw [rcvWqeBytes_eq (Nat.pos_of_ne_zero hsges) (hle hwants), refuseIf_of_not hlimit,
      quot_of_ne_zero hpos.ne']
    refine ⟨_, rfl, fun h _ => ?_, fun h _ => ?_⟩
    · have hentries := (Nat.le_div_iff_mul_le hpos).1 (h hwants).entries
      have hbytes := nextPow32_le (attr.rqWr.toNat * attr.rcvWqeBytes)
      omega
    · have hmul : 0 < attr.rqWr.toNat * attr.rcvWqeBytes := Nat.mul_pos hwants.1 hpos
      have hpow := Nat.le_pow_clog Nat.one_lt_two (attr.rqWr.toNat * attr.rcvWqeBytes)
      rw [nextPow32_eq hmul (h hwants)]
      exact
        { unbounded := rfl
          wqe := le_rcvWqeBytes
          limit := Nat.le_of_not_lt hlimit
          entries := (Nat.le_div_iff_mul_le hpos).2 (hpow.trans (Nat.le_max_left _ _)) }
  · unfold rqSizing
    rw [if_neg hwants]
    exact ⟨_, rfl, iff_of_true (fun h => absurd h hwants) fun h => absurd h hwants⟩

end Rq

section Sq

variable {dev : DeviceAttr} {attr : QpAttr}

theorem dvd_alignUp {p alignment : ℕ} (ha : 0 < alignment) : alignment ∣ alignUp p alignment := by
  have hlt := Nat.mod_lt p ha
  have hdiv := Nat.div_add_mod p alignment
  unfold alignUp
  split
  · rename_i h
    exact Nat.dvd_of_mod_eq_zero h
  · refine ⟨p / alignment + 1, ?_⟩
    rw [Nat.mul_add, Nat.mul_one]
    omega

theorem max_bytes_lt : max attr.sendBytes attr.inlineBytes < 2 ^ 32 := by
  have hsend : attr.sendBytes < 2 ^ 32 := Nat.mod_lt _ (by decide)
  have hinl : attr.inlineBytes < 2 ^ 32 := by
    unfold QpAttr.inlineBytes
    split
    · exact Nat.mod_lt _ (by decide)
    · exact Nat.two_pow_pos 32
  exact max_lt hsend hinl

/-- The size of a send WQE, as the code has it. -/
theorem sendSize_facts :
    64 ∣ alignUpUint32 (max attr.sendBytes attr.inlineBytes) 64 ∧
      alignUpUint32 (max attr.sendBytes attr.inlineBytes) 64 < 2 ^ 32 := by
  rw [alignUpUint32_eq_mod max_bytes_lt]
  exact ⟨(Nat.dvd_mod_iff (by decide)).2 (dvd_alignUp (by decide)), Nat.mod_lt _ (by decide)⟩

theorem max_bytes_eq (hsges : 32 + 16 * attr.sendMaxSges.toNat < 2 ^ 32)
    (hinl : 100 + attr.maxInlineData.toNat ≤ 2 ^ 32) :
    alignUp (max attr.sendBytes attr.inlineBytes) 64 = attr.sendWqeBytes := by
  have hsend : attr.sendBytes = 32 + attr.sendMaxSges.toNat * 16 := Nat.mod_eq_of_lt (by omega)
  have hinline : attr.inlineBytes =
      if 0 < attr.maxInlineData.toNat then 32 + alignUp (4 + attr.maxInlineData.toNat) 16
      else 0 := by
    have hle : alignUp (4 + attr.maxInlineData.toNat) 16 ≤ 2 ^ 32 - 96 :=
      alignUp_le (by decide) (by omega) (by decide)
    unfold QpAttr.inlineBytes
    rw [Nat.mod_eq_of_lt (show 4 + attr.maxInlineData.toNat < 2 ^ 32 by omega),
      Nat.mod_eq_of_lt (show alignUp (4 + attr.maxInlineData.toNat) 16 < 2 ^ 32 by omega),
      Nat.mod_eq_of_lt (by omega)]
  rw [hsend, hinline, QpAttr.sendWqeBytes]

theorem le_sendWqeBytes :
    32 + 16 * attr.sendMaxSges.toNat ≤ attr.sendWqeBytes ∧
      36 + attr.maxInlineData.toNat ≤ attr.sendWqeBytes := by
  obtain ⟨k, hk⟩ : 64 ∣ attr.sendWqeBytes := dvd_alignUp (by decide)
  have hup : max (32 + attr.sendMaxSges.toNat * 16)
      (if 0 < attr.maxInlineData.toNat then 32 + alignUp (4 + attr.maxInlineData.toNat) 16
      else 0) ≤ attr.sendWqeBytes := le_alignUp
  rw [max_le_iff] at hup
  obtain ⟨hsend, hinl⟩ := hup
  refine ⟨by omega, ?_⟩
  split at hinl
  · have hseg : 4 + attr.maxInlineData.toNat ≤ alignUp (4 + attr.maxInlineData.toNat) 16 :=
      le_alignUp
    omega
  · omega

theorem sendWqeBytes_pos : 0 < attr.sendWqeBytes := by
  have hle := @le_sendWqeBytes attr
  omega

/-- A queue in range has WQEs whose size is exact. -/
theorem QpAttr.SqInRange.size_eq (h : attr.SqInRange) (hwants : attr.WantsSq) :
    alignUpUint32 (max attr.sendBytes attr.inlineBytes) 64 = attr.sendWqeBytes := by
  have hwr : 0 < attr.sqWr.toNat := hwants
  have hmul := Nat.le_mul_of_pos_left attr.sendWqeBytes hwr
  have hle : attr.sendWqeBytes ≤ 2 ^ 31 := hmul.trans (h hwants)
  obtain ⟨hsges, hinl⟩ := @le_sendWqeBytes attr
  have heq := @max_bytes_eq attr (by omega) (by omega)
  have hmax : max attr.sendBytes attr.inlineBytes ≤ 2 ^ 31 := le_alignUp.trans (heq.trans_le hle)
  rw [alignUpUint32_of_le (k := 6) (p := 64) rfl (by decide) hmax, heq]

theorem inlineBytes_of_not (h : ¬ 0 < attr.maxInlineData.toNat) : attr.inlineBytes = 0 :=
  if_neg h

theorem sqSizing_refused (hdev : 0 < dev.maxSqDescSize) (h : attr.SqRefused dev) :
    sqSizing dev attr = .error .refused := by
  obtain ⟨hwants, h⟩ := h
  unfold sqSizing
  rw [if_pos hwants, quot_of_ne_zero hdev.ne']
  by_cases hwr : 0x7fffffff / dev.maxSqDescSize < attr.sqWr.toNat
  · exact refuseIf_of hwr
  rw [refuseIf_of_not hwr]
  by_cases hsges : attr.sendMaxSges.toNat = 0
  · exact refuseIf_of hsges
  rw [refuseIf_of_not hsges]
  by_cases hsend : dev.maxSqDescSize < attr.sendBytes
  · exact refuseIf_of hsend
  rw [refuseIf_of_not hsend]
  by_cases hinl : 0 < attr.maxInlineData.toNat ∧ dev.maxSqDescSize < attr.inlineBytes
  · exact refuseIf_of hinl
  rw [refuseIf_of_not hinl]
  obtain hinline | hblocks := ((h.resolve_left hwr).resolve_left hsges).resolve_left hsend
  · have hpos : 0 < attr.maxInlineData.toNat := by
      by_contra hzero
      rw [inlineBytes_of_not hzero] at hinline
      omega
    exact absurd ⟨hpos, hinline⟩ hinl
  · exact refuseIf_of hblocks

/-- Past the comparisons, the sizes are computed with a division by the size of a WQE. -/
theorem sqSizing_of_not_refused (hdev : 0 < dev.maxSqDescSize) (hwants : attr.WantsSq)
    (href : ¬ attr.SqRefused dev) :
    sqSizing dev attr =
      (quot (nextPow32 (alignUpUint32 (max attr.sendBytes attr.inlineBytes) 64 * attr.sqWr.toNat))
        (alignUpUint32 (max attr.sendBytes attr.inlineBytes) 64) >>= fun sqSizeWr =>
          .ok
            { sendWqeSize := alignUpUint32 (max attr.sendBytes attr.inlineBytes) 64
              sqSizeWqebb := nextPow32
                (alignUpUint32 (max attr.sendBytes attr.inlineBytes) 64 * attr.sqWr.toNat) / 64
              logSqSizeWqebb := (nextPow32
                (alignUpUint32 (max attr.sendBytes attr.inlineBytes) 64 *
                  attr.sqWr.toNat) / 64).log2
              sqSizeWr := sqSizeWr
              maxInlineData :=
                if 0 < attr.maxInlineData.toNat
                then alignUpUint32 (max attr.sendBytes attr.inlineBytes) 64 - (16 + 16 + 4)
                else 0 }) := by
  have hwr : ¬ 0x7fffffff / dev.maxSqDescSize < attr.sqWr.toNat := fun h => href ⟨hwants, .inl h⟩
  have hsges : ¬ attr.sendMaxSges.toNat = 0 := fun h => href ⟨hwants, .inr (.inl h)⟩
  have hsend : ¬ dev.maxSqDescSize < attr.sendBytes :=
    fun h => href ⟨hwants, .inr (.inr (.inl h))⟩
  have hinl : ¬ (0 < attr.maxInlineData.toNat ∧ dev.maxSqDescSize < attr.inlineBytes) :=
    fun h => href ⟨hwants, .inr (.inr (.inr (.inl h.2)))⟩
  unfold sqSizing
  rw [if_pos hwants, quot_of_ne_zero hdev.ne', refuseIf_of_not hwr, refuseIf_of_not hsges,
    refuseIf_of_not hsend, refuseIf_of_not hinl]
  exact refuseIf_of_not fun h => href ⟨hwants, .inr (.inr (.inr (.inr h)))⟩

/-- A WQE of no bytes. -/
theorem sqSizing_divByZero (hdev : 0 < dev.maxSqDescSize) (hwants : attr.WantsSq)
    (href : ¬ attr.SqRefused dev)
    (hzero : alignUpUint32 (max attr.sendBytes attr.inlineBytes) 64 = 0) :
    sqSizing dev attr = .error .divByZero := by
  rw [sqSizing_of_not_refused hdev hwants href]
  exact quot_zero hzero

theorem QpAttr.SqInRange.size_le (h : attr.SqInRange) (hwants : attr.WantsSq)
    (href : ¬ attr.SqRefused dev) : attr.sendWqeBytes ≤ alignUp dev.maxSqDescSize 64 := by
  have hsend : attr.sendBytes ≤ dev.maxSqDescSize :=
    Nat.le_of_not_lt fun h => href ⟨hwants, .inr (.inr (.inl h))⟩
  have hinl : attr.inlineBytes ≤ dev.maxSqDescSize :=
    Nat.le_of_not_lt fun h => href ⟨hwants, .inr (.inr (.inr (.inl h)))⟩
  have hsize := h.size_eq hwants
  have hne : alignUpUint32 (max attr.sendBytes attr.inlineBytes) 64 ≠ 0 :=
    hsize.trans_ne sendWqeBytes_pos.ne'
  rw [← hsize, alignUpUint32_of_ne_zero (k := 6) (p := 64) rfl (by decide) max_bytes_lt hne]
  exact alignUp_le (by decide) ((max_le hsend hinl).trans le_alignUp) (dvd_alignUp (by decide))

/-- The bytes of a send queue are a power of two of blocks. -/
theorem sqBytes_eq (hwants : attr.WantsSq) :
    ∃ j, 2 ^ Nat.clog 2 (attr.sendWqeBytes * attr.sqWr.toNat) = 64 * 2 ^ j := by
  have hle : 64 ≤ attr.sendWqeBytes := Nat.le_of_dvd sendWqeBytes_pos (dvd_alignUp (by decide))
  have hmul := Nat.le_mul_of_pos_right attr.sendWqeBytes hwants
  have hclog : 5 < Nat.clog 2 (attr.sendWqeBytes * attr.sqWr.toNat) :=
    (Nat.lt_clog_iff_pow_lt Nat.one_lt_two).2 (by omega)
  refine ⟨Nat.clog 2 (attr.sendWqeBytes * attr.sqWr.toNat) - 6, ?_⟩
  calc 2 ^ Nat.clog 2 (attr.sendWqeBytes * attr.sqWr.toNat)
      = 2 ^ (6 + (Nat.clog 2 (attr.sendWqeBytes * attr.sqWr.toNat) - 6)) := by
        rw [Nat.add_sub_cancel' hclog]
    _ = 64 * 2 ^ (Nat.clog 2 (attr.sendWqeBytes * attr.sqWr.toNat) - 6) := Nat.pow_add 2 6 _

/-- Otherwise there are sizes, which are right exactly if the queue is in range. -/
theorem sqSizing_ok (hdev : 0 < dev.maxSqDescSize) (href : ¬ attr.SqRefused dev)
    (hne : attr.WantsSq → alignUpUint32 (max attr.sendBytes attr.inlineBytes) 64 ≠ 0) :
    ∃ sq, sqSizing dev attr = .ok sq ∧ ((attr.WantsSq → sq.Fit dev attr) ↔ attr.SqInRange) := by
  by_cases hwants : attr.WantsSq
  · rw [sqSizing_of_not_refused hdev hwants href, quot_of_ne_zero (hne hwants)]
    refine ⟨_, rfl, fun h _ => ?_, fun h _ => ?_⟩
    · have hfit := h hwants
      have hsges := hfit.wqe
      have hinl := hfit.inl
      have hentries := (Nat.le_div_iff_mul_le (Nat.pos_of_ne_zero (hne hwants))).1 hfit.entries
      obtain ⟨⟨k, hk⟩, hlt⟩ := @sendSize_facts attr
      dsimp only at hsges hinl
      have hexact : alignUpUint32 (max attr.sendBytes attr.inlineBytes) 64 =
          attr.sendWqeBytes := by
        rw [alignUpUint32_of_ne_zero (k := 6) (p := 64) rfl (by decide) max_bytes_lt (hne hwants)]
        exact max_bytes_eq (by omega) (by omega)
      rw [hexact] at hentries
      exact hentries.trans (nextPow32_le _)
    · have hsize := h.size_eq hwants
      have hpos := @sendWqeBytes_pos attr
      have hrange := h hwants
      have hmul : 0 < attr.sendWqeBytes * attr.sqWr.toNat := Nat.mul_pos hpos hwants
      rw [Nat.mul_comm] at hrange
      have hpow := Nat.le_pow_clog Nat.one_lt_two (attr.sendWqeBytes * attr.sqWr.toNat)
      obtain ⟨j, hj⟩ := @sqBytes_eq attr hwants
      have hblocks : ¬ dev.maxSendWqebb <
          nextPow32 (attr.sendWqeBytes * attr.sqWr.toNat) / 64 := by
        rw [← hsize]
        exact fun h => href ⟨hwants, .inr (.inr (.inr (.inr h)))⟩
      rw [hsize, nextPow32_eq hmul hrange]
      rw [nextPow32_eq hmul hrange] at hblocks
      exact
        { unbounded := rfl
          wqe := le_sendWqeBytes.1
          inl := le_sendWqeBytes.2
          limit := h.size_le hwants href
          entries := (Nat.le_div_iff_mul_le hpos).2 ((Nat.mul_comm ..).trans_le hpow)
          room := by
            dsimp only
            rw [Nat.mul_comm, Nat.div_mul_cancel (by rw [hj]; exact Nat.dvd_mul_right ..)]
            exact hpow
          pow := ⟨j, by dsimp only; rw [hj, Nat.mul_div_cancel_left _ (by decide)]⟩
          blocks := Nat.le_of_not_lt hblocks }
  · unfold sqSizing
    rw [if_neg hwants]
    exact ⟨_, rfl, iff_of_true (fun h => absurd h hwants) fun h => absurd h hwants⟩

end Sq

section Qp

variable {dev : DeviceAttr} {attr : QpAttr}

theorem QpAttr.sizing_of_not_barred (h : ¬ attr.Barred dev) :
    attr.sizing dev =
      (rqSizing dev attr >>= fun rq => sqSizing dev attr >>= fun sq => .ok (rq, sq)) :=
  refuseIf_of_not h

theorem sized_of_refused (h : attr.sizing dev = .error .refused) : attr.Sized dev := by
  refine ⟨fun hdiv => ?_, fun rq sq hok => ?_⟩
  · rw [h] at hdiv
    cases hdiv
  · rw [h] at hok
    cases hok

theorem not_sized_of_divByZero (h : attr.sizing dev = .error .divByZero) : ¬ attr.Sized dev :=
  fun hsized => hsized.1 h

theorem sized_iff_of_ok {rq : RqSizes} {sq : SqSizing} (h : attr.sizing dev = .ok (rq, sq)) :
    attr.Sized dev ↔
      (attr.WantsRq → rq.Fit dev attr) ∧ (attr.WantsSq → sq.Fit dev attr) := by
  unfold QpAttr.Sized
  rw [h]
  constructor
  · intro hsized
    exact hsized.2 rq sq rfl
  · intro hfit
    refine ⟨nofun, fun rq' sq' heq => ?_⟩
    obtain ⟨rfl, rfl⟩ := Prod.mk.inj (Except.ok.inj heq)
    exact hfit

/-- The requests whose queues are sized well. -/
def QpAttr.SizesFit (dev : DeviceAttr) (attr : QpAttr) : Prop :=
  attr.Barred dev ∨ attr.RqRefused dev ∨
    (attr.WantsRq → attr.receiveMaxSges.toNat ≤ 2 ^ 27) ∧ attr.SqRefused dev ∨
      attr.RqInRange ∧ attr.SqInRange

/-- **Sizes of a QP.** For every request and every device: the arithmetic does not divide by zero,
and refuses the request or computes sizes that are exact, large enough and within the limits,
exactly if the bytes of its queues are at most `2 ^ 31`, or a comparison refuses it first. -/
theorem QpAttr.sized_iff (hdev : 0 < dev.maxSqDescSize) : attr.Sized dev ↔ attr.SizesFit dev := by
  unfold QpAttr.SizesFit
  by_cases hbar : attr.Barred dev
  · exact iff_of_true (sized_of_refused (refuseIf_of hbar)) (.inl hbar)
  have hsizing := QpAttr.sizing_of_not_barred hbar
  by_cases hrq : attr.RqRefused dev
  · rw [rqSizing_refused hrq] at hsizing
    exact iff_of_true (sized_of_refused hsizing) (.inr (.inl hrq))
  rw [or_iff_right hbar, or_iff_right hrq]
  by_cases hsges : attr.WantsRq → attr.receiveMaxSges.toNat ≤ 2 ^ 27
  · obtain ⟨rq, hrqok, hrqfit⟩ := rqSizing_ok hrq hsges
    rw [hrqok] at hsizing
    by_cases hsq : attr.SqRefused dev
    · rw [sqSizing_refused hdev hsq] at hsizing
      exact iff_of_true (sized_of_refused hsizing) (.inl ⟨hsges, hsq⟩)
    rw [or_iff_right fun h => hsq h.2]
    by_cases hne : attr.WantsSq → alignUpUint32 (max attr.sendBytes attr.inlineBytes) 64 ≠ 0
    · obtain ⟨sq, hsqok, hsqfit⟩ := sqSizing_ok hdev hsq hne
      rw [hsqok] at hsizing
      rw [sized_iff_of_ok hsizing, hrqfit, hsqfit]
    · rw [Classical.not_imp, not_not] at hne
      obtain ⟨hwants, hzero⟩ := hne
      rw [sqSizing_divByZero hdev hwants hsq hzero] at hsizing
      refine iff_of_false (not_sized_of_divByZero hsizing) fun h => ?_
      exact sendWqeBytes_pos.ne ((h.2.size_eq hwants).symm.trans hzero).symm
  · have hsges' := hsges
    rw [Classical.not_imp, not_le] at hsges'
    obtain ⟨hwants, hlt⟩ := hsges'
    rw [rqSizing_divByZero hwants hrq hlt] at hsizing
    refine iff_of_false (not_sized_of_divByZero hsizing) fun h => ?_
    obtain h | h := h
    · exact hsges h.1
    · exact hsges h.1.sges_le

/-- A QP of `rqWr` receives with `receiveMaxSges` entries each. -/
def qpReceiving (rqWr receiveMaxSges : BitVec 32) : QpAttr :=
  { qpInternal with rqWr := rqWr, receiveMaxSges := receiveMaxSges }

theorem qp_sized : (qpReceiving 64#32 4#32).Sized someDevice :=
  (QpAttr.sized_iff (by decide : 0 < someDevice.maxSqDescSize)).2
    (.inr (.inr (.inr ⟨fun _ => by decide, fun _ => by decide⟩)))

/-- The bytes of a WQE with `2 ^ 28` entries are none, and are divided by. -/
theorem sges_divide_by_zero :
    (qpReceiving 64#32 0x10000000#32).sizing someDevice = .error .divByZero ∧
      ¬ ∀ (dev : DeviceAttr) (attr : QpAttr), 0 < dev.maxQpWr → 0 < dev.maxRqDescSize →
        0 < dev.maxSqDescSize → 0 < dev.maxSendWqebb → attr.Sized dev := by
  refine ⟨by decide, fun h => ?_⟩
  have hsized := h someDevice (qpReceiving 64#32 0x10000000#32) (by decide) (by decide)
    (by decide) (by decide)
  exact hsized.1 (by decide)

end Qp

/-! ## Shared receive queues -/

/-- `m_rcv_wqe_size`, `m_rcv_max_sges` as it is reported, `m_log_rcv_wqe_size`, `m_srq_size`,
`log_srq_size`, `db_umem_offset`, and `total_umem_size` where the umem is internal. -/
structure SrqSizing where
  rcvWqeSize : ℕ
  rcvMaxSges : ℕ
  logRcvWqeSize : ℕ
  srqSize : ℕ
  logSrqSize : ℕ
  dbUmemOffset : ℕ
  totalUmemSize : ℕ
deriving DecidableEq, Repr

/-- `doca_verbs_srq::create`, up to the end of its arithmetic. -/
def SrqAttr.sizing (dev : DeviceAttr) (attr : SrqAttr) : Except Fault SrqSizing := do
  refuseIf (attr.srqType = .other)
  refuseIf (attr.pdNull = true)
  refuseIf (attr.srqWr.toNat = 0)
  refuseIf (dev.maxSrqWr < attr.srqWr.toNat)
  refuseIf (attr.receiveMaxSges.toNat = 0)
  refuseIf (dev.maxSrqSge < attr.receiveMaxSges.toNat)
  let rcvWqeSize := attr.rcvWqeSize
  let rcvMaxSges :=
    if attr.srqType = .linkedList then (rcvWqeSize + (2 ^ 64 - 16)) % 2 ^ 64 / 16 % 2 ^ 32
    else rcvWqeSize / 16
  let srqSizeBytes := nextPow32 (attr.srqWr.toNat * rcvWqeSize)
  let srqSize ← quot srqSizeBytes rcvWqeSize
  let dbUmemOffset := alignUpUint32 (srqSize * rcvWqeSize % 2 ^ 32) 64
  return {
    rcvWqeSize := rcvWqeSize
    rcvMaxSges := rcvMaxSges
    logRcvWqeSize := rcvWqeSize.log2
    srqSize := srqSize
    logSrqSize := srqSize.log2
    dbUmemOffset := dbUmemOffset
    totalUmemSize := alignUpUint32 ((dbUmemOffset + 64) % 2 ^ 32) 4096 }

/-- The requests that its checks refuse, within the limits of the device. -/
def SrqAttr.Barred (attr : SrqAttr) : Prop :=
  attr.srqType = .other ∨ attr.pdNull = true ∨ attr.srqWr.toNat = 0 ∨
    attr.receiveMaxSges.toNat = 0

/-- The bytes of the segments of a WQE, with the next segment of a linked list. -/
def SrqAttr.segBytes (attr : SrqAttr) : ℕ :=
  16 * attr.receiveMaxSges.toNat + if attr.srqType = .linkedList then 16 else 0

/-- The bytes of a WQE, in numbers that do not wrap. -/
def SrqAttr.rcvWqeBytes (attr : SrqAttr) : ℕ :=
  2 ^ Nat.clog 2 (if attr.srqType = .linkedList then max attr.segBytes 32 else attr.segBytes)

/-- The queue holds what was asked for, and the doorbell record has a place behind it. -/
structure SrqSizing.Fit (attr : SrqAttr) (s : SrqSizing) : Prop where
  pow : ∃ k, s.rcvWqeSize = 2 ^ k
  segs : attr.segBytes ≤ s.rcvWqeSize
  sges : attr.receiveMaxSges.toNat ≤ s.rcvMaxSges
  sizePow : ∃ k, s.srqSize = 2 ^ k
  size : attr.srqWr.toNat ≤ s.srqSize
  behind : s.srqSize * s.rcvWqeSize ≤ s.dbUmemOffset
  aligned : 64 ∣ s.dbUmemOffset
  inside : s.dbUmemOffset + 64 ≤ s.totalUmemSize

/-- The SRQ is the one of these sizes: the doorbell record is where they say, on a cache line if the
umem is its own. -/
structure SrqOpen.Has (attr : SrqAttr) (internal : Umem) (srq : SrqOpen) (s : SrqSizing) :
    Prop where
  size : srq.srqSize = s.srqSize
  wqe : srq.rcvWqeSize = s.rcvWqeSize
  logSize : srq.cmd.logSize = s.logSrqSize
  logStride : srq.cmd.logStride = s.logRcvWqeSize
  buffer : srq.dbBuffer = srq.srqBuf + BitVec.ofNat 64 s.dbUmemOffset
  own : attr.externalUmem = none → srq.srqBuf = internal.address ∧ 64 ∣ srq.dbBuffer.toNat

section Srq

variable {dev : DeviceAttr} {attr : SrqAttr}

theorem SrqAttr.sizing_of_barred (h : attr.Barred) (hwr : attr.srqWr.toNat ≤ dev.maxSrqWr) :
    attr.sizing dev = .error .refused := by
  unfold SrqAttr.sizing
  by_cases htype : attr.srqType = .other
  · exact refuseIf_of htype
  rw [refuseIf_of_not htype]
  by_cases hpd : attr.pdNull = true
  · exact refuseIf_of hpd
  rw [refuseIf_of_not hpd]
  by_cases hzero : attr.srqWr.toNat = 0
  · exact refuseIf_of hzero
  rw [refuseIf_of_not hzero, refuseIf_of_not (Nat.not_lt.2 hwr)]
  exact refuseIf_of (((h.resolve_left htype).resolve_left hpd).resolve_left hzero)

theorem SrqAttr.segBytes_le : attr.segBytes ≤ attr.rcvWqeBytes := by
  refine le_trans ?_ (Nat.le_pow_clog Nat.one_lt_two _)
  split
  · exact Nat.le_max_left _ _
  · exact le_rfl

/-- The size of a WQE is exact. -/
theorem SrqAttr.rcvWqeSize_eq (hpos : 0 < attr.receiveMaxSges.toNat)
    (hlt : attr.rcvWqeBytes < 2 ^ 31) : attr.rcvWqeSize = attr.rcvWqeBytes := by
  have hsegs := @SrqAttr.segBytes_le attr
  unfold SrqAttr.segBytes at hsegs
  have hbytes : (if attr.srqType = .linkedList
      then max ((attr.receiveMaxSges.toNat * 16 % 2 ^ 32 + 16) % 2 ^ 32) 32
      else attr.receiveMaxSges.toNat * 16 % 2 ^ 32) =
      if attr.srqType = .linkedList then max attr.segBytes 32 else attr.segBytes := by
    unfold SrqAttr.segBytes
    split
    · rename_i htype
      rw [if_pos htype] at hsegs
      rw [Nat.mod_eq_of_lt (by omega), Nat.mod_eq_of_lt (by omega), Nat.mul_comm]
    · rw [Nat.mod_eq_of_lt (by omega), Nat.mul_comm, Nat.add_zero]
  have hle' := Nat.le_pow_clog Nat.one_lt_two
    (if attr.srqType = .linkedList then max attr.segBytes 32 else attr.segBytes)
  unfold SrqAttr.rcvWqeSize
  dsimp only
  rw [hbytes]
  unfold SrqAttr.rcvWqeBytes at hlt ⊢
  refine nextPow32_eq ?_ (hle'.trans hlt.le)
  unfold SrqAttr.segBytes
  split <;> omega

/-- The doorbell record and the umem around a queue. -/
theorem dbUmemOffset_facts {bytes : ℕ} (h : bytes ≤ 2 ^ 31) :
    bytes ≤ alignUpUint32 (bytes % 2 ^ 32) 64 ∧ 64 ∣ alignUpUint32 (bytes % 2 ^ 32) 64 ∧
      alignUpUint32 (bytes % 2 ^ 32) 64 + 64 ≤
        alignUpUint32 ((alignUpUint32 (bytes % 2 ^ 32) 64 + 64) % 2 ^ 32) 4096 := by
  have hle : alignUp bytes 64 ≤ 2 ^ 31 := alignUp_le (by decide) h (by decide)
  have hup : bytes ≤ alignUp bytes 64 := le_alignUp
  rw [Nat.mod_eq_of_lt (h.trans_lt (by decide)),
    alignUpUint32_of_le (k := 6) (p := 64) rfl (by decide) h]
  have hlt : alignUp bytes 64 + 64 < 2 ^ 32 := by omega
  have hpage : alignUp (alignUp bytes 64 + 64) 4096 ≤ 2 ^ 31 + 4096 :=
    alignUp_le (by decide) (by omega) (by decide)
  rw [Nat.mod_eq_of_lt hlt, alignUpUint32_eq_mod hlt, Nat.mod_eq_of_lt (by omega)]
  exact ⟨hup, dvd_alignUp (by decide), le_alignUp⟩

/-- Entries of `2 ^ r` bytes fill a power of two of bytes, and are a power of two. -/
theorem exists_pow_entries {n r m : ℕ} (hn : 0 < n) (h : n * 2 ^ r ≤ 2 ^ m) :
    ∃ k, 2 ^ m / 2 ^ r = 2 ^ k ∧ 2 ^ k * 2 ^ r = 2 ^ m ∧ n ≤ 2 ^ k := by
  have hrm : r ≤ m := by
    apply (Nat.pow_le_pow_iff_right Nat.one_lt_two).1
    exact (Nat.le_mul_of_pos_left _ hn).trans h
  have hback : 2 ^ (m - r) * 2 ^ r = 2 ^ m := by
    rw [← Nat.pow_add, Nat.sub_add_cancel hrm]
  refine ⟨m - r, Nat.pow_div hrm Nat.two_pos, hback, ?_⟩
  apply Nat.le_of_mul_le_mul_right _ (Nat.two_pow_pos r)
  rwa [hback]

/-- The WQEs of a queue of `2 ^ m` bytes. -/
theorem SrqAttr.sizing_ok (hbar : ¬ attr.Barred) (hwr : attr.srqWr.toNat ≤ dev.maxSrqWr)
    (hsge : attr.receiveMaxSges.toNat ≤ dev.maxSrqSge)
    (hsize : dev.maxSrqWr * attr.rcvWqeBytes < 2 ^ 31) :
    ∃ s, attr.sizing dev = .ok s ∧ s.Fit attr := by
  unfold SrqAttr.Barred at hbar
  simp only [not_or] at hbar
  obtain ⟨htype, hpd, hwr0, hsges0⟩ := hbar
  have hpos : 0 < attr.receiveMaxSges.toNat := Nat.pos_of_ne_zero hsges0
  have hmax : 0 < dev.maxSrqWr := by omega
  have hlt : attr.rcvWqeBytes < 2 ^ 31 := (Nat.le_mul_of_pos_left _ hmax).trans_lt hsize
  have heq := SrqAttr.rcvWqeSize_eq hpos hlt
  have hbytes : attr.srqWr.toNat * attr.rcvWqeBytes ≤ 2 ^ 31 :=
    (Nat.mul_le_mul_right _ hwr).trans hsize.le
  have hsegs := @SrqAttr.segBytes_le attr
  have hwrpos : 0 < attr.srqWr.toNat := Nat.pos_of_ne_zero hwr0
  obtain ⟨r, hr⟩ : ∃ r, attr.rcvWqeBytes = 2 ^ r := ⟨_, rfl⟩
  have hrpos : 0 < attr.rcvWqeBytes := hr ▸ Nat.two_pow_pos r
  have hmul : 0 < attr.srqWr.toNat * attr.rcvWqeBytes := Nat.mul_pos hwrpos hrpos
  have hclog := Nat.le_pow_clog Nat.one_lt_two (attr.srqWr.toNat * attr.rcvWqeBytes)
  have hle : Nat.clog 2 (attr.srqWr.toNat * attr.rcvWqeBytes) ≤ 31 := Nat.clog_le_of_le_pow hbytes
  generalize hm : Nat.clog 2 (attr.srqWr.toNat * attr.rcvWqeBytes) = m at hclog hle
  obtain ⟨k, hquot, hback, hentries⟩ := exists_pow_entries hwrpos (hr ▸ hclog)
  rw [← hr] at hquot hback
  obtain ⟨hbehind, haligned, hinside⟩ :=
    dbUmemOffset_facts (Nat.pow_le_pow_right Nat.two_pos hle : 2 ^ m ≤ 2 ^ 31)
  unfold SrqAttr.sizing
  rw [refuseIf_of_not htype, refuseIf_of_not hpd, refuseIf_of_not hwr0,
    refuseIf_of_not (Nat.not_lt.2 hwr), refuseIf_of_not hsges0,
    refuseIf_of_not (Nat.not_lt.2 hsge), heq]
  dsimp only
  rw [quot_of_ne_zero hrpos.ne', nextPow32_eq hmul hbytes, hm, hquot, hback]
  refine ⟨_, rfl, ?_⟩
  exact
    { pow := ⟨r, hr⟩
      segs := hsegs
      sges := by
        dsimp only
        unfold SrqAttr.segBytes at hsegs
        split at hsegs <;> rename_i htype
        · rw [if_pos htype]
          omega
        · rw [if_neg htype]
          omega
      sizePow := ⟨k, rfl⟩
      size := hentries
      behind := hback.trans_le hbehind
      aligned := haligned
      inside := hinside }

/-- The creation makes an SRQ of these sizes. -/
theorem SrqAttr.create_of_sizing {s : SrqSizing} {internal : Umem} {c : CreateCalls}
    (h : attr.sizing dev = .ok s) (haligned : 64 ∣ s.dbUmemOffset) (hc : c.ok = true)
    (haddr : 4096 ∣ internal.address.toNat) :
    ∃ srq, attr.create dev internal c = some srq ∧ srq.Has attr internal s := by
  obtain ⟨htype, h⟩ := of_refuseIf_eq_ok h
  obtain ⟨hpd, h⟩ := of_refuseIf_eq_ok h
  obtain ⟨hwr0, h⟩ := of_refuseIf_eq_ok h
  obtain ⟨hwr, h⟩ := of_refuseIf_eq_ok h
  obtain ⟨hsges0, h⟩ := of_refuseIf_eq_ok h
  obtain ⟨hsge, h⟩ := of_refuseIf_eq_ok h
  obtain ⟨hne, h⟩ := of_quot_eq_ok h
  obtain rfl := Except.ok.inj h
  have hchecks : ¬ (attr.srqType = .other ∨ attr.pdNull = true ∨ attr.srqWr.toNat = 0 ∨
      dev.maxSrqWr < attr.srqWr.toNat ∨ attr.receiveMaxSges.toNat = 0 ∨
      dev.maxSrqSge < attr.receiveMaxSges.toNat ∨ attr.rcvWqeSize = 0 ∨ c.ok = false) := by
    rw [hc]
    tauto
  unfold SrqAttr.create
  rw [if_neg hchecks]
  refine ⟨_, rfl, rfl, rfl, rfl, rfl, rfl, fun hnone => ?_⟩
  dsimp only at haligned ⊢
  rw [hnone]
  refine ⟨rfl, ?_⟩
  dsimp only
  rw [BitVec.toNat_add, BitVec.toNat_ofNat]
  omega

/-- **Sizes of an SRQ.** For every SRQ within the limits of the device whose largest queue has less
than `2 ^ 31` bytes: it is refused for its type, its protection domain or a count of zero, or its
sizes hold what was asked for, with the doorbell record on a cache line behind the queue and inside
the umem; and the SRQ that is created has these sizes. -/
theorem SrqAttr.sized (hwr : attr.srqWr.toNat ≤ dev.maxSrqWr)
    (hsge : attr.receiveMaxSges.toNat ≤ dev.maxSrqSge)
    (hsize : dev.maxSrqWr * attr.rcvWqeBytes < 2 ^ 31) :
    (attr.Barred → attr.sizing dev = .error .refused) ∧
      (¬ attr.Barred → ∃ s, attr.sizing dev = .ok s ∧ s.Fit attr ∧
        ∀ (internal : Umem) (c : CreateCalls), c.ok = true → 4096 ∣ internal.address.toNat →
          ∃ srq, attr.create dev internal c = some srq ∧ srq.Has attr internal s) := by
  refine ⟨fun hbar => SrqAttr.sizing_of_barred hbar hwr, fun hbar => ?_⟩
  obtain ⟨s, hok, hfit⟩ := SrqAttr.sizing_ok hbar hwr hsge hsize
  exact ⟨s, hok, hfit, fun internal c hc haddr =>
    SrqAttr.create_of_sizing hok hfit.aligned hc haddr⟩

/-- A linked list of 1000 WQEs with three entries each. -/
def srqLinked : SrqAttr where
  pdNull := false
  srqType := .linkedList
  srqWr := 1000#32
  receiveMaxSges := 3#32
  externalUmem := none
  externalUmemOffset := 0#64

theorem srqLinked_sized : ∃ s, srqLinked.sizing someDevice = .ok s ∧ s.Fit srqLinked := by
  have hbytes : srqLinked.rcvWqeBytes = 64 := by decide
  obtain ⟨s, hok, hfit, -⟩ := (@SrqAttr.sized someDevice srqLinked (by decide) (by decide)
    (by rw [hbytes]; decide)).2 (by unfold SrqAttr.Barred; decide)
  exact ⟨s, hok, hfit⟩

example : (srqLinked.sizing someDevice).toOption.map SrqSizing.srqSize = some 1024 := by decide

end Srq

/-! ## What is created -/

section Created

variable {dev : DeviceAttr} {internal : Umem} {c : CreateCalls}

/-- A QP is created exactly if its arithmetic succeeds and so do all the calls. -/
theorem QpAttr.isSome_create {attr : QpAttr} :
    (attr.create dev internal c).isSome = true ↔
      (attr.sizing dev).isOk = true ∧ c.ok = true := by
  by_cases hbar : attr.Barred dev
  · have hsizing : attr.sizing dev = .error .refused := refuseIf_of hbar
    have hcreate : attr.create dev internal c = none := by
      unfold QpAttr.Barred at hbar
      exact if_pos (by tauto)
    rw [hsizing, hcreate]
    exact iff_of_false nofun fun h => nomatch h.1
  cases hc : c.ok with
  | false =>
    have hcreate : attr.create dev internal c = none := if_pos (by tauto)
    rw [hcreate]
    exact iff_of_false nofun fun h => nomatch h.2
  | true =>
    rw [QpAttr.sizing_of_not_barred hbar]
    unfold QpAttr.create
    rw [if_neg (by unfold QpAttr.Barred at hbar; rw [hc]; tauto), ← toOption_rqSizing,
      ← toOption_sqSizing]
    cases hrq : rqSizing dev attr with
    | error => exact iff_of_false nofun fun h => nomatch h.1
    | ok rq =>
      cases hsq : sqSizing dev attr with
      | error => exact iff_of_false nofun fun h => nomatch h.1
      | ok sq => exact iff_of_true rfl ⟨rfl, rfl⟩

/-- A CQ is created exactly if its size is a power of two that the device has, and all the calls
succeed. -/
theorem CqAttr.isSome_create {attr : CqAttr} :
    (attr.create dev internal c).isSome = true ↔
      isPowerOfTwo attr.cqSize.toNat = true ∧ attr.cqSize.toNat ≤ dev.maxCqe ∧ c.ok = true := by
  unfold CqAttr.create
  split_ifs with h
  · refine iff_of_false nofun ?_
    rintro ⟨hpow, hmax, hc⟩
    rw [hpow, hc] at h
    simp only [Bool.true_eq_false, false_or, or_false] at h
    omega
  · simp only [not_or, Bool.not_eq_false, not_lt] at h
    exact iff_of_true rfl h

/-- An SRQ is created exactly if its arithmetic succeeds and so do all the calls. -/
theorem SrqAttr.isSome_create {attr : SrqAttr} :
    (attr.create dev internal c).isSome = true ↔
      (attr.sizing dev).isOk = true ∧ c.ok = true := by
  constructor
  · intro h
    obtain ⟨srq, h⟩ := Option.isSome_iff_exists.1 h
    obtain ⟨hchecks, -⟩ := Option.ite_none_left_eq_some.1 h
    simp only [not_or] at hchecks
    obtain ⟨htype, hpd, hwr, hmax, hsge, hmaxSge, hsize, hc⟩ := hchecks
    refine ⟨?_, by simpa using hc⟩
    unfold SrqAttr.sizing
    rw [refuseIf_of_not htype, refuseIf_of_not hpd, refuseIf_of_not hwr, refuseIf_of_not hmax,
      refuseIf_of_not hsge, refuseIf_of_not hmaxSge, quot_of_ne_zero hsize]
    rfl
  · rintro ⟨hok, hc⟩
    cases h : attr.sizing dev with
    | error =>
      rw [h] at hok
      cases hok
    | ok s =>
      obtain ⟨htype, h⟩ := of_refuseIf_eq_ok h
      obtain ⟨hpd, h⟩ := of_refuseIf_eq_ok h
      obtain ⟨hwr, h⟩ := of_refuseIf_eq_ok h
      obtain ⟨hmax, h⟩ := of_refuseIf_eq_ok h
      obtain ⟨hsge, h⟩ := of_refuseIf_eq_ok h
      obtain ⟨hmaxSge, h⟩ := of_refuseIf_eq_ok h
      obtain ⟨hsize, -⟩ := of_quot_eq_ok h
      unfold SrqAttr.create
      rw [if_neg (by rw [hc]; tauto)]
      rfl

end Created

end Gpunetio.Layout
