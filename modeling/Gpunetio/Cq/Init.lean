import Gpunetio.Cq.Poll

/-!
# Completion queue memory before the first completion

The three places that fill a CQ ring, each with its own value for a CQE the NIC has not written:
`mlx5_init_cqes` on the buffer of `create_cq`, `doca_verbs_cq_open::create` on a buffer of its own,
and `doca_gpu_verbs_reset_tracking_and_memory`.

* `createCq`, `createInternal`, `resetRing`: the ring each of them leaves. A creation whose 32-bit
  size computation gives less memory than the ring needs leaves none;
* `CqImage`: the rings of a CQ the NIC has not written since;
* `createCq_eq_some`: what a ring from `create_cq` looks like;
* `CqOrigin.QuietAt`: when polling such a ring for an index reports nothing;
* **`quiet_iff`**: both poll functions wait on a ring not yet written exactly when `QuietAt` holds.
-/

namespace Gpunetio

/-- What the host answers: `sysconf(_SC_PAGESIZE)` and the `max_cqe` of the device. -/
structure HostEnv where
  pageSize : ℕ
  maxCqe : ℕ

/-- `doca_internal_utils_is_power_of_two`. -/
def isPowerOfTwo (x : ℕ) : Bool := x != 0 && x &&& (x - 1) == 0

/-- `align_up_uint32`. -/
def alignUpUint32 (value alignment : ℕ) : ℕ :=
  if value % alignment = 0 then value else (value + (alignment - value % alignment)) % 2 ^ 32

/-- `calc_cq_external_umem_size`. -/
def calcCqExternalUmemSize (env : HostEnv) (queueSize : ℕ) : ℕ :=
  alignUpUint32 (if queueSize ≠ 0 then (queueSize * 64 % 2 ^ 32 + 8) % 2 ^ 32 else 0) env.pageSize

/-- `total_umem_size` in `doca_verbs_cq_open::create`. -/
def totalUmemSize (numCqes : ℕ) : ℕ :=
  alignUpUint32 ((alignUpUint32 (numCqes * 64 % 2 ^ 32) 64 + 64) % 2 ^ 32) 4096

/-- The checks of `doca_verbs_cq_open::create` on the size. -/
def checkCqSize (env : HostEnv) (numCqes : ℕ) : Bool :=
  isPowerOfTwo numCqes && numCqes ≤ env.maxCqe

/-- `mlx5_init_cqes`: invalid opcode, owner bit set. -/
def mlx5InitCqes (nbCqes : ℕ) (cqes : ℕ → Cqe64) : ℕ → Cqe64 := fun i =>
  if i < nbCqes then { cqes i with opOwn := cqeInvalid <<< 4 ||| ownerMask } else cqes i

/-- A CQE of zeroed memory. -/
def zeroCqe : Cqe64 := ⟨0#16, 0#8, 0#8⟩

/-- A CQE of memory filled with `0xff`. -/
def onesCqe : Cqe64 := ⟨0xffff#16, 0xff#8, 0xff#8⟩

/-- `create_cq`. -/
def createCq (env : HostEnv) (ncqes : ℕ) : Option (ℕ → Cqe64) :=
  if ncqes * 64 ≤ calcCqExternalUmemSize env ncqes ∧ checkCqSize env ncqes = true then
    some (mlx5InitCqes ncqes fun _ => zeroCqe)
  else none

/-- `doca_verbs_cq_open::create` without an external umem. -/
def createInternal (env : HostEnv) (numCqes : ℕ) : Option (ℕ → Cqe64) :=
  if numCqes * 64 ≤ totalUmemSize numCqes ∧ checkCqSize env numCqes = true then
    some fun _ => zeroCqe
  else none

/-- The `cudaMemset` of the CQ ring in `doca_gpu_verbs_reset_tracking_and_memory`; its length is a
32-bit product. -/
def resetRing (cqeNum : ℕ) (ring : ℕ → Cqe64) : ℕ → Cqe64 := fun i =>
  if i * 64 + 64 ≤ cqeNum * 64 % 2 ^ 32 then onesCqe else ring i

/-- Where a ring comes from; a reset stores `cqe_rsvd` along with it. -/
inductive CqOrigin
  | createCq
  | createInternal
  | reset (cqeRsvd : ℕ)
deriving DecidableEq, Repr

/-- `cqe_rsvd`: zero on export. -/
def CqOrigin.cqeRsvd : CqOrigin → ℕ
  | .createCq => 0
  | .createInternal => 0
  | .reset cqeRsvd => cqeRsvd

/-- **The rings of `n` CQEs that the NIC has not written since they were filled.** A reset fills the
ring of a CQ that exists, whatever its sessions left there. -/
inductive CqImage (env : HostEnv) (n : ℕ) : CqOrigin → (ℕ → Cqe64) → Prop
  | createCq {ring} (h : createCq env n = some ring) : CqImage env n .createCq ring
  | createInternal {ring} (h : createInternal env n = some ring) :
      CqImage env n .createInternal ring
  | reset {o ring} (h : CqImage env n o ring) (left : ℕ → Cqe64) (cqeRsvd : ℕ) :
      CqImage env n (.reset cqeRsvd) (resetRing n left)

/-! ## The shape of a ring -/

theorem isPowerOfTwo_iff {x : ℕ} : isPowerOfTwo x = true ↔ ∃ b, x = 2 ^ b := by
  have hbit : ∀ b y, 2 ^ b ≤ y → y < 2 * 2 ^ b → y.testBit b = true := by
    intro b y hlo hhi
    have h1 : y / 2 ^ b = 1 := Nat.div_eq_of_lt_le (by omega) (by omega)
    simp [Nat.testBit_eq_decide_div_mod_eq, h1]
  simp only [isPowerOfTwo, Bool.and_eq_true, bne_iff_ne, beq_iff_eq]
  constructor
  · rintro ⟨hx, hand⟩
    refine ⟨Nat.log2 x, ?_⟩
    by_contra hne
    have hlo : 2 ^ Nat.log2 x ≤ x := Nat.log2_self_le hx
    have hhi : x < 2 * 2 ^ Nat.log2 x := by
      have := Nat.lt_log2_self (n := x)
      omega
    -- `x` and `x - 1` have their highest bit in common
    have h := congrArg (fun y => y.testBit (Nat.log2 x)) hand
    simp only [Nat.testBit_and, Nat.zero_testBit] at h
    rw [hbit _ x hlo hhi, hbit _ (x - 1) (by omega) (by omega)] at h
    exact absurd h (by decide)
  · rintro ⟨b, rfl⟩
    exact ⟨(Nat.two_pow_pos b).ne', by rw [slot_eq_mod, Nat.mod_self]⟩

theorem alignUpUint32_lt {v a : ℕ} (hv : v < 2 ^ 32) : alignUpUint32 v a < 2 ^ 32 := by
  unfold alignUpUint32
  split_ifs
  · exact hv
  · exact Nat.mod_lt _ (by decide)

theorem createCq_eq_some {env : HostEnv} {n : ℕ} {ring : ℕ → Cqe64}
    (h : createCq env n = some ring) :
    (∃ b, n = 2 ^ b) ∧ n * 64 < 2 ^ 32 ∧ ∀ i, i < n → ring i = ⟨0#16, 0#8, 0xf1#8⟩ := by
  unfold createCq at h
  split_ifs at h with hc
  obtain rfl := Option.some.inj h
  obtain ⟨hsize, hcheck⟩ := hc
  refine ⟨isPowerOfTwo_iff.mp (Bool.and_eq_true _ _ ▸ hcheck).1, ?_, fun i hi => ?_⟩
  · refine lt_of_le_of_lt hsize (alignUpUint32_lt ?_)
    split_ifs
    · exact Nat.mod_lt _ (by decide)
    · decide
  · simp [mlx5InitCqes, hi, zeroCqe, cqeInvalid, ownerMask]

theorem createInternal_eq_some {env : HostEnv} {n : ℕ} {ring : ℕ → Cqe64}
    (h : createInternal env n = some ring) :
    (∃ b, n = 2 ^ b) ∧ n * 64 < 2 ^ 32 ∧ ∀ i, ring i = zeroCqe := by
  unfold createInternal at h
  split_ifs at h with hc
  obtain rfl := Option.some.inj h
  obtain ⟨hsize, hcheck⟩ := hc
  refine ⟨isPowerOfTwo_iff.mp (Bool.and_eq_true _ _ ▸ hcheck).1, ?_, fun i => rfl⟩
  exact lt_of_le_of_lt hsize (alignUpUint32_lt (Nat.mod_lt _ (by decide)))

theorem resetRing_of_lt {n i : ℕ} {left : ℕ → Cqe64} (hn : n * 64 < 2 ^ 32) (hi : i < n) :
    resetRing n left i = onesCqe := by
  rw [resetRing, Nat.mod_eq_of_lt hn, if_pos (by omega)]

/-- What a slot of a ring not yet written holds. -/
def CqOrigin.cqe : CqOrigin → Cqe64
  | .createCq => ⟨0#16, 0#8, 0xf1#8⟩
  | .createInternal => zeroCqe
  | .reset _ => onesCqe

theorem CqImage.ring_eq {env : HostEnv} {n : ℕ} {o : CqOrigin} {ring : ℕ → Cqe64}
    (h : CqImage env n o ring) :
    (∃ b, n = 2 ^ b) ∧ n * 64 < 2 ^ 32 ∧ ∀ i, i < n → ring i = o.cqe := by
  induction h with
  | createCq h => exact createCq_eq_some h
  | createInternal h =>
    obtain ⟨hb, hn, hr⟩ := createInternal_eq_some h
    exact ⟨hb, hn, fun i _ => hr i⟩
  | reset _ _ _ ih => exact ⟨ih.1, ih.2.1, fun i hi => resetRing_of_lt ih.2.1 hi⟩

/-! ## Polling it -/

/-- When an unwritten ring looks unwritten to a poll for `consIndex`. -/
def CqOrigin.QuietAt (n : ℕ) (arch : Arch) (consIndex : ℕ) : CqOrigin → Prop
  | .createCq => True
  | .createInternal => n ≤ consIndex ∨ (arch = .preSm90 ∧ consIndex % 2 ^ 16 ≠ 0)
  | .reset cqeRsvd => n ≤ consIndex ∨ (consIndex + cqeRsvd) / n % 2 = 0 ∨
      (arch = .preSm90 ∧ consIndex % 2 ^ 16 ≠ 0xffff)

/-- Neither function reports a completion of `consIndex` on this ring, however long it waits. -/
def Quiet (arch : Arch) (cq : CqAttr) (ring : ℕ → Cqe64) (consIndex : ℕ) : Prop :=
  privPollOneCqAt arch cq consIndex 0 ring = eBusy ∧
    ∀ fuel, privPollCqAt arch cq consIndex 0 ring fuel = none

theorem cqeStatus_ne_eBusy (opown : BitVec 8) : cqeStatus opown ≠ eBusy := by
  unfold cqeStatus
  split_ifs <;> decide

/-- With `cqe_ci` at zero both functions come down to the completion test inside the window. -/
theorem quiet_iff_observed {arch : Arch} {cq : CqAttr} {b : ℕ} (hb : cq.cqeNum = 2 ^ b)
    (hfit : cq.cqeNum * 64 ≤ 2 ^ 32) (ring : ℕ → Cqe64) (k : ℕ) :
    Quiet arch cq ring k ↔ cq.cqeNum ≤ k ∨
      observedCompletion arch cq k (ring ((k + cq.cqeRsvd) % cq.cqeNum)) = false := by
  have hiter : pollAtIter arch cq k 0 ring = none ↔ cq.cqeNum ≤ k ∨
      observedCompletion arch cq k (ring ((k + cq.cqeRsvd) % cq.cqeNum)) = false := by
    simp only [pollAtIter, pollAtCi, pollAtCqe, cqIdx_eq hb, Nat.not_lt_zero, if_false,
      Option.none_or, Nat.zero_add, Nat.zero_le, true_and]
    split_ifs with h <;> simp [h]
  have hone : privPollOneCqAt arch cq k 0 ring = eBusy ↔ cq.cqeNum ≤ k ∨
      observedCompletion arch cq k (ring ((k + cq.cqeRsvd) % cq.cqeNum)) = false := by
    simp only [privPollOneCqAt, pollOneCi, pollOneCqe, pollOneSlot_eq hb hfit, Nat.not_lt_zero,
      if_false, Nat.zero_add]
    split_ifs with h1 h2 <;> simp_all [cqeStatus_ne_eBusy]
  refine ⟨fun h => hone.mp h.1, fun h => ⟨hone.mpr h, fun fuel => ?_⟩⟩
  cases fuel with
  | zero => rfl
  | succ fuel => rw [privPollCqAt_succ, hiter.mpr h]

/-- **A ring that the NIC has not written since it was filled reports no completion of `consIndex`
exactly when `QuietAt` holds**: always on a ring from `create_cq`; on the zeroed ring of an internal
umem the owner bit already matches the first lap; on a reset ring the owner bit is set, and matches
whenever the index falls into an odd lap of the running count. -/
theorem quiet_iff {env : HostEnv} {n : ℕ} {o : CqOrigin} {ring : ℕ → Cqe64}
    (h : CqImage env n o ring) (arch : Arch) (consIndex : ℕ) :
    Quiet arch ⟨n, o.cqeRsvd⟩ ring consIndex ↔ o.QuietAt n arch consIndex := by
  obtain ⟨⟨b, hb⟩, hfit, hring⟩ := h.ring_eq
  have hn : 0 < n := hb ▸ Nat.two_pow_pos b
  have hb' : (CqAttr.mk n o.cqeRsvd).cqeNum = 2 ^ b := hb
  rw [quiet_iff_observed hb' hfit.le, hring _ (Nat.mod_lt _ hn), ← Bool.not_eq_true,
    observedCompletion_iff arch hb']
  have hlap : consIndex < n → consIndex / n = 0 := Nat.div_eq_of_lt
  cases o with
  | createCq =>
    simp only [CqOrigin.QuietAt, iff_true, CqOrigin.cqe, CqOrigin.cqeRsvd, Nat.add_zero]
    by_cases hk : consIndex < n
    · exact .inr fun hc => absurd hc.1 (by simp [hlap hk, Cqe64.owner, ownerMask])
    · exact .inl (by omega)
  | createInternal =>
    simp only [CqOrigin.QuietAt, CqOrigin.cqe, CqOrigin.cqeRsvd, Nat.add_zero]
    by_cases hk : consIndex < n
    · cases arch <;>
        simp [hlap hk, zeroCqe, Cqe64.owner, hk.not_ge, ← BitVec.toNat_inj, eq_comm]
    · exact ⟨fun _ => .inl (by omega), fun _ => .inl (by omega)⟩
  | reset cqeRsvd =>
    simp only [CqOrigin.QuietAt, CqOrigin.cqe, CqOrigin.cqeRsvd]
    have hparity := Nat.mod_two_eq_zero_or_one ((consIndex + cqeRsvd) / n)
    rcases hparity with hp | hp <;> cases arch <;>
      simp [hp, onesCqe, Cqe64.owner, ownerMask, ← BitVec.toNat_inj, eq_comm]

theorem createInternal_four :
    CqImage ⟨4096, 4194303⟩ 4 .createInternal (fun _ => zeroCqe) :=
  .createInternal (if_pos (by decide))

theorem quiet_iff_reset_four :
    Quiet .sm90 ⟨4, 4⟩ (resetRing 4 fun _ => zeroCqe) 0 ↔ (CqOrigin.reset 4).QuietAt 4 .sm90 0 :=
  quiet_iff (.reset createInternal_four _ 4) .sm90 0

/-- A zeroed ring, and a ring of four reset after four completions, report entry `0` at once. -/
theorem unwritten_ring_reports :
    (CqImage ⟨4096, 4194303⟩ 4 .createInternal (fun _ => zeroCqe) ∧
      (∀ arch, privPollOneCqAt arch ⟨4, 0⟩ 0 0 (fun _ => zeroCqe) = 0) ∧
      ∀ arch, ¬ Quiet arch ⟨4, 0⟩ (fun _ => zeroCqe) 0) ∧
    (CqImage ⟨4096, 4194303⟩ 4 (.reset 4) (resetRing 4 fun _ => zeroCqe) ∧
      privPollOneCqAt .sm90 ⟨4, 4⟩ 0 0 (resetRing 4 fun _ => zeroCqe) = 0 ∧
      privPollCqAt .sm90 ⟨4, 4⟩ 0 0 (resetRing 4 fun _ => zeroCqe) 1 = some 0 ∧
      ¬ Quiet .sm90 ⟨4, 4⟩ (resetRing 4 fun _ => zeroCqe) 0) := by
  refine ⟨⟨createInternal_four, ?_, fun arch h => ?_⟩, .reset createInternal_four _ 4, ?_, ?_,
    fun h => ?_⟩
  · rintro (_ | _) <;> decide
  · exact absurd (h.2 1) (by cases arch <;> decide)
  · decide
  · decide
  · exact absurd (h.2 1) (by decide)

end Gpunetio
