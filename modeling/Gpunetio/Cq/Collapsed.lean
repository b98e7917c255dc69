import Gpunetio.Cq.Poll
import Gpunetio.Lib.Serial
import Gpunetio.Lib.Transition

/-!
# The collapsed completion queue

A collapsed CQ has one CQE, which the NIC overwrites at every completion with the 16-bit index of
the WQE it completed. `poll_cq_collapsed_at` waits until the doorbelled producer index has reached
the index polled for, then compares the truncated indices, and rebuilds the consumer index from
them.

* `collapsedCqe`: one look at the CQE, `none` when the loop goes on;
* `CollapsedPhase`, `Collapsed.Step`, `Collapsed.Inv`: any number of pollers, a producer that keeps
  at most `cqe_num` WQEs outstanding, and the NIC;
* `collapsedCqe_spec`: the look in terms of the completed count the CQE stands for;
* **`collapsed_sound_iff`**: when a return of `0` means what it means for `poll_cq_at`.
-/

namespace Gpunetio

open Transition Serial

/-- The loop condition of `doca_priv_gpu_dev_verbs_poll_cq_collapsed_at`. -/
def collapsedSpins (cqeNum consIndex cqeCi : ℕ) (e : Cqe64) : Bool :=
  opcode (loadOpown .preSm90 e) == cqeInvalid ||
    (cqeCi ≤ consIndex &&
      (BitVec.ofNat 16 consIndex - loadCounter e - 2#16).toNat < cqeNum)

/-- `*new_cqe_ci`. -/
def newCqeCi (consIndex : ℕ) (wqeCounter : BitVec 16) : ℕ :=
  (consIndex >>> 16 <<< 16 ||| wqeCounter.toNat) +
    if wqeCounter.toNat < (BitVec.ofNat 16 consIndex).toNat then 0x10000 else 0

/-- One look at the CQE: the status and `*new_cqe_ci`, if the loop ends. -/
def collapsedCqe (cqeNum consIndex cqeCi : ℕ) (e : Cqe64) : Option (ℤ × ℕ) :=
  if collapsedSpins cqeNum consIndex cqeCi e then none
  else some (cqeStatus (loadOpown .preSm90 e), newCqeCi consIndex (loadCounter e + 1#16))

/-- Where a call of `doca_gpu_dev_verbs_poll_cq_collapsed_at` stands: about to load `sq_wqe_pi`,
`cqe_ci` or the CQE, or about to raise `cqe_ci`. -/
inductive CollapsedPhase
  | guard (consIndex : ℕ)
  | ci (consIndex : ℕ)
  | cqe (consIndex cqeCi : ℕ)
  | atomicMax (consIndex newCqeCi : ℕ)
deriving DecidableEq, Repr

/-- A collapsed CQ and its pollers; `completed` counts the WQEs the NIC has completed. -/
structure Collapsed (A : Type*) where
  sqWqePi : ℕ
  cqeCi : ℕ
  cqe : Cqe64
  completed : ℕ
  poll : A → Option CollapsedPhase

namespace Collapsed

variable {A : Type*}

/-- The next access of a poller, `none` when the call returns. -/
def next (cqeNum : ℕ) (s : Collapsed A) : CollapsedPhase → Option CollapsedPhase
  | .guard k => if s.sqWqePi < k then some (.guard k) else some (.ci k)
  | .ci k => if k < s.cqeCi then some (.atomicMax k 0) else some (.cqe k s.cqeCi)
  | .cqe k c =>
    match collapsedCqe cqeNum k c s.cqe with
    | none => some (.ci k)
    | some (st, new) => if st = 0 then some (.atomicMax k new) else none
  | .atomicMax _ _ => none

/-- The new `cqe_ci`. -/
def raised (s : Collapsed A) : CollapsedPhase → ℕ
  | .atomicMax _ new => max s.cqeCi new
  | _ => s.cqeCi

/-- A fresh collapsed CQ. -/
structure Init (s : Collapsed A) : Prop where
  sqWqePi : s.sqWqePi = 0
  cqeCi : s.cqeCi = 0
  completed : s.completed = 0
  cqe : opcode s.cqe.opOwn = cqeInvalid
  poll : ∀ a, s.poll a = none

variable [DecidableEq A]

/-- **One step**: a call begins, a poller makes an access, the producer submits up to `p`, the NIC
completes the next WQE. -/
inductive Step (cqeNum : ℕ) : Collapsed A → Collapsed A → Prop
  | call {s} (a : A) (consIndex : ℕ) (h : s.poll a = none) :
      Step cqeNum s { s with poll := Function.update s.poll a (some (.guard consIndex)) }
  | poll {s} (a : A) {ph} (h : s.poll a = some ph) :
      Step cqeNum s
        { s with cqeCi := s.raised ph, poll := Function.update s.poll a (s.next cqeNum ph) }
  | submit {s} (p : ℕ) (h : s.sqWqePi ≤ p) (hp : p ≤ s.completed + cqeNum) :
      Step cqeNum s { s with sqWqePi := p }
  | complete {s} (e : Cqe64) (h : s.completed < s.sqWqePi)
      (hc : e.wqeCounter = BitVec.ofNat 16 s.completed) (ho : opcode e.opOwn ≠ cqeInvalid) :
      Step cqeNum s { s with cqe := e, completed := s.completed + 1 }

end Collapsed

/-! ## One look at the CQE -/

theorem newCqeCi_eq (k : ℕ) (w : BitVec 16) : newCqeCi k w = nextAt (2 ^ 16) k w.toNat := by
  have hor : k >>> 16 <<< 16 ||| w.toNat = k / 2 ^ 16 * 2 ^ 16 + w.toNat := by
    rw [← Nat.shiftLeft_add_eq_or_of_lt w.isLt, Nat.shiftRight_eq_div_pow, Nat.shiftLeft_eq]
  rw [newCqeCi, hor, BitVec.toNat_ofNat, nextAt]
  rfl

/-- The distance the loop tests, for a CQE of the WQE before `C`. -/
theorem gap_of_le {k C : ℕ} (hC : 0 < C) (h : k ≤ C) :
    (BitVec.ofNat 16 k - BitVec.ofNat 16 (C - 1) - 2#16).toNat = 65535 - (C - k) % 2 ^ 16 := by
  simp only [BitVec.toNat_sub, BitVec.toNat_ofNat]
  omega

theorem gap_of_gt {k C : ℕ} (hC : 0 < C) (h : C < k) :
    (BitVec.ofNat 16 k - BitVec.ofNat 16 (C - 1) - 2#16).toNat = (k - C - 1) % 2 ^ 16 := by
  simp only [BitVec.toNat_sub, BitVec.toNat_ofNat]
  omega

/-- **A look at the CQE of the `C`-th completion** by a poller for an index at most `n` past it. -/
theorem collapsedCqe_spec {n k c C : ℕ} {e : Cqe64} (hC : 0 < C)
    (he : e.wqeCounter = BitVec.ofNat 16 (C - 1)) (ho : opcode e.opOwn ≠ cqeInvalid)
    (hck : c ≤ k) (hk : k ≤ C + n) :
    collapsedCqe n k c e =
      if k ≤ C ∧ n + (C - k) % 2 ^ 16 < 2 ^ 16 then
        some (cqeStatus e.opOwn, k + (C - k) % 2 ^ 16)
      else none := by
  have hone : (BitVec.ofNat 16 (C - 1) + 1#16).toNat = C % 2 ^ 16 := by
    simp only [BitVec.toNat_add, BitVec.toNat_ofNat]
    omega
  simp only [collapsedCqe, collapsedSpins, loadOpown_eq, loadCounter_eq, he, newCqeCi_eq, hone,
    beq_eq_false_iff_ne.mpr ho, Bool.false_or, decide_eq_true hck, Bool.true_and]
  rcases Nat.lt_or_ge C k with hlt | hge
  · have := Nat.mod_le (k - C - 1) (2 ^ 16)
    rw [gap_of_gt hC hlt, if_pos (decide_eq_true (by omega)), if_neg (by omega)]
  · have := Nat.mod_lt (C - k) (show 0 < 2 ^ 16 by decide)
    rw [gap_of_le hC hge, nextAt_mod_eq (by decide) hge]
    by_cases hx : n + (C - k) % 2 ^ 16 < 2 ^ 16
    · rw [if_neg (by simp only [decide_eq_true_eq]; omega), if_pos ⟨hge, hx⟩]
    · rw [if_pos (decide_eq_true (by omega)), if_neg (fun h => hx h.2)]

/-! ## Runs -/

namespace Collapsed

variable {A : Type*}

/-- What a poller knows between two accesses. -/
def PhaseOk (s : Collapsed A) : CollapsedPhase → Prop
  | .guard _ => True
  | .ci k => k ≤ s.sqWqePi
  | .cqe k c => k ≤ s.sqWqePi ∧ c ≤ k ∧ c ≤ s.cqeCi
  | .atomicMax _ new => new ≤ s.completed

/-- The invariant: `cqe_ci` never passes the completed count, although single calls return early. -/
structure Inv (n : ℕ) (s : Collapsed A) : Prop where
  completed_le : s.completed ≤ s.sqWqePi
  outstanding : s.sqWqePi ≤ s.completed + n
  ci_le : s.cqeCi ≤ s.completed
  blank : s.completed = 0 → opcode s.cqe.opOwn = cqeInvalid
  last : 0 < s.completed →
    s.cqe.wqeCounter = BitVec.ofNat 16 (s.completed - 1) ∧ opcode s.cqe.opOwn ≠ cqeInvalid
  poll : ∀ a ph, s.poll a = some ph → s.PhaseOk ph

theorem Init.inv {n : ℕ} {s : Collapsed A} (h : Init s) : s.Inv n := by
  have h₁ := h.sqWqePi
  have h₂ := h.cqeCi
  have h₃ := h.completed
  exact ⟨by omega, by omega, by omega, fun _ => h.cqe, fun hc => by omega,
    fun a ph hp => by simp [h.poll a] at hp⟩

theorem collapsedCqe_zero {n k c : ℕ} {e : Cqe64} (h : opcode e.opOwn = cqeInvalid) :
    collapsedCqe n k c e = none := by
  simp [collapsedCqe, collapsedSpins, h]

/-- What a look at the CQE gives in a state of a run. -/
theorem Inv.cqe_eq {n k c : ℕ} {s : Collapsed A} (h : s.Inv n) (hok : s.PhaseOk (.cqe k c)) :
    collapsedCqe n k c s.cqe =
      if 0 < s.completed ∧ k ≤ s.completed ∧ n + (s.completed - k) % 2 ^ 16 < 2 ^ 16 then
        some (cqeStatus s.cqe.opOwn, k + (s.completed - k) % 2 ^ 16)
      else none := by
  obtain ⟨hpi, hck, -⟩ := hok
  rcases Nat.eq_zero_or_pos s.completed with hz | hpos
  · rw [collapsedCqe_zero (h.blank hz), if_neg (by omega)]
  · rw [collapsedCqe_spec hpos (h.last hpos).1 (h.last hpos).2 hck (hpi.trans h.outstanding)]
    simp only [hpos, true_and]

theorem PhaseOk.mono {s s' : Collapsed A} {ph : CollapsedPhase} (h : s.PhaseOk ph)
    (hpi : s.sqWqePi ≤ s'.sqWqePi) (hci : s.cqeCi ≤ s'.cqeCi) (hc : s.completed ≤ s'.completed) :
    s'.PhaseOk ph := by
  cases ph with
  | guard k => trivial
  | ci k => exact h.trans hpi
  | cqe k c => exact ⟨h.1.trans hpi, h.2.1, h.2.2.trans hci⟩
  | atomicMax k new => exact h.trans hc

theorem Inv.next_ok {n : ℕ} {s : Collapsed A} (h : s.Inv n) {ph ph' : CollapsedPhase}
    (hok : s.PhaseOk ph) (hn : s.next n ph = some ph') : s.PhaseOk ph' := by
  cases ph with
  | guard k =>
    rw [next] at hn
    split_ifs at hn with hk <;> obtain rfl := Option.some.inj hn
    · trivial
    · exact not_lt.mp hk
  | ci k =>
    rw [next] at hn
    split_ifs at hn with hk <;> obtain rfl := Option.some.inj hn
    · exact Nat.zero_le _
    · exact ⟨hok, not_lt.mp hk, le_rfl⟩
  | cqe k c =>
    rw [next, h.cqe_eq hok] at hn
    split_ifs at hn with hx
    · have := Nat.mod_le (s.completed - k) (2 ^ 16)
      dsimp only at hn
      split_ifs at hn
      obtain rfl := Option.some.inj hn
      show k + (s.completed - k) % 2 ^ 16 ≤ s.completed
      omega
    · obtain rfl := Option.some.inj hn
      exact hok.1
  | atomicMax k new => cases hn

theorem Inv.raised_le {n : ℕ} {s : Collapsed A} (h : s.Inv n) {ph : CollapsedPhase}
    (hok : s.PhaseOk ph) : s.cqeCi ≤ s.raised ph ∧ s.raised ph ≤ s.completed := by
  cases ph with
  | atomicMax k new => exact ⟨le_max_left _ _, max_le h.ci_le hok⟩
  | _ => exact ⟨le_rfl, h.ci_le⟩

theorem Inv.step [DecidableEq A] {n : ℕ} {s s' : Collapsed A} (h : s.Inv n) (hs : Step n s s') :
    s'.Inv n := by
  cases hs with
  | call a k ha =>
    refine ⟨h.completed_le, h.outstanding, h.ci_le, h.blank, h.last, fun a' ph' hp => ?_⟩
    obtain ⟨rfl, hp'⟩ | ⟨-, hp⟩ := update_eq_some.1 hp
    · obtain rfl := Option.some.inj hp'
      trivial
    · exact (h.poll a' ph' hp).mono le_rfl le_rfl le_rfl
  | @poll a ph ha =>
    obtain ⟨hlo, hhi⟩ := h.raised_le (h.poll a ph ha)
    refine ⟨h.completed_le, h.outstanding, hhi, h.blank, h.last, fun a' ph' hp => ?_⟩
    obtain ⟨rfl, hp'⟩ | ⟨-, hp⟩ := update_eq_some.1 hp
    · exact (h.next_ok (h.poll a' ph ha) hp').mono le_rfl hlo le_rfl
    · exact (h.poll a' ph' hp).mono le_rfl hlo le_rfl
  | submit p hpi hp =>
    exact ⟨h.completed_le.trans hpi, hp, h.ci_le, h.blank, h.last,
      fun a ph ha => (h.poll a ph ha).mono hpi le_rfl le_rfl⟩
  | complete e hlt hc ho =>
    have := h.outstanding
    refine ⟨hlt, ?_, h.ci_le.trans (Nat.le_succ _), fun hz => by simp at hz, fun _ => ⟨hc, ho⟩,
      fun a ph ha => (h.poll a ph ha).mono le_rfl le_rfl (Nat.le_succ _)⟩
    show s.sqWqePi ≤ s.completed + 1 + n
    omega

theorem reachable_inv [DecidableEq A] {n : ℕ} {s : Collapsed A}
    (h : Reachable Init (Step n) s) : s.Inv n :=
  h.invariant (fun _ => Init.inv) fun _ _ => Inv.step

/-! ## What a return means -/

/-- The looks at the CQE that end as `poll_cq_at` would, or do not end. The test treats the index
polled for as one past the WQE meant, so that it ends at `completed = k`, unless the ring is so long
that the 16-bit test never holds. -/
def LookOk (n : ℕ) (s : Collapsed A) (k : ℕ) : Prop :=
  s.completed = 0 ∨ opcode s.cqe.opOwn = cqeReqErr ∨ s.completed < k ∨
    2 ^ 16 ≤ n + (s.completed - k) % 2 ^ 16 ∨ (k < s.completed ∧ s.completed - k < 2 ^ 16)

theorem cqeStatus_eq_zero {opown : BitVec 8} : cqeStatus opown = 0 ↔ opcode opown ≠ cqeReqErr := by
  unfold cqeStatus
  split_ifs with h
  · simp [h, eIo]
  · simp [h]

theorem Inv.look_iff {n k c : ℕ} {s : Collapsed A} (h : s.Inv n) (hok : s.PhaseOk (.cqe k c)) :
    (∀ new, collapsedCqe n k c s.cqe = some (0, new) → k < s.completed ∧ new = s.completed) ↔
      s.LookOk n k := by
  have hlt := Nat.mod_lt (s.completed - k) (show 0 < 2 ^ 16 by decide)
  rw [h.cqe_eq hok, LookOk]
  by_cases hx : 0 < s.completed ∧ k ≤ s.completed ∧ n + (s.completed - k) % 2 ^ 16 < 2 ^ 16
  · obtain ⟨hpos, hle, hwin⟩ := hx
    simp only [if_pos (And.intro hpos (And.intro hle hwin)), Option.some.injEq, Prod.mk.injEq,
      cqeStatus_eq_zero]
    by_cases herr : opcode s.cqe.opOwn = cqeReqErr
    · simp [herr]
    · constructor
      · intro hall
        obtain ⟨hk, hnew⟩ := hall _ ⟨herr, rfl⟩
        exact .inr (.inr (.inr (.inr ⟨hk, by omega⟩)))
      · rintro hcond new ⟨-, rfl⟩
        have hk : k < s.completed ∧ s.completed - k < 2 ^ 16 := by
          rcases hcond with hc | hc | hc | hc | hc
          · omega
          · exact absurd hc herr
          · omega
          · omega
          · exact hc
        rw [Nat.mod_eq_of_lt hk.2]
        exact ⟨hk.1, by omega⟩
  · rw [if_neg hx]
    refine ⟨fun _ => ?_, fun _ new hnew => by cases hnew⟩
    rcases Nat.eq_zero_or_pos s.completed with hz | hpos
    · exact .inl hz
    · rcases Nat.lt_or_ge s.completed k with hlt | hge
      · exact .inr (.inr (.inl hlt))
      · exact .inr (.inr (.inr (.inl (not_lt.mp fun hc => hx ⟨hpos, hge, hc⟩))))

/-- **When a return of `0` means completion.** In every reachable state, a poller that leaves on
`cqe_ci` alone leaves for a completed WQE; one that looks at the CQE returns `0` only for a
completed WQE, and installs the completed count, exactly when `LookOk` holds. -/
theorem collapsed_sound_iff [DecidableEq A] {n : ℕ} {s : Collapsed A}
    (h : Reachable Init (Step n) s) :
    (∀ a k, s.poll a = some (.ci k) → k < s.cqeCi → k < s.completed) ∧
    ∀ a k c, s.poll a = some (.cqe k c) →
      ((∀ new, collapsedCqe n k c s.cqe = some (0, new) →
        k < s.completed ∧ new = s.completed) ↔ s.LookOk n k) := by
  have hinv := reachable_inv h
  exact ⟨fun a k _ hk => lt_of_lt_of_le hk hinv.ci_le,
    fun a k c ha => hinv.look_iff (hinv.poll a _ ha)⟩

/-- One WQE completed on a CQ of four, and one poller. -/
def oneCompleted (ph : Option CollapsedPhase) : Collapsed Unit :=
  ⟨1, 0, ⟨0#16, 0#8, 0#8⟩, 1, fun _ => ph⟩

theorem reachable_oneCompleted {k : ℕ} (hk : k ≤ 1) :
    Reachable Init (Step 4) (oneCompleted (some (.cqe k 0))) := by
  have hupd : ∀ (f : Unit → Option CollapsedPhase) v, Function.update f () v = fun _ => v :=
    fun f v => funext fun _ => Function.update_self ..
  have hinit : Reachable Init (Step 4)
      (⟨0, 0, ⟨0#16, 0#8, 0xf1#8⟩, 0, fun _ => none⟩ : Collapsed Unit) :=
    .start ⟨rfl, rfl, rfl, by decide, fun _ => rfl⟩
  have hsubmit : Reachable Init (Step 4) (⟨1, 0, ⟨0#16, 0#8, 0xf1#8⟩, 0, fun _ => none⟩) :=
    hinit.next (.submit 1 (by decide) (by decide))
  have hcomplete : Reachable Init (Step 4) (oneCompleted none) :=
    hsubmit.next (.complete ⟨0#16, 0#8, 0#8⟩ (by decide) rfl (by decide))
  have hcall : Reachable Init (Step 4) (oneCompleted (some (.guard k))) := by
    have := hcomplete.next (.call () k rfl)
    rwa [hupd] at this
  have hguard : Reachable Init (Step 4) (oneCompleted (some (.ci k))) := by
    have := hcall.next (.poll () rfl)
    rwa [hupd, next, if_neg (show ¬ (oneCompleted _).sqWqePi < k from not_lt.mpr hk)] at this
  have := hguard.next (.poll () rfl)
  rwa [hupd, next, if_neg (show ¬ k < (oneCompleted _).cqeCi from Nat.not_lt_zero k)] at this

theorem oneCompleted_sound_iff :
    (∀ new, collapsedCqe 4 0 0 (oneCompleted (some (.cqe 0 0))).cqe = some (0, new) →
      0 < 1 ∧ new = 1) ↔ (oneCompleted (some (.cqe 0 0))).LookOk 4 0 :=
  (collapsed_sound_iff (reachable_oneCompleted (by decide))).2 () 0 0 rfl

/-- After the completion of WQE `0` alone a poll for WQE `1` returns `0` and installs `1`. -/
theorem collapsed_returns_early :
    Reachable Init (Step 4) (oneCompleted (some (.cqe 1 0))) ∧
      collapsedCqe 4 1 0 (oneCompleted (some (.cqe 1 0))).cqe = some (0, 1) ∧
      ¬ 1 < (oneCompleted (some (.cqe 1 0))).completed :=
  ⟨reachable_oneCompleted (by decide), by decide, by decide⟩

end Collapsed

end Gpunetio
