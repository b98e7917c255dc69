import Gpunetio.Cq.Collapsed
import Gpunetio.Cq.Session
import Gpunetio.Lib.Trace

/-!
# The consumer index of a completion queue

All that writes `cqe_ci` within one session: the two polls, `poll_cq`, the poll of a collapsed CQ
and `cq_update_dbrec`, called by any number of threads in any order, each an access at a time. A
session begins with the ring filled by `create_cq` or by a reset, at an index of the NIC that
`cqe_rsvd` is to name. The polls only raise `cqe_ci`; `cq_update_dbrec` loads it, adds to it in 24
bits and stores the sum, whatever `cqe_ci` is by then.

* `updatedCqeCi`: the index `cq_update_dbrec` computes;
* `CqConf`, `CqUse`, `CqUse.step`: a session of a CQ, of either kind, as a function of its events;
* `CqUse.Right`: the step does not lower `cqe_ci` or raise it above the completed count;
* `CqUse.Meets`: the poll is of the CQ's kind, a blank entry does not pass for a completion, and the
  sum `cq_update_dbrec` is to store fits and has not been overtaken;
* `CqUse.Inv.step`; **`cqeCi_grows`**: runs whose steps all meet the condition.
-/

namespace Gpunetio

open LapRing Transition Trace

/-! ## `cq_update_dbrec` -/

/-- `DOCA_GPUNETIO_VERBS_CQE_CI_MASK`. -/
def cqeCiMask : BitVec 32 := 0xffffff#32

/-- The index `doca_gpu_dev_verbs_cq_update_dbrec` computes and returns; `cqe_ci` is loaded into 32
bits. -/
def updatedCqeCi (cqeCi : ℕ) (cqeNum : BitVec 32) : BitVec 32 :=
  (BitVec.ofNat 32 cqeCi + cqeNum) &&& cqeCiMask

theorem toNat_updatedCqeCi (cqeCi : ℕ) (cqeNum : BitVec 32) :
    (updatedCqeCi cqeCi cqeNum).toNat = (cqeCi + cqeNum.toNat) % 2 ^ 24 := by
  have hand : (updatedCqeCi cqeCi cqeNum).toNat =
      ((cqeCi % 2 ^ 32 + cqeNum.toNat) % 2 ^ 32) % 2 ^ 24 := by
    unfold updatedCqeCi cqeCiMask
    rw [BitVec.toNat_and, BitVec.toNat_add, BitVec.toNat_ofNat]
    exact Nat.and_two_pow_sub_one_eq_mod _ 24
  omega

/-- The sum comes out right if it fits 24 bits. -/
theorem toNat_updatedCqeCi_of_lt {cqeCi : ℕ} {cqeNum : BitVec 32}
    (h : cqeCi + cqeNum.toNat % 2 ^ 24 < 2 ^ 24) :
    (updatedCqeCi cqeCi cqeNum).toNat = cqeCi + cqeNum.toNat % 2 ^ 24 := by
  rw [toNat_updatedCqeCi]
  omega

/-! ## A session -/

/-- What is fixed in a session: the CQ, the CQEs the NIC has written before and what every entry
holds when the session begins. -/
structure CqConf where
  arch : Arch
  attr : CqAttr
  collapsed : Bool
  earlier : ℕ
  fill : Cqe64

/-- The calls that write `cqe_ci`. -/
inductive CqOp
  | poll (fn : PollFn) (consIndex : ℕ)
  | pollCq (count : BitVec 32)
  | pollCollapsed (consIndex : ℕ)
  | updateDbrec (isOverrun : Bool) (cqeNum : BitVec 32)
deriving DecidableEq, Repr

/-- Where a call stands: before an access of a poll, before the load of `poll_cq`, or before one of
the stores of `cq_update_dbrec`, which has loaded `cqeCi`. -/
inductive CqPhase
  | poll (fn : PollFn) (ph : PollPhase)
  | count (count : BitVec 32)
  | collapsed (ph : CollapsedPhase)
  | dbrec (cqeCi : ℕ) (cqeNum : BitVec 32)
  | store (cqeCi : ℕ) (cqeNum : BitVec 32)
deriving DecidableEq, Repr

/-- A CQ in use; `cq.produced` counts the CQEs of the session. -/
structure CqUse (A : Type*) where
  cq : CqState
  sqWqePi : ℕ
  dbrec : BitVec 32
  call : A → Option CqPhase

/-- What happens: a call begins or makes its next access, the producer submits up to `p`, the NIC
writes its next CQE. -/
inductive CqEvent (A : Type*)
  | call (a : A) (op : CqOp)
  | access (a : A)
  | submit (p : ℕ)
  | complete (e : Cqe64)

namespace CqUse

variable {A : Type*}

/-- The memory as the poll of a collapsed CQ sees it. -/
def view (s : CqUse A) : Collapsed A where
  sqWqePi := s.sqWqePi
  cqeCi := s.cq.cqeCi
  cqe := s.cq.ring 0
  completed := s.cq.produced
  poll := fun _ => none

/-- The start of a call. `cq_update_dbrec` begins with its load of `cqe_ci`, and is called only for
CQEs that have completed. -/
def start (s : CqUse A) : CqOp → Option CqPhase
  | .poll fn consIndex => some (.poll fn (.ci consIndex))
  | .pollCq count => if count = 0#32 then none else some (.count count)
  | .pollCollapsed consIndex => some (.collapsed (.guard consIndex))
  | .updateDbrec isOverrun cqeNum =>
    if s.cq.cqeCi + cqeNum.toNat ≤ s.cq.produced then
      if isOverrun then some (.store s.cq.cqeCi cqeNum) else some (.dbrec s.cq.cqeCi cqeNum)
    else none

/-- What an access leaves in memory. -/
def effect (s : CqUse A) : CqPhase → CqUse A
  | .poll _ ph => { s with cq := ph.effect s.cq }
  | .count _ => s
  | .collapsed ph => { s with cq := { s.cq with cqeCi := s.view.raised ph } }
  | .dbrec cqeCi cqeNum => { s with dbrec := bswap32 (updatedCqeCi cqeCi cqeNum) }
  | .store cqeCi cqeNum =>
    { s with cq := { s.cq with cqeCi := (updatedCqeCi cqeCi cqeNum).toNat } }

/-- The next access of the call, if it does not return. -/
def next (conf : CqConf) (s : CqUse A) : CqPhase → Option CqPhase
  | .poll fn ph =>
    match fn.next conf.arch conf.attr s.cq ph with
    | .goto ph' => some (.poll fn ph')
    | .ret _ => none
  | .count count => some (.poll .at (.ci (s.cq.cqeCi + count.toNat - 1)))
  | .collapsed ph => (s.view.next conf.attr.cqeNum ph).map .collapsed
  | .dbrec cqeCi cqeNum => some (.store cqeCi cqeNum)
  | .store _ _ => none

/-- The NIC writes a CQE into a slot. -/
def write (s : CqUse A) (slot : ℕ) (e : Cqe64) : CqUse A :=
  { s with
    cq := { s.cq with ring := Function.update s.cq.ring slot e, produced := s.cq.produced + 1 } }

variable [DecidableEq A]

/-- **One step of a session**; an event that is not possible changes nothing. The NIC stays within a
ring of `cqe_ci`, and the producer of a collapsed CQ within a ring of the NIC. -/
def step (conf : CqConf) (s : CqUse A) : CqEvent A → CqUse A
  | .call a op =>
    match s.call a with
    | some _ => s
    | none => { s with call := Function.update s.call a (s.start op) }
  | .access a =>
    match s.call a with
    | none => s
    | some ph => { s.effect ph with call := Function.update s.call a (s.next conf ph) }
  | .submit p =>
    if s.sqWqePi ≤ p ∧ p ≤ s.cq.produced + conf.attr.cqeNum then { s with sqWqePi := p } else s
  | .complete e =>
    if conf.collapsed then
      if s.cq.produced < s.sqWqePi ∧ e.wqeCounter = BitVec.ofNat 16 s.cq.produced ∧
          opcode e.opOwn ≠ cqeInvalid then
        s.write 0 e
      else s
    else if s.cq.produced < s.cq.cqeCi + conf.attr.cqeNum ∧
        e.owner = lapBit conf.attr.cqeNum (conf.earlier + s.cq.produced) ∧
        e.wqeCounter = BitVec.ofNat 16 s.cq.produced then
      s.write ((conf.earlier + s.cq.produced) % conf.attr.cqeNum) e
    else s

/-- The beginning of a session. -/
structure Init (conf : CqConf) (s : CqUse A) : Prop where
  geom : CqGeom conf.attr.cqeNum
  ring : ∀ i, i < conf.attr.cqeNum → s.cq.ring i = conf.fill
  fill : opcode conf.fill.opOwn = cqeInvalid
  cqeCi : s.cq.cqeCi = 0
  produced : s.cq.produced = 0
  sqWqePi : s.sqWqePi = 0
  call : ∀ a, s.call a = none

/-- The step does not lower `cqe_ci` or raise it above the completed count. -/
def Right (conf : CqConf) (s : CqUse A) (e : CqEvent A) : Prop :=
  s.cq.cqeCi ≤ (step conf s e).cq.cqeCi ∧
    (step conf s e).cq.cqeCi ≤ (step conf s e).cq.produced

end CqUse

/-! ## The condition -/

/-- The call is one for a CQ of this kind. -/
def CqOp.fits (collapsed : Bool) : CqOp → Bool
  | poll _ _ => !collapsed
  | pollCq _ => !collapsed
  | pollCollapsed _ => collapsed
  | updateDbrec _ _ => true

/-- The test on an entry not yet written fails: `cqe_rsvd` names the NIC's index up to two laps, and
before the first lap of the session the test fails on what fills the ring. -/
def CqConf.ReadsPending (conf : CqConf) (k : ℕ) : Prop :=
  conf.attr.cqeRsvd % (conf.attr.cqeNum * 2) = conf.earlier % (conf.attr.cqeNum * 2) ∧
    (k < conf.attr.cqeNum → observedCompletion conf.arch conf.attr k conf.fill = false)

/-- What an access asks of the state before it. -/
def CqPhase.Safe {A : Type*} (conf : CqConf) (s : CqUse A) : CqPhase → Prop
  | poll _ (.cqe k c) => s.cq.produced ≤ k → k < c + conf.attr.cqeNum → conf.ReadsPending k
  | store cqeCi cqeNum =>
    cqeCi + cqeNum.toNat % 2 ^ 24 < 2 ^ 24 ∧ s.cq.cqeCi ≤ cqeCi + cqeNum.toNat % 2 ^ 24
  | _ => True

/-- The condition on a step. -/
def CqUse.Meets {A : Type*} (conf : CqConf) (s : CqUse A) : CqEvent A → Prop
  | .call _ op => op.fits conf.collapsed = true
  | .access a => ∀ ph, s.call a = some ph → ph.Safe conf s
  | _ => True

/-! ## The ring -/

/-- Indices that agree up to two laps have the same slot and the same lap parity. -/
theorem lap_congr {n a b : ℕ} (h : a % (n * 2) = b % (n * 2)) (k : ℕ) :
    lapBit n (k + a) = lapBit n (k + b) ∧ (k + a) % n = (k + b) % n := by
  have hadd : (k + a) % (n * 2) = (k + b) % (n * 2) := Nat.ModEq.add_left k h
  refine ⟨?_, Nat.ModEq.of_mul_right 2 hadd⟩
  unfold lapBit
  rw [← Nat.mod_mul_right_div_self, ← Nat.mod_mul_right_div_self, hadd]

namespace CqConf

variable (conf : CqConf)

/-- What the NIC's entry `K` looks like; what it wrote before the session has been filled over. -/
def IsEntry (K : ℕ) (e : Cqe64) : Prop :=
  if K < conf.earlier then e = conf.fill
  else e.owner = lapBit conf.attr.cqeNum K ∧ e.wqeCounter = BitVec.ofNat 16 (K - conf.earlier)

/-- What holds of a ring between steps. -/
structure RingInv (cq : CqState) : Prop where
  holds : Holds conf.attr.cqeNum conf.IsEntry (· = conf.fill) (conf.earlier + cq.produced) cq.ring
  window : cq.produced ≤ cq.cqeCi + conf.attr.cqeNum

variable {conf} {cq : CqState} {k c : ℕ} {fn : PollFn} {e : Cqe64} {st : ℤ}

theorem RingInv.init (hg : CqGeom conf.attr.cqeNum)
    (hr : ∀ i, i < conf.attr.cqeNum → cq.ring i = conf.fill) (hp : cq.produced = 0) :
    conf.RingInv cq := by
  refine ⟨⟨fun K hK _ => ?_, fun K hK _ => hr K hK⟩, by omega⟩
  rw [hp, Nat.add_zero] at hK
  unfold IsEntry
  rw [if_pos hK]
  exact hr _ (Nat.mod_lt K hg.pos)

/-- A slot not yet written in this lap: the filling, or the entry of the lap before. -/
theorem RingInv.pending (h : conf.RingInv cq) (hlo : cq.produced ≤ k)
    (hhi : k < cq.produced + conf.attr.cqeNum) :
    (k < conf.attr.cqeNum ∧ cq.ring ((k + conf.earlier) % conf.attr.cqeNum) = conf.fill) ∨
      (cq.ring ((k + conf.earlier) % conf.attr.cqeNum)).owner =
        !lapBit conf.attr.cqeNum (k + conf.earlier) := by
  have hslot := h.holds.slot_of_ge (k := k + conf.earlier) (by omega) (by omega)
  rcases hslot with ⟨hK, hfill⟩ | ⟨hn, hentry⟩
  · exact .inl ⟨by omega, hfill⟩
  · unfold IsEntry at hentry
    split_ifs at hentry with hearly
    · exact .inl ⟨by omega, hentry⟩
    · right
      rw [hentry.1, lapBit_sub (by omega) hn]

theorem ReadsPending.slot_eq (h : conf.ReadsPending k) (hg : CqGeom conf.attr.cqeNum) :
    fn.slot conf.attr k = (k + conf.earlier) % conf.attr.cqeNum := by
  obtain ⟨b, hb⟩ := hg.pow
  rw [← (lap_congr h.1 k).2]
  cases fn
  · exact pollOneSlot_eq hb hg.fits.le k
  · exact cqIdx_eq hb k

/-- **The test fails on an entry not yet written**, if its condition holds. -/
theorem RingInv.not_observed (h : conf.RingInv cq) (hg : CqGeom conf.attr.cqeNum)
    (hlo : cq.produced ≤ k) (hhi : k < cq.produced + conf.attr.cqeNum)
    (hp : conf.ReadsPending k) :
    observedCompletion conf.arch conf.attr k (cq.ring (fn.slot conf.attr k)) = false := by
  obtain ⟨b, hb⟩ := hg.pow
  rw [hp.slot_eq hg]
  rcases h.pending hlo hhi with ⟨hk, hfill⟩ | howner
  · rw [hfill]
    exact hp.2 hk
  · apply Bool.eq_false_iff.2
    intro hobs
    have ho := ((observedCompletion_iff conf.arch hb k _).1 hobs).1
    have hbit : lapBit conf.attr.cqeNum (k + conf.attr.cqeRsvd) =
        decide ((k + conf.attr.cqeRsvd) / conf.attr.cqeNum % 2 = 1) := by
      simp [lapBit, Bool.beq_eq_decide_eq]
    rw [howner, ← hbit, (lap_congr hp.1 k).1] at ho
    exact absurd ho (by simp)

/-- A poll that reports on the CQE has seen the test succeed, inside the window. -/
theorem observed_of_cqeCheck {arch : Arch} {attr : CqAttr} (hck : c ≤ k)
    (hwin : fn = .one → k < c + attr.cqeNum) (h : fn.cqeCheck arch attr k c e = some st)
    (hst : st ≠ eBusy) : k < c + attr.cqeNum ∧ observedCompletion arch attr k e = true := by
  cases fn with
  | one =>
    refine ⟨hwin rfl, ?_⟩
    rw [PollFn.cqeCheck, Option.some_inj, pollOneCqe] at h
    split_ifs at h with ho
    · exact absurd h.symm hst
    · simpa using ho
  | «at» =>
    rw [PollFn.cqeCheck, pollAtCqe] at h
    split_ifs at h with ho
    simp only [not_or, not_and, not_le, Bool.not_eq_false] at ho
    exact ⟨ho.1, ho.2 hck⟩

/-- **A report on the CQE is sound** where the condition holds. -/
theorem RingInv.lt_of_cqeCheck (h : conf.RingInv cq) (hg : CqGeom conf.attr.cqeNum)
    (hci : cq.cqeCi ≤ cq.produced) (hok : (PollPhase.cqe k c).Ok conf.attr.cqeNum fn cq)
    (hsafe : cq.produced ≤ k → k < c + conf.attr.cqeNum → conf.ReadsPending k)
    (hchk : fn.cqeCheck conf.arch conf.attr k c (cq.ring (fn.slot conf.attr k)) = some st)
    (hst : st ≠ eBusy) : k < cq.produced := by
  obtain ⟨hck, hcc, hwin⟩ := hok
  obtain ⟨hlt, hobs⟩ := observed_of_cqeCheck hck hwin hchk hst
  by_contra hge
  have hfalse : observedCompletion conf.arch conf.attr k (cq.ring (fn.slot conf.attr k)) = false :=
    h.not_observed hg (not_lt.1 hge) (by omega) (hsafe (not_lt.1 hge) hlt)
  rw [hobs] at hfalse
  exact Bool.noConfusion hfalse

theorem le_of_ciCheck_none {attr : CqAttr} (h : fn.ciCheck attr k c = none) :
    c ≤ k ∧ (fn = .one → k < c + attr.cqeNum) := by
  cases fn <;> simp only [PollFn.ciCheck, pollOneCi, pollAtCi] at h <;> split_ifs at h
  · exact ⟨by omega, fun _ => by omega⟩
  · exact ⟨by omega, fun h => PollFn.noConfusion h⟩

theorem lt_of_ciCheck {attr : CqAttr} (h : fn.ciCheck attr k c = some st) (hst : st ≠ eBusy) :
    k < c := by
  cases fn <;> simp only [PollFn.ciCheck, pollOneCi, pollAtCi] at h <;> split_ifs at h with h1
  · exact h1
  · exact absurd (Option.some.inj h).symm hst
  · exact h1

/-- What the next access of a poll leads to. -/
theorem RingInv.next_ok {ph ph' : PollPhase} (h : conf.RingInv cq)
    (hg : CqGeom conf.attr.cqeNum) (hci : cq.cqeCi ≤ cq.produced)
    (hok : ph.Ok conf.attr.cqeNum fn cq)
    (hsafe : ∀ k c, ph = .cqe k c → cq.produced ≤ k → k < c + conf.attr.cqeNum →
      conf.ReadsPending k)
    (hn : fn.next conf.arch conf.attr cq ph = .goto ph') : ph'.Ok conf.attr.cqeNum fn cq := by
  cases ph with
  | ci k =>
    cases hc : fn.ciCheck conf.attr k cq.cqeCi with
    | none =>
      simp only [PollFn.next, hc] at hn
      obtain rfl := PollOut.goto.inj hn
      have hle := le_of_ciCheck_none hc
      exact ⟨hle.1, le_rfl, hle.2⟩
    | some st =>
      simp only [PollFn.next, hc] at hn
      obtain ⟨rfl, rfl⟩ := privDone_eq_goto hn
      exact lt_of_lt_of_le (lt_of_ciCheck hc (by decide)) hci
  | cqe k c =>
    cases hc : fn.cqeCheck conf.arch conf.attr k c (cq.ring (fn.slot conf.attr k)) with
    | none =>
      simp only [PollFn.next, hc] at hn
      obtain rfl := PollOut.goto.inj hn
      trivial
    | some st =>
      simp only [PollFn.next, hc] at hn
      obtain ⟨rfl, rfl⟩ := privDone_eq_goto hn
      exact h.lt_of_cqeCheck hg hci hok (hsafe k c rfl) hc (by decide)
  | atomicMax k => cases hn

end CqConf

/-! ## Every step -/

namespace CqUse

variable {A : Type*} {conf : CqConf} {s s' : CqUse A}

/-- What a call knows between two accesses. -/
def PhaseOk (conf : CqConf) (s : CqUse A) : CqPhase → Prop
  | .poll fn ph => conf.collapsed = false ∧ ph.Ok conf.attr.cqeNum fn s.cq
  | .count _ => conf.collapsed = false
  | .collapsed ph => conf.collapsed = true ∧ s.view.PhaseOk ph
  | .dbrec cqeCi cqeNum => cqeCi + cqeNum.toNat ≤ s.cq.produced
  | .store cqeCi cqeNum => cqeCi + cqeNum.toNat ≤ s.cq.produced

/-- The invariant of a session. -/
structure Inv (conf : CqConf) (s : CqUse A) : Prop where
  geom : CqGeom conf.attr.cqeNum
  ci_le : s.cq.cqeCi ≤ s.cq.produced
  ring : conf.collapsed = false → conf.RingInv s.cq
  view : conf.collapsed = true → s.view.Inv conf.attr.cqeNum
  call : ∀ a ph, s.call a = some ph → s.PhaseOk conf ph

theorem PhaseOk.mono {ph : CqPhase} (h : s.PhaseOk conf ph) (hci : s.cq.cqeCi ≤ s'.cq.cqeCi)
    (hp : s.cq.produced ≤ s'.cq.produced) (hpi : s.sqWqePi ≤ s'.sqWqePi) :
    s'.PhaseOk conf ph := by
  cases ph with
  | poll fn ph => exact ⟨h.1, h.2.mono hci hp⟩
  | count count => exact h
  | collapsed ph => exact ⟨h.1, h.2.mono hpi hci hp⟩
  | dbrec c num => exact h.trans hp
  | store c num => exact h.trans hp

theorem Init.inv (h : Init conf s) : s.Inv conf := by
  have hci := h.cqeCi
  have hprod := h.produced
  refine ⟨h.geom, by omega, fun _ => .init h.geom h.ring hprod, fun _ => ?_, fun a ph hp => ?_⟩
  · have hfill : s.view.cqe = conf.fill := h.ring 0 h.geom.pos
    have hview : Collapsed.Init s.view :=
      ⟨h.sqWqePi, hci, hprod, by rw [hfill]; exact h.fill, fun _ => rfl⟩
    exact hview.inv
  · rw [h.call a] at hp
    cases hp

/-- An access writes at most `cqe_ci` of what the others read. -/
theorem effect_eq (s : CqUse A) (ph : CqPhase) :
    (s.effect ph).cq = { s.cq with cqeCi := (s.effect ph).cq.cqeCi } ∧
      (s.effect ph).sqWqePi = s.sqWqePi ∧ (s.effect ph).call = s.call := by
  cases ph with
  | poll fn ph => cases ph <;> exact ⟨rfl, rfl, rfl⟩
  | count _ | collapsed _ | dbrec _ _ | store _ _ => exact ⟨rfl, rfl, rfl⟩

/-- **An access moves `cqe_ci` only up, and not above the completed count.** -/
theorem Inv.effect_le (h : s.Inv conf) {ph : CqPhase} (hok : s.PhaseOk conf ph)
    (hsafe : ph.Safe conf s) :
    s.cq.cqeCi ≤ (s.effect ph).cq.cqeCi ∧ (s.effect ph).cq.cqeCi ≤ s.cq.produced := by
  cases ph with
  | poll fn ph =>
    cases ph with
    | ci k | cqe k c => exact ⟨le_rfl, h.ci_le⟩
    | atomicMax k => exact ⟨le_max_left _ _, max_le h.ci_le hok.2⟩
  | count count => exact ⟨le_rfl, h.ci_le⟩
  | collapsed ph => exact (h.view hok.1).raised_le hok.2
  | dbrec c num => exact ⟨le_rfl, h.ci_le⟩
  | store c num =>
    have hnew : (s.effect (.store c num)).cq.cqeCi = c + num.toNat % 2 ^ 24 :=
      toNat_updatedCqeCi_of_lt hsafe.1
    have hmod := Nat.mod_le num.toNat (2 ^ 24)
    have hle : c + num.toNat ≤ s.cq.produced := hok
    rw [hnew]
    exact ⟨hsafe.2, by omega⟩

/-- The next access of a call knows what it should. -/
theorem Inv.next_ok (h : s.Inv conf) {ph ph' : CqPhase} (hok : s.PhaseOk conf ph)
    (hsafe : ph.Safe conf s) (hn : s.next conf ph = some ph') : s.PhaseOk conf ph' := by
  cases ph with
  | poll fn ph =>
    cases hf : fn.next conf.arch conf.attr s.cq ph with
    | goto ph₁ =>
      rw [next, hf] at hn
      obtain rfl := Option.some.inj hn
      refine ⟨hok.1, (h.ring hok.1).next_ok h.geom h.ci_le hok.2 (fun k c hph => ?_) hf⟩
      subst hph
      exact hsafe
    | ret st =>
      rw [next, hf] at hn
      cases hn
  | count count =>
    obtain rfl := Option.some.inj hn
    exact ⟨hok, trivial⟩
  | collapsed ph =>
    obtain ⟨ph₁, hph, rfl⟩ := Option.map_eq_some_iff.1 hn
    exact ⟨hok.1, (h.view hok.1).next_ok hok.2 hph⟩
  | dbrec c num =>
    obtain rfl := Option.some.inj hn
    exact hok
  | store c num => cases hn

theorem start_ok {op : CqOp} {ph : CqPhase} (hfit : op.fits conf.collapsed = true)
    (hs : s.start op = some ph) : s.PhaseOk conf ph := by
  cases op with
  | poll fn k =>
    obtain rfl := Option.some.inj hs
    exact ⟨by simpa [CqOp.fits] using hfit, trivial⟩
  | pollCq count =>
    rw [start] at hs
    split_ifs at hs
    obtain rfl := Option.some.inj hs
    show conf.collapsed = false
    simpa [CqOp.fits] using hfit
  | pollCollapsed k =>
    obtain rfl := Option.some.inj hs
    exact ⟨hfit, trivial⟩
  | updateDbrec isOverrun num =>
    rw [start] at hs
    split_ifs at hs with hle hover
    · obtain rfl := Option.some.inj hs
      exact hle
    · obtain rfl := Option.some.inj hs
      exact hle

theorem view_inv {n ci : ℕ} (h : s.view.Inv n) (hcq : s'.cq = { s.cq with cqeCi := ci })
    (hpi : s'.sqWqePi = s.sqWqePi) (hle : ci ≤ s.cq.produced) : s'.view.Inv n := by
  cases s'
  subst hcq hpi
  exact ⟨h.completed_le, h.outstanding, hle, h.blank, h.last, fun a ph hp => by cases hp⟩

/-- A step that writes at most `cqe_ci` and the place of one call. -/
theorem Inv.of_cq (ci : ℕ) (h : s.Inv conf) (hcq : s'.cq = { s.cq with cqeCi := ci })
    (hpi : s'.sqWqePi = s.sqWqePi) (hlo : s.cq.cqeCi ≤ ci) (hhi : ci ≤ s.cq.produced)
    (hcall : ∀ a ph, s'.call a = some ph → s'.PhaseOk conf ph) : s'.Inv conf := by
  refine ⟨h.geom, ?_, fun hc => ⟨?_, ?_⟩, fun hc => view_inv (h.view hc) hcq hpi hhi, hcall⟩
  · rw [hcq]
    exact hhi
  · rw [hcq]
    exact (h.ring hc).holds
  · rw [hcq]
    exact (h.ring hc).window.trans (Nat.add_le_add_right hlo _)

variable [DecidableEq A] {e : CqEvent A}

theorem Inv.step_call (h : s.Inv conf) {a : A} {op : CqOp}
    (hfit : op.fits conf.collapsed = true) :
    (step conf s (.call a op)).Inv conf ∧ Right conf s (.call a op) := by
  unfold Right
  cases ha : s.call a with
  | some ph =>
    have hs : step conf s (.call a op) = s := by rw [step, ha]
    rw [hs]
    exact ⟨h, le_rfl, h.ci_le⟩
  | none =>
    have hs : step conf s (.call a op) =
        { s with call := Function.update s.call a (s.start op) } := by rw [step, ha]
    rw [hs]
    refine ⟨h.of_cq s.cq.cqeCi rfl rfl le_rfl h.ci_le fun a' ph' hp => ?_, le_rfl, h.ci_le⟩
    obtain ⟨rfl, hstart⟩ | ⟨-, hp⟩ := update_eq_some.1 hp
    · exact (start_ok hfit hstart).mono le_rfl le_rfl le_rfl
    · exact (h.call a' ph' hp).mono le_rfl le_rfl le_rfl

theorem Inv.step_access (h : s.Inv conf) {a : A}
    (hsafe : ∀ ph, s.call a = some ph → ph.Safe conf s) :
    (step conf s (.access a)).Inv conf ∧ Right conf s (.access a) := by
  unfold Right
  cases ha : s.call a with
  | none =>
    have hs : step conf s (.access a) = s := by rw [step, ha]
    rw [hs]
    exact ⟨h, le_rfl, h.ci_le⟩
  | some ph =>
    have hs : step conf s (.access a) =
        { s.effect ph with call := Function.update s.call a (s.next conf ph) } := by
      rw [step, ha]
    have hok := h.call a ph ha
    obtain ⟨hcq, hpi, -⟩ := s.effect_eq ph
    obtain ⟨hlo, hhi⟩ := h.effect_le hok (hsafe ph ha)
    have hprod : (s.effect ph).cq.produced = s.cq.produced := by rw [hcq]
    rw [hs]
    refine ⟨h.of_cq _ hcq hpi hlo hhi fun a' ph' hp => ?_, hlo, by rw [hprod]; exact hhi⟩
    obtain ⟨rfl, hnext⟩ | ⟨-, hp⟩ := update_eq_some.1 hp
    · exact (h.next_ok hok (hsafe ph ha) hnext).mono hlo hprod.ge hpi.ge
    · exact (h.call a' ph' hp).mono hlo hprod.ge hpi.ge

theorem Inv.step_submit (h : s.Inv conf) (p : ℕ) :
    (step conf s (.submit p)).Inv conf ∧ Right conf s (.submit p) := by
  unfold Right
  by_cases hp : s.sqWqePi ≤ p ∧ p ≤ s.cq.produced + conf.attr.cqeNum
  · have hs : step conf s (.submit p) = { s with sqWqePi := p } := by rw [step, if_pos hp]
    rw [hs]
    refine ⟨⟨h.geom, h.ci_le, h.ring, fun hc => ?_, fun a ph ha => ?_⟩, le_rfl, h.ci_le⟩
    · have hv := h.view hc
      exact ⟨hv.completed_le.trans hp.1, hp.2, hv.ci_le, hv.blank, hv.last,
        fun a ph hp => by cases hp⟩
    · exact (h.call a ph ha).mono le_rfl le_rfl hp.1
  · have hs : step conf s (.submit p) = s := by rw [step, if_neg hp]
    rw [hs]
    exact ⟨h, le_rfl, h.ci_le⟩

theorem Inv.step_complete (h : s.Inv conf) (e : Cqe64) :
    (step conf s (.complete e)).Inv conf ∧ Right conf s (.complete e) := by
  have hci := h.ci_le.trans (Nat.le_succ _)
  unfold Right step
  dsimp only
  split_ifs with hc hmay hmay
  · have hv := h.view hc
    refine ⟨⟨h.geom, hci, fun hr => ?_, fun _ => ?_, fun a ph ha => ?_⟩, le_rfl, hci⟩
    · rw [hc] at hr
      cases hr
    · have hout := hv.outstanding
      refine ⟨hmay.1, ?_, hci, fun hz => absurd hz (Nat.succ_ne_zero _), fun _ => ?_,
        fun a ph hp => by cases hp⟩
      · exact hout.trans (Nat.add_le_add_right (Nat.le_succ _) _)
      · have hcqe : (s.write 0 e).view.cqe = e := by
          show Function.update s.cq.ring 0 e 0 = e
          exact Function.update_self ..
        rw [hcqe]
        exact ⟨hmay.2.1, hmay.2.2⟩
    · exact (h.call a ph ha).mono le_rfl (Nat.le_succ _) le_rfl
  · exact ⟨h, le_rfl, h.ci_le⟩
  · refine ⟨⟨h.geom, hci, fun hr => ⟨?_, hmay.1⟩, fun hv => absurd hv hc, fun a ph ha => ?_⟩,
      le_rfl, hci⟩
    · refine (h.ring hr).holds.write ?_
      unfold CqConf.IsEntry
      rw [if_neg (Nat.not_lt.2 (Nat.le_add_right _ _)), Nat.add_sub_cancel_left]
      exact hmay.2
    · exact (h.call a ph ha).mono le_rfl (Nat.le_succ _) le_rfl
  · exact ⟨h, le_rfl, h.ci_le⟩

/-- **A step that meets the condition** keeps the invariant and is right. -/
theorem Inv.step (h : s.Inv conf) (hm : s.Meets conf e) :
    (step conf s e).Inv conf ∧ Right conf s e := by
  cases e with
  | call a op => exact h.step_call hm
  | access a => exact h.step_access hm
  | submit p => exact h.step_submit p
  | complete e => exact h.step_complete e

/-- **`cqe_ci` grows with the completions.** In a session of a CQ of either kind, along every
history whose steps meet the condition, no step lowers `cqe_ci` or raises it above the completed
count. -/
theorem cqeCi_grows {es : List (CqEvent A)} (h : Init conf s)
    (hm : Along (CqUse.step conf) (CqUse.Meets conf) s es) :
    Along (CqUse.step conf) (Right conf) s es :=
  hm.of_invariant h.inv fun _ _ hi hc => ⟨(hi.step hc).2, (hi.step hc).1⟩

/-- A fresh ring of this many entries. -/
def ringConf (cqeNum : ℕ) : CqConf where
  arch := .sm90
  attr := ⟨cqeNum, 0⟩
  collapsed := false
  earlier := 0
  fill := ⟨0#16, 0#8, 0xf1#8⟩

/-- Its state, before any completion or call. -/
def fresh : CqUse Unit where
  cq := ⟨0, fun _ => ⟨0#16, 0#8, 0xf1#8⟩, 0⟩
  sqWqePi := 0
  dbrec := 0#32
  call := fun _ => none

theorem fresh_init {cqeNum : ℕ} (h : CqGeom cqeNum) : Init (ringConf cqeNum) fresh :=
  ⟨h, fun _ _ => rfl, (by decide : opcode 0xf1#8 = cqeInvalid), rfl, rfl, rfl, fun _ => rfl⟩

/-- One completion, a poll for it and an update for no CQE. -/
theorem cqeCi_grows_once :
    Along (CqUse.step (ringConf 4)) (Right (ringConf 4)) fresh
      [.complete zeroCqe, .call () (.poll .one 0), .access (), .access (), .access (),
        .call () (.updateDbrec true 0#32), .access ()] :=
  cqeCi_grows (fresh_init ⟨⟨2, rfl⟩, by decide⟩)
    ⟨trivial, rfl, fun ph h => by cases h; trivial,
      fun ph h => by cases h; exact fun hle => absurd hle (by decide),
      fun ph h => by cases h; trivial, rfl,
      fun ph h => by cases h; exact ⟨by decide, by decide⟩, trivial⟩

/-- Completions alone, up to a full ring. -/
theorem run_complete (cqeNum m : ℕ) (hm : m ≤ cqeNum) :
    ∃ es, (run (step (ringConf cqeNum)) fresh es).cq.cqeCi = 0 ∧
      (run (step (ringConf cqeNum)) fresh es).cq.produced = m ∧
      (run (step (ringConf cqeNum)) fresh es).call () = none := by
  induction m with
  | zero => exact ⟨[], rfl, rfl, rfl⟩
  | succ m ih =>
    obtain ⟨es, hci, hprod, hcall⟩ := ih (Nat.le_of_succ_le hm)
    refine ⟨es ++ [.complete ⟨BitVec.ofNat 16 m, 0#8, 0#8⟩], ?_⟩
    unfold run at *
    rw [List.foldl_append, List.foldl_cons, List.foldl_nil]
    generalize List.foldl (step (ringConf cqeNum)) fresh es = s at *
    have howner : (⟨BitVec.ofNat 16 m, 0#8, 0#8⟩ : Cqe64).owner = lapBit cqeNum m := by
      rw [lapBit_of_lt hm]
      show (0#8 &&& ownerMask != 0#8) = false
      decide
    have hs : step (ringConf cqeNum) s (.complete ⟨BitVec.ofNat 16 m, 0#8, 0#8⟩) =
        s.write ((0 + s.cq.produced) % cqeNum) ⟨BitVec.ofNat 16 m, 0#8, 0#8⟩ := by
      have hmay : s.cq.produced < s.cq.cqeCi + cqeNum := by omega
      have hc : ¬ (ringConf cqeNum).collapsed = true := Bool.false_ne_true
      rw [step, if_neg hc]
      exact if_pos ⟨hmay, by rw [howner, hprod]; exact congrArg _ (Nat.zero_add m).symm,
        by rw [hprod]⟩
    rw [hs]
    exact ⟨hci, congrArg (· + 1) hprod, hcall⟩

theorem step_update {conf : CqConf} {s : CqUse Unit} {num : BitVec 32} (hcall : s.call () = none)
    (hle : s.cq.cqeCi + num.toNat ≤ s.cq.produced) :
    step conf s (.call () (.updateDbrec true num)) =
      { s with call := fun _ => some (.store s.cq.cqeCi num) } := by
  have hstart : s.start (.updateDbrec true num) = some (.store s.cq.cqeCi num) := by
    rw [start, if_pos hle, if_pos rfl]
  rw [step, hcall, hstart]
  congr 1

theorem step_store {conf : CqConf} {s : CqUse Unit} {c : ℕ} {num : BitVec 32}
    (hcall : s.call () = some (.store c num)) :
    step conf s (.access ()) =
      { s with
        cq := { s.cq with cqeCi := (updatedCqeCi c num).toNat }
        call := fun _ => none } := by
  rw [step, hcall]
  congr 1

/-- On a ring of `2^25` entries the CQE after the first `2^24 - 1` takes `cqe_ci` back to zero. -/
theorem cqeCi_wraps :
    Init (ringConf 33554432) fresh ∧
      ∃ es, (run (step (ringConf 33554432)) fresh es).cq.cqeCi = 16777215 ∧
        (step (ringConf 33554432) (run (step (ringConf 33554432)) fresh es) (.access ())).cq.cqeCi =
          0 := by
  refine ⟨fresh_init ⟨⟨25, rfl⟩, by decide⟩, ?_⟩
  obtain ⟨es, hci, hprod, hcall⟩ := run_complete 33554432 16777216 (by decide)
  refine ⟨es ++ [.call () (.updateDbrec true 16777215#32), .access (),
    .call () (.updateDbrec true 1#32)], ?_⟩
  unfold run at *
  rw [List.foldl_append, List.foldl_cons, List.foldl_cons, List.foldl_cons, List.foldl_nil]
  generalize List.foldl (step (ringConf 33554432)) fresh es = s at *
  have hfirst : (updatedCqeCi 0 16777215#32).toNat = 16777215 := by decide
  have hlast : (updatedCqeCi 16777215 1#32).toNat = 0 := by decide
  rw [step_update hcall (by rw [hci, hprod]; decide), step_store rfl]
  rw [hci, hfirst, step_update rfl (by
    show 16777215 + (1#32).toNat ≤ s.cq.produced
    rw [hprod]
    decide), step_store rfl]
  exact ⟨rfl, hlast⟩

end CqUse

end Gpunetio
