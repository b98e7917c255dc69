import Gpunetio.Cq.Init
import Gpunetio.Lib.LapRing
import Gpunetio.Lib.Transition

/-!
# One session of a completion queue

Any number of pollers and the NIC on one CQ, from its creation by `create_cq` on and without a
reset. A poller takes one step for each access to `cqe_ci` or the ring; steps of pollers and of the
NIC interleave in any order. The NIC writes CQE `k` into slot `k % cqe_num` and keeps the number of
CQEs it has written at most a ring ahead of `cqe_ci`, which the reservation of send queue slots
provides (`Gpunetio.Qp.Ring`).

* `PollPhase`, `PollFn.next`: where a poller stands between two accesses and what the next one does;
* `PollFn.alone`, `alone_pollOne`, `alone_pollAt`: a poller that no step interleaves computes the
  functions of `Gpunetio.Cq.Poll`;
* `Session.Step`, `Session.Inv`, `Session.Inv.step`;
* **`poll_reports_written`**: what the two functions report, and that both architecture variants
  report the same.
-/

namespace Gpunetio

open LapRing Transition

/-- The two poll functions: `poll_one_cq_at` and `poll_cq_at`. -/
inductive PollFn
  | one
  | at
deriving DecidableEq, Repr

/-- A poller about to load `cqe_ci`, about to load the CQE, or about to raise `cqe_ci`. -/
inductive PollPhase
  | ci (consIndex : ℕ)
  | cqe (consIndex cqeCi : ℕ)
  | atomicMax (consIndex : ℕ)
deriving DecidableEq, Repr

/-- What a step of a poller leads to. -/
inductive PollOut
  | goto (ph : PollPhase)
  | ret (status : ℤ)
deriving DecidableEq, Repr

/-- The shared memory of a CQ, and how many CQEs the NIC has written. -/
structure CqState where
  cqeCi : ℕ
  ring : ℕ → Cqe64
  produced : ℕ

namespace PollPhase

/-- The index polled for. -/
def consIndex : PollPhase → ℕ
  | ci k => k
  | cqe k _ => k
  | atomicMax k => k

/-- The only write of a poller: `atomic_max(&cq->cqe_ci, cons_index + 1)`. -/
def effect (cq : CqState) : PollPhase → CqState
  | atomicMax k => { cq with cqeCi := max cq.cqeCi (k + 1) }
  | _ => cq

theorem cqeCi_le_effect (cq : CqState) (ph : PollPhase) : cq.cqeCi ≤ (ph.effect cq).cqeCi := by
  cases ph <;> simp [effect]

@[simp] theorem produced_effect (cq : CqState) (ph : PollPhase) :
    (ph.effect cq).produced = cq.produced := by
  cases ph <;> rfl

end PollPhase

/-- The private part has returned. -/
def privDone (consIndex : ℕ) (status : ℤ) : PollOut :=
  if status = 0 then .goto (.atomicMax consIndex) else .ret status

namespace PollFn

/-- The slot read. -/
def slot (cq : CqAttr) (consIndex : ℕ) : PollFn → ℕ
  | one => pollOneSlot cq consIndex
  | .at => cqIdx cq consIndex

/-- What is returned on `cqe_ci` alone, if anything. -/
def ciCheck (cq : CqAttr) (consIndex cqeCi : ℕ) : PollFn → Option ℤ
  | one => pollOneCi cq consIndex cqeCi
  | .at => pollAtCi consIndex cqeCi

/-- What is returned on the CQE, if anything. -/
def cqeCheck (arch : Arch) (cq : CqAttr) (consIndex cqeCi : ℕ) (e : Cqe64) : PollFn → Option ℤ
  | one => some (pollOneCqe arch cq consIndex e)
  | .at => pollAtCqe arch cq consIndex cqeCi e

/-- **The next step of a poller** that sees the memory `mem`. -/
def next (fn : PollFn) (arch : Arch) (cq : CqAttr) (mem : CqState) : PollPhase → PollOut
  | .ci k =>
    match fn.ciCheck cq k mem.cqeCi with
    | some st => privDone k st
    | none => .goto (.cqe k mem.cqeCi)
  | .cqe k cqeCi =>
    match fn.cqeCheck arch cq k cqeCi (mem.ring (fn.slot cq k)) with
    | some st => privDone k st
    | none => .goto (.ci k)
  | .atomicMax _ => .ret 0

/-- A call that no other step interleaves: its status and the memory it leaves. -/
def alone (fn : PollFn) (arch : Arch) (cq : CqAttr) : ℕ → CqState → PollPhase → Option (ℤ × CqState)
  | 0, _, _ => none
  | fuel + 1, mem, ph =>
    match fn.next arch cq mem ph with
    | .ret st => some (st, ph.effect mem)
    | .goto ph' => fn.alone arch cq fuel (ph.effect mem) ph'

theorem alone_privDone (fn : PollFn) (arch : Arch) (cq : CqAttr) (mem : CqState) {ph : PollPhase}
    {k : ℕ} {st : ℤ} (he : ph.effect mem = mem) (h : fn.next arch cq mem ph = privDone k st)
    (fuel : ℕ) : fn.alone arch cq (fuel + 2) mem ph =
      some (st, { mem with cqeCi := pollDone k mem.cqeCi st }) := by
  rw [alone, h, privDone, pollDone]
  by_cases hst : st = 0
  · rw [if_pos hst, if_pos hst, hst, he]
    rfl
  · rw [if_neg hst, if_neg hst, he]

theorem alone_pollOne (arch : Arch) (cq : CqAttr) (mem : CqState) (k : ℕ) :
    one.alone arch cq 3 mem (.ci k) =
      some (privPollOneCqAt arch cq k mem.cqeCi mem.ring,
        { mem with
          cqeCi := pollDone k mem.cqeCi (privPollOneCqAt arch cq k mem.cqeCi mem.ring) }) := by
  rcases h : pollOneCi cq k mem.cqeCi with _ | st
  · have hn : one.next arch cq mem (.ci k) = .goto (.cqe k mem.cqeCi) := by
      simp only [next, ciCheck, h]
    rw [alone, hn]
    simp only [privPollOneCqAt, h, Option.getD_none]
    exact alone_privDone one arch cq mem rfl rfl 0
  · simp only [privPollOneCqAt, h, Option.getD_some]
    refine alone_privDone one arch cq mem rfl ?_ 1
    simp only [next, ciCheck, h]

theorem alone_pollAt (arch : Arch) (cq : CqAttr) (mem : CqState) (k : ℕ) {fuel : ℕ} {st : ℤ}
    (h : privPollCqAt arch cq k mem.cqeCi mem.ring fuel = some st) :
    PollFn.at.alone arch cq 3 mem (.ci k) =
      some (st, { mem with cqeCi := pollDone k mem.cqeCi st }) := by
  obtain _ | fuel := fuel
  · cases h
  rw [privPollCqAt_succ, pollAtIter] at h
  rcases hc : pollAtCi k mem.cqeCi with _ | st'
  · have hn : PollFn.at.next arch cq mem (.ci k) = .goto (.cqe k mem.cqeCi) := by
      simp only [next, ciCheck, hc]
    rw [hc, Option.none_or] at h
    rw [alone, hn]
    refine alone_privDone PollFn.at arch cq mem rfl ?_ 0
    simp only [next, cqeCheck, slot, h]
  · rw [hc, Option.some_or, Option.some_inj] at h
    subst h
    refine alone_privDone PollFn.at arch cq mem rfl ?_ 1
    simp only [next, ciCheck, hc]

end PollFn

/-! ## The memory -/

/-- What the NIC writes as CQE `k`, successful or not. -/
def IsCqe (n k : ℕ) (e : Cqe64) : Prop := e.owner = lapBit n k ∧ e.wqeCounter = BitVec.ofNat 16 k

/-- The NIC writes its next CQE. -/
def CqState.write (n : ℕ) (cq : CqState) (e : Cqe64) : CqState :=
  { cq with ring := Function.update cq.ring (cq.produced % n) e, produced := cq.produced + 1 }

/-- The sizes a ring can have. -/
structure CqGeom (n : ℕ) : Prop where
  pow : ∃ b, n = 2 ^ b
  fits : n * 64 < 2 ^ 32

theorem CqGeom.pos {n : ℕ} (h : CqGeom n) : 0 < n := by
  obtain ⟨b, rfl⟩ := h.pow
  exact Nat.two_pow_pos b

/-- What holds of the memory between steps. -/
structure CqState.Inv (n : ℕ) (cq : CqState) : Prop where
  holds : Holds n (IsCqe n) (fun e => e.owner = true) cq.produced cq.ring
  window : cq.produced ≤ cq.cqeCi + n
  ci_le : cq.cqeCi ≤ cq.produced

section Memory

variable {n k : ℕ} {cq : CqState} {e : Cqe64}

theorem CqState.Inv.init (hr : ∀ i, i < n → cq.ring i = ⟨0#16, 0#8, 0xf1#8⟩) (hc : cq.cqeCi = 0)
    (hp : cq.produced = 0) : cq.Inv n := by
  refine ⟨hp ▸ Holds.init fun i hi => ?_, by omega, by omega⟩
  rw [hr i hi]
  rfl

theorem CqState.Inv.write (h : cq.Inv n) (hw : cq.produced < cq.cqeCi + n)
    (he : IsCqe n cq.produced e) : (cq.write n e).Inv n :=
  ⟨h.holds.write he, hw, h.ci_le.trans (Nat.le_succ _)⟩

theorem CqState.Inv.raise (h : cq.Inv n) (hk : k < cq.produced) :
    ({ cq with cqeCi := max cq.cqeCi (k + 1) } : CqState).Inv n :=
  ⟨h.holds, h.window.trans (by simp), max_le h.ci_le hk⟩

/-- **The test decides inside the window.** -/
theorem CqState.Inv.observed_iff (h : cq.Inv n) (arch : Arch) (hg : CqGeom n) (hlo : cq.cqeCi ≤ k)
    (hhi : k < cq.produced + n) :
    observedCompletion arch ⟨n, 0⟩ k (cq.ring (k % n)) = true ↔ k < cq.produced := by
  obtain ⟨b, hb⟩ := hg.pow
  have hb' : (CqAttr.mk n 0).cqeNum = 2 ^ b := hb
  have hflag := h.holds.flag_iff Cqe64.owner (fun _ _ hi => hi.1) (fun _ hi => hi)
    (h.window.trans (by omega)) hhi
  rw [observedCompletion_iff arch hb']
  constructor
  · rintro ⟨ho, -⟩
    refine hflag.mp (ho.trans ?_)
    simp [lapBit, Bool.beq_eq_decide_eq]
  · intro hk
    refine ⟨(hflag.mpr hk).trans ?_, fun _ => ?_⟩
    · simp [lapBit, Bool.beq_eq_decide_eq]
    · exact (h.holds.slot_of_lt hk (h.window.trans (by omega))).2

end Memory

/-! ## What a poller reports -/

/-- What a poller knows between two accesses. -/
def PollPhase.Ok (n : ℕ) (fn : PollFn) (cq : CqState) : PollPhase → Prop
  | ci _ => True
  | cqe k cqeCi => cqeCi ≤ k ∧ cqeCi ≤ cq.cqeCi ∧ (fn = .one → k < cqeCi + n)
  | atomicMax k => k < cq.produced

theorem PollPhase.Ok.mono {n : ℕ} {fn : PollFn} {cq cq' : CqState} {ph : PollPhase}
    (h : ph.Ok n fn cq) (hc : cq.cqeCi ≤ cq'.cqeCi) (hp : cq.produced ≤ cq'.produced) :
    ph.Ok n fn cq' := by
  cases ph with
  | ci k => trivial
  | cqe k c => exact ⟨h.1, h.2.1.trans hc, h.2.2⟩
  | atomicMax k => exact lt_of_lt_of_le h hp

theorem privDone_eq_goto {k : ℕ} {st : ℤ} {ph : PollPhase} (h : privDone k st = .goto ph) :
    st = 0 ∧ ph = .atomicMax k := by
  unfold privDone at h
  split_ifs at h with hst
  exact ⟨hst, (PollOut.goto.inj h).symm⟩

theorem privDone_eq_ret {k : ℕ} {st st' : ℤ} (h : privDone k st = .ret st') : st' = st := by
  unfold privDone at h
  split_ifs at h
  exact (PollOut.ret.inj h).symm

section Report

variable {n k c : ℕ} {arch : Arch} {fn : PollFn} {cq : CqState} {st : ℤ}

theorem PollFn.lt_of_ciCheck (h : fn.ciCheck ⟨n, 0⟩ k c = some st) (hst : st ≠ eBusy) : k < c := by
  cases fn <;> simp only [ciCheck, pollOneCi, pollAtCi] at h <;> split_ifs at h with h1
  · exact h1
  · exact absurd (Option.some.inj h).symm hst
  · exact h1

theorem PollFn.le_of_ciCheck_none (h : fn.ciCheck ⟨n, 0⟩ k c = none) :
    c ≤ k ∧ (fn = .one → k < c + n) := by
  cases fn <;> simp only [ciCheck, pollOneCi, pollAtCi] at h <;> split_ifs at h
  · exact ⟨by omega, fun _ => by omega⟩
  · exact ⟨by omega, fun h => PollFn.noConfusion h⟩

theorem PollFn.slot_eq (hg : CqGeom n) (fn : PollFn) (k : ℕ) : fn.slot ⟨n, 0⟩ k = k % n := by
  obtain ⟨b, hb⟩ := hg.pow
  have hb' : (CqAttr.mk n 0).cqeNum = 2 ^ b := hb
  cases fn
  · exact pollOneSlot_eq hb' hg.fits.le k
  · exact cqIdx_eq hb' k

/-- **A report on the CQE is sound**, although `cqe_ci` may have moved since it was loaded. -/
theorem PollFn.lt_of_cqeCheck (hg : CqGeom n) (hcq : cq.Inv n)
    (hok : (PollPhase.cqe k c).Ok n fn cq)
    (h : fn.cqeCheck arch ⟨n, 0⟩ k c (cq.ring (fn.slot ⟨n, 0⟩ k)) = some st) (hst : st ≠ eBusy) :
    k < cq.produced := by
  obtain ⟨hck, hcc, hwin⟩ := hok
  rcases Nat.lt_or_ge k cq.cqeCi with hlt | hge
  · exact lt_of_lt_of_le hlt hcq.ci_le
  have hci := hcq.ci_le
  rw [fn.slot_eq hg] at h
  cases fn with
  | one =>
    have hk := hwin rfl
    refine (hcq.observed_iff arch hg hge (by omega)).mp ?_
    rw [cqeCheck, Option.some_inj, pollOneCqe] at h
    split_ifs at h with ho
    · exact absurd h.symm hst
    · simpa using ho
  | «at» =>
    rw [cqeCheck, pollAtCqe] at h
    split_ifs at h with ho
    simp only [not_or, not_and, not_le, Bool.not_eq_false] at ho
    exact (hcq.observed_iff arch hg hge (by omega)).mp (ho.2 hck)

/-- What the next access of a poller leads to. -/
theorem PollPhase.Ok.next {ph : PollPhase} (hok : ph.Ok n fn cq) (arch : Arch) (hg : CqGeom n)
    (hcq : cq.Inv n) :
    (ph.effect cq).Inv n ∧
      (∀ ph', fn.next arch ⟨n, 0⟩ cq ph = .goto ph' → ph'.Ok n fn (ph.effect cq)) ∧
      ∀ st, fn.next arch ⟨n, 0⟩ cq ph = .ret st → st ≠ eBusy → ph.consIndex < cq.produced := by
  cases ph with
  | ci k =>
    refine ⟨hcq, ?_⟩
    rcases hc : fn.ciCheck ⟨n, 0⟩ k cq.cqeCi with _ | st₀ <;> simp only [PollFn.next, hc]
    · have hle := PollFn.le_of_ciCheck_none hc
      refine ⟨fun ph' h => ?_, fun st h => PollOut.noConfusion h⟩
      obtain rfl := PollOut.goto.inj h
      exact ⟨hle.1, le_rfl, hle.2⟩
    · refine ⟨fun ph' h => ?_, fun st h hst => ?_⟩
      · obtain ⟨rfl, rfl⟩ := privDone_eq_goto h
        exact lt_of_lt_of_le (PollFn.lt_of_ciCheck hc (by decide)) hcq.ci_le
      · obtain rfl := privDone_eq_ret h
        exact lt_of_lt_of_le (PollFn.lt_of_ciCheck hc hst) hcq.ci_le
  | cqe k c =>
    refine ⟨hcq, ?_⟩
    rcases hc : fn.cqeCheck arch ⟨n, 0⟩ k c (cq.ring (fn.slot ⟨n, 0⟩ k)) with _ | st₀ <;>
      simp only [PollFn.next, hc]
    · refine ⟨fun ph' h => ?_, fun st h => PollOut.noConfusion h⟩
      obtain rfl := PollOut.goto.inj h
      trivial
    · refine ⟨fun ph' h => ?_, fun st h hst => ?_⟩
      · obtain ⟨rfl, rfl⟩ := privDone_eq_goto h
        exact PollFn.lt_of_cqeCheck hg hcq hok hc (by decide)
      · obtain rfl := privDone_eq_ret h
        exact PollFn.lt_of_cqeCheck hg hcq hok hc hst
  | atomicMax k =>
    exact ⟨hcq.raise hok, fun ph' h => PollOut.noConfusion h, fun st _ _ => hok⟩

end Report

/-! ## Pollers and the NIC -/

/-- A CQ and its pollers; `none` is a poller between two calls. -/
structure Session (A : Type*) where
  cq : CqState
  poll : A → Option (PollFn × PollPhase)

namespace Session

variable {A : Type*}

/-- A fresh CQ from `create_cq`. -/
structure Init (env : HostEnv) (n : ℕ) (s : Session A) : Prop where
  ring : createCq env n = some s.cq.ring
  cqeCi : s.cq.cqeCi = 0
  produced : s.cq.produced = 0
  poll : ∀ a, s.poll a = none

variable [DecidableEq A]

/-- What a poller's step leaves of its call. -/
def after (fn : PollFn) : PollOut → Option (PollFn × PollPhase)
  | .goto ph => some (fn, ph)
  | .ret _ => none

/-- **One step of a session.** -/
inductive Step (arch : Arch) (n : ℕ) : Session A → Session A → Prop
  | call {s} (a : A) (fn : PollFn) (consIndex : ℕ) (h : s.poll a = none) :
      Step arch n s { s with poll := Function.update s.poll a (some (fn, .ci consIndex)) }
  | poll {s} (a : A) {fn ph} (h : s.poll a = some (fn, ph)) :
      Step arch n s
        { cq := ph.effect s.cq
          poll := Function.update s.poll a (after fn (fn.next arch ⟨n, 0⟩ s.cq ph)) }
  | nic {s} (e : Cqe64) (hw : s.cq.produced < s.cq.cqeCi + n) (he : IsCqe n s.cq.produced e) :
      Step arch n s { s with cq := s.cq.write n e }

/-- The invariant of a session. -/
structure Inv (n : ℕ) (s : Session A) : Prop where
  geom : CqGeom n
  cq : s.cq.Inv n
  poll : ∀ a fn ph, s.poll a = some (fn, ph) → ph.Ok n fn s.cq

omit [DecidableEq A] in
theorem Init.inv {env : HostEnv} {n : ℕ} {s : Session A} (h : Init env n s) : s.Inv n := by
  obtain ⟨hpow, hfits, hring⟩ := createCq_eq_some h.ring
  exact ⟨⟨hpow, hfits⟩, .init hring h.cqeCi h.produced, fun a fn ph hp => by simp [h.poll a] at hp⟩

theorem Inv.step {arch : Arch} {n : ℕ} {s s' : Session A} (h : s.Inv n) (hs : Step arch n s s') :
    s'.Inv n := by
  cases hs with
  | call a fn k ha =>
    refine ⟨h.geom, h.cq, fun a' fn' ph' hp => ?_⟩
    obtain ⟨rfl, hp'⟩ | ⟨-, hp⟩ := update_eq_some.1 hp
    · obtain ⟨rfl, rfl⟩ := Prod.mk.inj (Option.some.inj hp')
      trivial
    · exact h.poll a' fn' ph' hp
  | @poll a fn ph ha =>
    obtain ⟨hinv, hgoto, -⟩ := (h.poll a fn ph ha).next arch h.geom h.cq
    refine ⟨h.geom, hinv, fun a' fn' ph' hp => ?_⟩
    obtain ⟨rfl, hp'⟩ | ⟨-, hp⟩ := update_eq_some.1 hp
    · rcases hn : fn.next arch ⟨n, 0⟩ s.cq ph with ph₁ | st <;> rw [hn, after] at hp'
      · obtain ⟨rfl, rfl⟩ := Prod.mk.inj (Option.some.inj hp')
        exact hgoto _ hn
      · cases hp'
    · exact (h.poll a' fn' ph' hp).mono (ph.cqeCi_le_effect s.cq) (ph.produced_effect s.cq).ge
  | nic e hw he =>
    exact ⟨h.geom, h.cq.write hw he,
      fun a fn ph hp => (h.poll a fn ph hp).mono le_rfl (Nat.le_succ _)⟩

theorem reachable_inv {env : HostEnv} {arch : Arch} {n : ℕ} {s : Session A}
    (h : Reachable (Init env n) (Step arch n) s) : s.Inv n :=
  h.invariant (fun _ => Init.inv) fun _ _ => Inv.step

/-! ## Reports -/

/-- The status of a completion. -/
def Reported (status : ℤ) : Prop := status = 0 ∨ status = -eIo

theorem reported_cqeStatus (opown : BitVec 8) : Reported (cqeStatus opown) := by
  unfold cqeStatus
  split_ifs
  · exact .inr rfl
  · exact .inl rfl

theorem Reported.ne_eBusy {status : ℤ} (h : Reported status) : status ≠ eBusy := by
  rcases h with rfl | rfl <;> decide

section Snapshot

variable {n k : ℕ} {arch : Arch} {cq : CqState}

/-- What `poll_one_cq_at` answers on a snapshot, for an index from `cqe_ci` on. -/
theorem pollOne_snapshot (h : cq.Inv n) (hg : CqGeom n) (hlo : cq.cqeCi ≤ k) :
    privPollOneCqAt arch ⟨n, 0⟩ k cq.cqeCi cq.ring =
      if k < cq.cqeCi + n ∧ k < cq.produced then cqeStatus (cq.ring (k % n)).opOwn else eBusy := by
  have hci := h.ci_le
  have hslot : pollOneSlot ⟨n, 0⟩ k = k % n := PollFn.one.slot_eq hg k
  simp only [privPollOneCqAt, pollOneCi, hlo.not_gt, if_false, hslot]
  by_cases hw : cq.cqeCi + n ≤ k
  · rw [if_pos hw, if_neg fun hc => hw.not_gt hc.1, Option.getD_some]
  · have hobs := h.observed_iff arch hg hlo (by omega)
    rw [if_neg hw, Option.getD_none, pollOneCqe, loadOpown_eq]
    by_cases hk : k < cq.produced
    · simp [hobs.mpr hk, not_le.mp hw, hk]
    · simp [Bool.eq_false_iff.mpr fun hc => hk (hobs.mp hc), hk]

/-- What one iteration of `poll_cq_at` answers on a snapshot, for an index from `cqe_ci` on. -/
theorem pollAt_snapshot (h : cq.Inv n) (hg : CqGeom n) (hlo : cq.cqeCi ≤ k) :
    pollAtIter arch ⟨n, 0⟩ k cq.cqeCi cq.ring =
      if k < cq.cqeCi + n ∧ k < cq.produced then some (cqeStatus (cq.ring (k % n)).opOwn)
      else none := by
  have hci := h.ci_le
  have hslot : cqIdx ⟨n, 0⟩ k = k % n := PollFn.at.slot_eq hg k
  simp only [pollAtIter, pollAtCi, hlo.not_gt, if_false, hslot, Option.none_or, pollAtCqe,
    loadOpown_eq, hlo, true_and]
  by_cases hw : cq.cqeCi + n ≤ k
  · rw [if_pos (.inl hw), if_neg fun hc => hw.not_gt hc.1]
  · have hobs := h.observed_iff arch hg hlo (by omega)
    by_cases hk : k < cq.produced
    · rw [if_neg (by simp [hw, hobs.mpr hk]), if_pos ⟨by omega, hk⟩]
    · rw [if_pos (.inr (Bool.eq_false_iff.mpr fun hc => hk (hobs.mp hc))), if_neg fun hc => hk hc.2]

end Snapshot

omit [DecidableEq A]

/-- A completion inside the window is reported by a call that no other step interleaves. -/
theorem Inv.alone_reports {n k : ℕ} {s : Session A} (h : s.Inv n) (arch : Arch) (fn : PollFn)
    (hk : k < s.cq.produced) (hw : k < s.cq.cqeCi + n) :
    ∃ st, Reported st ∧ fn.alone arch ⟨n, 0⟩ 3 s.cq (.ci k) =
      some (st, { s.cq with cqeCi := pollDone k s.cq.cqeCi st }) := by
  rcases Nat.lt_or_ge k s.cq.cqeCi with hlt | hge
  · refine ⟨0, .inl rfl, PollFn.alone_privDone fn arch _ s.cq rfl ?_ 1⟩
    cases fn <;> simp only [PollFn.next, PollFn.ciCheck, pollOneCi, pollAtCi, if_pos hlt]
  · refine ⟨cqeStatus (s.cq.ring (k % n)).opOwn, reported_cqeStatus _, ?_⟩
    cases fn with
    | one =>
      rw [PollFn.alone_pollOne, pollOne_snapshot h.cq h.geom hge, if_pos ⟨hw, hk⟩]
    | «at» =>
      have hat := (privPollCqAt_succ arch ⟨n, 0⟩ k s.cq.cqeCi s.cq.ring 0).trans
        ((pollAt_snapshot h.cq h.geom hge).trans (if_pos ⟨hw, hk⟩))
      exact PollFn.alone_pollAt arch _ s.cq k hat

/-- The two architecture variants answer alike. -/
theorem Inv.arch_agree {n : ℕ} {s : Session A} (h : s.Inv n) (k : ℕ) :
    privPollOneCqAt .sm90 ⟨n, 0⟩ k s.cq.cqeCi s.cq.ring =
        privPollOneCqAt .preSm90 ⟨n, 0⟩ k s.cq.cqeCi s.cq.ring ∧
      ∀ fuel, privPollCqAt .sm90 ⟨n, 0⟩ k s.cq.cqeCi s.cq.ring fuel =
        privPollCqAt .preSm90 ⟨n, 0⟩ k s.cq.cqeCi s.cq.ring fuel := by
  have hiter : pollAtIter .sm90 ⟨n, 0⟩ k s.cq.cqeCi s.cq.ring =
      pollAtIter .preSm90 ⟨n, 0⟩ k s.cq.cqeCi s.cq.ring := by
    rcases Nat.lt_or_ge k s.cq.cqeCi with hlt | hge
    · simp [pollAtIter, pollAtCi, hlt]
    · rw [pollAt_snapshot h.cq h.geom hge, pollAt_snapshot h.cq h.geom hge]
  refine ⟨?_, fun fuel => ?_⟩
  · rcases Nat.lt_or_ge k s.cq.cqeCi with hlt | hge
    · simp [privPollOneCqAt, pollOneCi, hlt]
    · rw [pollOne_snapshot h.cq h.geom hge, pollOne_snapshot h.cq h.geom hge]
  · cases fuel with
    | zero => rfl
    | succ fuel => rw [privPollCqAt_succ, privPollCqAt_succ, hiter]

/-- **Polling within a session.** In every reachable state of any number of pollers and the NIC:
a call whose next step returns a completion of an index returns it after the NIC has written that
CQE; a CQE written and inside the window is reported by every call that no step interleaves; and
the two architecture variants give the same answer on the memory. -/
theorem poll_reports_written [DecidableEq A] {env : HostEnv} {arch : Arch} {n : ℕ} {s : Session A}
    (h : Reachable (Init env n) (Step arch n) s) :
    (∀ a fn ph st, s.poll a = some (fn, ph) → fn.next arch ⟨n, 0⟩ s.cq ph = .ret st →
      Reported st → ph.consIndex < s.cq.produced) ∧
    (∀ (fn : PollFn) k, k < s.cq.produced → k < s.cq.cqeCi + n →
      ∃ st, Reported st ∧ fn.alone arch ⟨n, 0⟩ 3 s.cq (.ci k) =
        some (st, { s.cq with cqeCi := pollDone k s.cq.cqeCi st })) ∧
    ∀ k, privPollOneCqAt .sm90 ⟨n, 0⟩ k s.cq.cqeCi s.cq.ring =
        privPollOneCqAt .preSm90 ⟨n, 0⟩ k s.cq.cqeCi s.cq.ring ∧
      ∀ fuel, privPollCqAt .sm90 ⟨n, 0⟩ k s.cq.cqeCi s.cq.ring fuel =
        privPollCqAt .preSm90 ⟨n, 0⟩ k s.cq.cqeCi s.cq.ring fuel := by
  have hinv := reachable_inv h
  refine ⟨fun a fn ph st ha hn hst => ?_, fun fn k hk hw => hinv.alone_reports arch fn hk hw,
    hinv.arch_agree⟩
  obtain ⟨-, -, hret⟩ := (hinv.poll a fn ph ha).next arch hinv.geom hinv.cq
  exact hret st hn hst.ne_eBusy

/-- A ring of four after one completion. -/
def oneWritten : Session Unit where
  cq := CqState.write 4 ⟨0, mlx5InitCqes 4 fun _ => zeroCqe, 0⟩ zeroCqe
  poll := fun _ => none

theorem reachable_oneWritten :
    Reachable (Init ⟨4096, 4194303⟩ 4) (Step .sm90 4) oneWritten := by
  have hinit : Init ⟨4096, 4194303⟩ 4
      (⟨⟨0, mlx5InitCqes 4 fun _ => zeroCqe, 0⟩, fun _ => none⟩ : Session Unit) :=
    ⟨if_pos (by decide), rfl, rfl, fun _ => rfl⟩
  exact (Reachable.start hinit).next (.nic zeroCqe (by decide) ⟨by decide, by decide⟩)

theorem oneWritten_reports :
    ∃ st, Reported st ∧ PollFn.at.alone .sm90 ⟨4, 0⟩ 3 oneWritten.cq (.ci 0) =
      some (st, { oneWritten.cq with cqeCi := pollDone 0 oneWritten.cq.cqeCi st }) :=
  (poll_reports_written reachable_oneWritten).2.1 .at 0 (by decide) (by decide)

end Session

end Gpunetio
