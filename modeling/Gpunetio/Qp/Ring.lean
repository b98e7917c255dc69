import Gpunetio.Qp.Model

/-!
# The invariant of a queue pair

What holds in every reachable state of one QP, under any interleaving of its threads and the NIC.

* `Qp.ledger`: the reservations with `sq_rsvd_index`, `sq_ready_index` and `sq_wqe_pi` as counters;
* `Qp.submits`: the submissions as a `SubmitSys`;
* `Phase.Ok`, `Qp.RsvOk`: what a thread knows, and what holds of a reservation;
* `Qp.Inv`, one lemma for each operation, `Qp.Inv.step`, **`Qp.reachable_inv`**.
-/

namespace Gpunetio

open Transition

variable {A : Type*} {cfg : QpConfig}

namespace Phase

/-- The reservation the thread has not marked ready yet. -/
def openRsv : Phase A cfg → Option (Rsv A cfg)
  | poll o _ => o
  | write r _ => some r
  | mark r => some r
  | markStore r => some r
  | _ => none

/-- The reservation the thread has marked ready and `sq_wqe_pi` may not cover yet. -/
def readyRsv : Phase A cfg → Option (Rsv A cfg)
  | lock r => some r
  | submit r .atomicMax => some r
  | _ => none

/-- The submission under way. -/
def call : Phase A cfg → Option (SubmitCall × Option Stage)
  | lock r => some (.db r.stop, none)
  | submit r st => some (.db r.stop, some st)
  | _ => none

/-- The reservation a thread works on. -/
def rsv : Phase A cfg → Option (Rsv A cfg)
  | poll o _ => o
  | write r _ => some r
  | mark r => some r
  | markStore r => some r
  | lock r => some r
  | submit r _ => some r

/-- The stores still to come. -/
def todo : Phase A cfg → List (ℕ × ℕ × Seg)
  | poll (some r) _ => r.stores
  | write _ l => l
  | _ => []

/-- What one access makes of a thread's place: it keeps an open reservation or marks it ready, or it
goes on within a wait for a ticket, takes the lock, or executes a stage. -/
inductive Next : Phase A cfg → Option (Phase A cfg) → Prop
  | keep {ph ph' r} (h : ph.openRsv = some r) (h' : ph'.openRsv = some r) : Next ph (some ph')
  | mark {ph r} (h : ph.openRsv = some r) : Next ph (some (lock r))
  | ticket {p o} : Next (poll none p) o
  | lock {r} : Next (lock r) (some (submit r .atomicMax))
  | stage {r st} (won : Bool) : Next (submit r st) ((st.next won).map (submit r))

theorem rsv_of_openRsv {ph : Phase A cfg} {r : Rsv A cfg} (h : ph.openRsv = some r) :
    ph.rsv = some r := by
  cases ph <;> first | exact h | cases h

end Phase

namespace Qp

/-- The reservations of a QP. -/
def ledger (s : Qp A cfg) : Ledger A (Rsv A cfg) where
  rsvd := s.sqRsvdIndex
  ready := s.sqReadyIndex
  submitted := s.door.sqWqePi
  ranges := s.rsvs
  openRange := fun a => (s.phase a).bind Phase.openRsv
  readyRange := fun a => (s.phase a).bind Phase.readyRsv

/-- The submissions on a QP. -/
def submits (s : Qp A cfg) : SubmitSys A where
  door := s.door
  call := fun a => (s.phase a).bind Phase.call
  calls := {p | ∃ r ∈ s.rsvs, r.stop ≤ s.sqReadyIndex ∧ r.stop = p}

end Qp

/-- What a thread knows. -/
def Phase.Ok (s : Qp A cfg) : Phase A cfg → Prop
  | poll o ph => ph.Ok cfg.cqeNum .at s.cq ∧
      match o with
      | some r => ph.consIndex + cfg.sqWqeNum = r.last
      | none => ph.consIndex < s.sqRsvdIndex
  | write r l => ∀ x ∈ l, x ∈ r.stores
  | markStore r => s.sqReadyIndex = r.base
  | _ => True

theorem Phase.Ok.mono {s s' : Qp A cfg} {ph : Phase A cfg} (h : ph.Ok s)
    (hr : ∀ r, ph = .markStore r → s'.sqReadyIndex = s.sqReadyIndex)
    (hrsvd : s.sqRsvdIndex ≤ s'.sqRsvdIndex) (hci : s.cq.cqeCi ≤ s'.cq.cqeCi)
    (hp : s.cq.produced ≤ s'.cq.produced) : ph.Ok s' := by
  cases ph with
  | poll o ph =>
    refine ⟨h.1.mono hci hp, ?_⟩
    cases o with
    | some r => exact h.2
    | none => exact h.2.trans_le hrsvd
  | write r l => exact h
  | markStore r => exact (hr r rfl).trans h
  | mark r => trivial
  | lock r => trivial
  | submit r st => trivial

namespace Qp

/-- A reservation is backed by completions unless its agent still waits for them, and its segments
are stored unless its agent is still to do it. -/
structure RsvOk (s : Qp A cfg) (r : Rsv A cfg) : Prop where
  freed : r.stop ≤ s.cq.cqeCi + cfg.sqWqeNum ∨ ∃ ph, s.phase r.agent = some (.poll (some r) ph)
  stored : ∀ x ∈ r.stores, s.written x.1 x.2.1 = some (r.agent, x.2.2) ∨
    ∃ ph, s.phase r.agent = some ph ∧ ph.openRsv = some r ∧ x ∈ ph.todo

/-- **The invariant.** -/
structure Inv (s : Qp A cfg) : Prop where
  ledger : s.ledger.Inv Rsv.base Rsv.stop Rsv.agent
  submits : s.submits.Inv cfg.qpnDs
  cq : s.cq.Inv cfg.cqeNum
  clean : ∀ i < cfg.cqeNum, opcode (s.cq.ring i).opOwn ≠ cqeReqErr
  produced_le : s.cq.produced ≤ s.door.sqWqePi
  thread : ∀ a ph, s.phase a = some ph → ph.Ok s
  rsv : ∀ r ∈ s.rsvs, s.RsvOk r
  cell : ∀ i j k seg, s.wq i j = some (k, seg) →
    i = k % cfg.sqWqeNum ∧ k < s.cq.cqeCi + cfg.sqWqeNum
  kept : ∀ k j a seg, s.written k j = some (a, seg) → s.cq.produced ≤ k →
    s.wq (k % cfg.sqWqeNum) j = some (k, seg)

section Basic

variable {s s' : Qp A cfg} {a : A} {o : Option (Phase A cfg)} {ph : Phase A cfg} {r : Rsv A cfg}

theorem openRange_of_phase (h : s.phase a = some ph) : s.ledger.openRange a = ph.openRsv := by
  simp [Qp.ledger, h]

theorem readyRange_of_phase (h : s.phase a = some ph) : s.ledger.readyRange a = ph.readyRsv := by
  simp [Qp.ledger, h]

theorem call_of_phase (h : s.phase a = some ph) : s.submits.call a = ph.call := by
  simp [Qp.submits, h]

theorem Init.inv {env : HostEnv} (h : Init env s) : s.Inv where
  ledger := .init h.sqRsvdIndex h.sqReadyIndex h.door.sqWqePi h.rsvs
    (fun a => by simp [Qp.ledger, h.phase]) (fun a => by simp [Qp.ledger, h.phase])
  submits := .init ⟨h.door, fun a => by simp [Qp.submits, h.phase], by simp [Qp.submits, h.rsvs]⟩
  cq := .init (createCq_eq_some h.ring).2.2 h.cqeCi h.produced
  clean := by
    intro i hi
    rw [(createCq_eq_some h.ring).2.2 i hi]
    decide
  produced_le := by rw [h.produced]; exact Nat.zero_le _
  thread := by simp [h.phase]
  rsv := by simp [h.rsvs]
  cell := by simp [h.wq]
  kept := by simp [h.written]

/-- A reservation its agent has marked ready is backed and stored. -/
theorem RsvOk.settled (h : s.RsvOk r) (ho : s.ledger.openRange r.agent ≠ some r) :
    r.stop ≤ s.cq.cqeCi + cfg.sqWqeNum ∧
      ∀ x ∈ r.stores, s.written x.1 x.2.1 = some (r.agent, x.2.2) := by
  refine ⟨h.freed.resolve_right ?_, fun x hx => (h.stored x hx).resolve_right ?_⟩
  · rintro ⟨ph, hph⟩
    exact ho (openRange_of_phase hph)
  · rintro ⟨ph, hph, hopen, -⟩
    exact ho ((openRange_of_phase hph).trans hopen)

/-- A step that leaves the agent of a reservation where it is, or concerns another reservation. -/
theorem RsvOk.frame (h : s.RsvOk r) (hci : s.cq.cqeCi ≤ s'.cq.cqeCi)
    (hw : ∀ x ∈ r.stores, s'.written x.1 x.2.1 = s.written x.1 x.2.1)
    (hph : s'.phase r.agent = s.phase r.agent ∨ s.ledger.openRange r.agent ≠ some r) :
    s'.RsvOk r := by
  obtain hph | hopen := hph
  · refine ⟨h.freed.imp (fun hle => hle.trans (by omega)) fun ⟨ph, hp⟩ => ⟨ph, hph.trans hp⟩,
      fun x hx => ?_⟩
    rw [hw x hx, hph]
    exact h.stored x hx
  · obtain ⟨hfree, hst⟩ := h.settled hopen
    exact ⟨.inl (hfree.trans (by omega)), fun x hx => .inl ((hw x hx).trans (hst x hx))⟩

/-- What is below `sq_ready_index` is backed by completions. -/
theorem Inv.ready_le (h : s.Inv) : s.sqReadyIndex ≤ s.cq.cqeCi + cfg.sqWqeNum := by
  rcases Nat.eq_zero_or_pos s.sqReadyIndex with h0 | hpos
  · omega
  · obtain ⟨r, hr, hri, hle⟩ := h.ledger.ready_range (i := s.sqReadyIndex - 1)
      (show s.sqReadyIndex - 1 < s.sqReadyIndex by omega)
    have := ((h.rsv r hr).settled (h.ledger.not_open hr hle _)).1
    omega

theorem Inv.produced_le_ready (h : s.Inv) : s.cq.produced ≤ s.sqReadyIndex :=
  h.produced_le.trans h.ledger.submitted_le

/-- The NIC has been told of nothing above `sq_wqe_pi`. -/
theorem Inv.lt_of_rung (h : s.Inv) {i : ℕ} (hi : s.Rung i) : i < s.door.sqWqePi := by
  obtain ⟨p, hp | hp, hip⟩ := hi
  · exact hip.trans_le (h.submits.ordered.doorbells_le p hp)
  · exact hip.trans_le (h.submits.ordered.records_le p hp)

/-- An idle thread holds nothing. -/
theorem idle_ledger (h : s.phase a = none) :
    s.ledger.openRange a = none ∧ s.ledger.readyRange a = none ∧ s.submits.call a = none := by
  simp [Qp.ledger, Qp.submits, h]

theorem openRsv_reserved (r : Rsv A cfg) : (reserved r).openRsv = some r := by
  unfold reserved; split <;> rfl

theorem readyRsv_reserved (r : Rsv A cfg) : (reserved r).readyRsv = none := by
  unfold reserved; split <;> rfl

theorem call_reserved (r : Rsv A cfg) : (reserved r).call = none := by
  unfold reserved; split <;> rfl

theorem todo_reserved (r : Rsv A cfg) : (reserved r).todo = r.stores := by
  unfold reserved; split <;> rfl

theorem reserved_ok (s : Qp A cfg) (r : Rsv A cfg) : (reserved r).Ok s := by
  unfold reserved
  split
  · exact ⟨trivial, Nat.sub_add_cancel ‹_›⟩
  · exact fun x hx => hx

/-- Submissions do not see a reservation that is not ready. -/
theorem submits_post (h : s.sqReadyIndex < r.stop) :
    submits { s with sqRsvdIndex := r.stop, rsvs := r :: s.rsvs } = s.submits := by
  simp only [Qp.submits, SubmitSys.mk.injEq, true_and]
  ext p
  simp only [Set.mem_ofPred_eq, List.mem_cons, exists_eq_or_imp, or_iff_right_iff_imp]
  exact fun hr => absurd hr.1 h.not_ge

variable [DecidableEq A]

theorem ledger_goto (s : Qp A cfg) (a : A) (o : Option (Phase A cfg)) :
    (s.goto a o).ledger =
      { s.ledger with
        openRange := Function.update s.ledger.openRange a (o.bind Phase.openRsv)
        readyRange := Function.update s.ledger.readyRange a (o.bind Phase.readyRsv) } := by
  simp only [Qp.ledger, goto, Ledger.mk.injEq, true_and]
  exact ⟨Function.comp_update (Option.bind · Phase.openRsv) s.phase a o,
    Function.comp_update (Option.bind · Phase.readyRsv) s.phase a o⟩

theorem submits_goto (s : Qp A cfg) (a : A) (o : Option (Phase A cfg)) :
    (s.goto a o).submits =
      { s.submits with call := Function.update s.submits.call a (o.bind Phase.call) } := by
  simp only [Qp.submits, goto, SubmitSys.mk.injEq, true_and, and_true]
  exact Function.comp_update (Option.bind · Phase.call) s.phase a o

/-- A move between phases that hold the same reservation. -/
theorem ledger_goto_same (ho : o.bind Phase.openRsv = s.ledger.openRange a)
    (hr : o.bind Phase.readyRsv = s.ledger.readyRange a) : (s.goto a o).ledger = s.ledger := by
  rw [ledger_goto, ho, hr, Function.update_eq_self, Function.update_eq_self]

theorem submits_goto_same (hc : o.bind Phase.call = s.submits.call a) :
    (s.goto a o).submits = s.submits := by
  rw [submits_goto, hc, Function.update_eq_self]

theorem forall_goto {P : Phase A cfg → Prop} (ho : ∀ ph, o = some ph → P ph)
    (hs : ∀ b ph, b ≠ a → s.phase b = some ph → P ph) :
    ∀ b ph, (s.goto a o).phase b = some ph → P ph := by
  intro b ph hb
  obtain ⟨-, hb⟩ | ⟨hba, hb⟩ := update_eq_some.1 hb
  · exact ho ph hb
  · exact hs b ph hba hb

theorem goto_phase_self (s : Qp A cfg) (a : A) (o : Option (Phase A cfg)) :
    (s.goto a o).phase a = o := Function.update_self ..

theorem goto_phase_of_ne {b : A} (h : b ≠ a) : (s.goto a o).phase b = s.phase b :=
  Function.update_of_ne h ..

end Basic

section Steps

variable [DecidableEq A] {s s' : Qp A cfg} {a : A} {r : Rsv A cfg}

/-! ## Threads outside the lock -/

theorem Inv.post (h : s.Inv) (ha : s.phase r.agent = none) (hb : r.base = s.sqRsvdIndex) :
    (s.post r).Inv := by
  obtain ⟨hopen, hready, hcall⟩ := idle_ledger ha
  have hlt : s.sqReadyIndex < r.stop := by
    have hle : s.sqReadyIndex ≤ s.sqRsvdIndex := h.ledger.ready_le
    have := r.lt_stop
    omega
  rw [Qp.post]
  refine
    { ledger := ?_
      submits := ?_
      cq := h.cq
      clean := h.clean
      produced_le := h.produced_le
      thread := ?_
      rsv := ?_
      cell := h.cell
      kept := h.kept }
  · have hres := h.ledger.reserve hopen rfl hb r.lt_stop
    rw [ledger_goto, Option.bind_some, openRsv_reserved, Option.bind_some, readyRsv_reserved]
    convert hres using 1
    exact congrArg _ ((congrArg _ hready.symm).trans (Function.update_eq_self ..))
  · rw [submits_goto_same (by rw [Option.bind_some, call_reserved, submits_post hlt, hcall]),
      submits_post hlt]
    exact h.submits
  · refine forall_goto (fun ph hph => ?_) fun b ph _ hph => ?_
    · obtain rfl := Option.some.inj hph
      exact reserved_ok _ r
    · refine (h.thread b ph hph).mono (fun _ _ => rfl) ?_ le_rfl le_rfl
      exact hb ▸ r.lt_stop.le
  · intro r' hr'
    obtain rfl | hr' := List.mem_cons.1 hr'
    · refine ⟨?_, fun x hx => .inr ⟨_, goto_phase_self .., openRsv_reserved r', ?_⟩⟩
      · by_cases hN : cfg.sqWqeNum ≤ r'.last
        · refine .inr ⟨.ci (r'.last - cfg.sqWqeNum), (goto_phase_self ..).trans ?_⟩
          rw [reserved, if_pos hN]
        · have := r'.last_add_one
          exact .inl (by simp only [goto]; omega)
      · rwa [todo_reserved]
    · refine (h.rsv r' hr').frame le_rfl (fun _ _ => rfl) ?_
      rcases eq_or_ne r'.agent r.agent with heq | hne
      · exact .inr (by rw [heq, hopen]; exact Option.some_ne_none r' ∘ Eq.symm)
      · exact .inl (goto_phase_of_ne hne)

/-- A move of one thread that changes neither its reservation nor the memory. -/
theorem Inv.move (h : s.Inv) {o : Option (Phase A cfg)}
    (hopen : o.bind Phase.openRsv = s.ledger.openRange a)
    (hready : o.bind Phase.readyRsv = s.ledger.readyRange a)
    (hcall : o.bind Phase.call = s.submits.call a) (hok : ∀ ph, o = some ph → ph.Ok s)
    (hrsv : ∀ r ∈ s.rsvs, r.agent = a → s.ledger.openRange a = some r → (s.goto a o).RsvOk r) :
    (s.goto a o).Inv where
  ledger := by rw [ledger_goto_same hopen hready]; exact h.ledger
  submits := by rw [submits_goto_same hcall]; exact h.submits
  cq := h.cq
  clean := h.clean
  produced_le := h.produced_le
  thread := forall_goto hok fun b ph _ hph => h.thread b ph hph
  rsv := by
    intro r hr
    by_cases hra : r.agent = a
    · by_cases hop : s.ledger.openRange a = some r
      · exact hrsv r hr hra hop
      · exact (h.rsv r hr).frame le_rfl (fun _ _ => rfl) (.inr (hra ▸ hop))
    · exact (h.rsv r hr).frame le_rfl (fun _ _ => rfl) (.inl (goto_phase_of_ne hra))
  cell := h.cell
  kept := h.kept

/-- The same for a thread that goes on to another phase. -/
theorem Inv.moveTo (h : s.Inv) {ph ph' : Phase A cfg} (ha : s.phase a = some ph)
    (hopen : ph'.openRsv = ph.openRsv) (hready : ph'.readyRsv = ph.readyRsv)
    (hcall : ph'.call = ph.call) (hok : ph'.Ok s)
    (hrsv : ∀ r ∈ s.rsvs, r.agent = a → ph.openRsv = some r →
      (s.goto a (some ph')).RsvOk r) :
    (s.goto a (some ph')).Inv := by
  have hop := openRange_of_phase ha
  refine h.move (hopen.trans hop.symm) (hready.trans (readyRange_of_phase ha).symm)
    (hcall.trans (call_of_phase ha).symm) (fun q hq => ?_) fun r hr hra hor => ?_
  · obtain rfl := Option.some.inj hq
    exact hok
  · exact hrsv r hr hra (hop.symm.trans hor)

theorem Inv.wait (h : s.Inv) (ha : s.phase a = none) {k : ℕ} (hk : k < s.sqRsvdIndex) :
    (s.wait a k).Inv := by
  obtain ⟨hopen, hready, hcall⟩ := idle_ledger ha
  refine h.move hopen.symm hready.symm hcall.symm (fun ph hph => ?_) fun r _ _ hr => ?_
  · obtain rfl := Option.some.inj hph
    exact ⟨trivial, hk⟩
  · rw [hopen] at hr
    cases hr

omit [DecidableEq A] in
/-- A poll's only write keeps the invariant. -/
theorem Inv.effect (h : s.Inv) {ph : PollPhase} (hcq : (ph.effect s.cq).Inv cfg.cqeNum) :
    Inv { s with cq := ph.effect s.cq } := by
  have hci := ph.cqeCi_le_effect s.cq
  have hp := ph.produced_effect s.cq
  have hring : (ph.effect s.cq).ring = s.cq.ring := by cases ph <;> rfl
  exact
    { ledger := h.ledger
      submits := h.submits
      cq := hcq
      clean := fun i hi => hring ▸ h.clean i hi
      produced_le := hp.trans_le h.produced_le
      thread := fun b ph' hb => (h.thread b ph' hb).mono (fun _ _ => rfl) le_rfl hci hp.ge
      rsv := fun r hr => (h.rsv r hr).frame hci (fun _ _ => rfl) (.inl rfl)
      cell := fun i j k seg hw =>
        ⟨(h.cell i j k seg hw).1, (h.cell i j k seg hw).2.trans_le (by simpa using hci)⟩
      kept := fun k j b seg hw hk => h.kept k j b seg hw (hp.symm.trans_le hk) }

theorem consIndex_of_goto {cq : CqState} {ph ph' : PollPhase}
    (h : PollFn.at.next cfg.arch ⟨cfg.cqeNum, 0⟩ cq ph = .goto ph') :
    ph'.consIndex = ph.consIndex := by
  have hdone : ∀ {k st}, privDone k st = .goto ph' → ph'.consIndex = k := fun {k st} hd => by
    obtain ⟨-, rfl⟩ := privDone_eq_goto hd
    rfl
  cases ph with
  | ci k =>
    simp only [PollFn.next] at h
    split at h
    · exact hdone h
    · exact (PollOut.goto.inj h) ▸ rfl
  | cqe k c =>
    simp only [PollFn.next] at h
    split at h
    · exact hdone h
    · exact (PollOut.goto.inj h) ▸ rfl
  | atomicMax k => cases h

omit [DecidableEq A] in
/-- Without error CQEs a poll returns only after it has raised `cqe_ci`. -/
theorem Inv.atomicMax_of_ret {s : Qp A cfg} (h : s.Inv) {ph : PollPhase} {st : ℤ}
    (hret : PollFn.at.next cfg.arch ⟨cfg.cqeNum, 0⟩ s.cq ph = .ret st) :
    ∃ k, ph = .atomicMax k := by
  cases ph with
  | ci k =>
    simp only [PollFn.next, PollFn.ciCheck, pollAtCi] at hret
    split_ifs at hret
    all_goals cases hret
  | cqe k c =>
    have hslot := PollFn.at.slot_eq cfg.geom k
    have hok := h.clean (k % cfg.cqeNum) (Nat.mod_lt _ cfg.geom.pos)
    simp only [PollFn.next, PollFn.cqeCheck, pollAtCqe, hslot, loadOpown_eq, cqeStatus, hok,
      if_false] at hret
    split_ifs at hret
    all_goals cases hret
  | atomicMax k => exact ⟨k, rfl⟩

theorem Inv.poll (h : s.Inv) {o : Option (Rsv A cfg)} {ph : PollPhase}
    (ha : s.phase a = some (.poll o ph)) :
    (goto a (polled o (PollFn.at.next cfg.arch ⟨cfg.cqeNum, 0⟩ s.cq ph))
      { s with cq := ph.effect s.cq }).Inv := by
  obtain ⟨hph, hfor⟩ := h.thread a _ ha
  obtain ⟨hcq, hgoto, -⟩ := hph.next cfg.arch cfg.geom h.cq
  have hopen : s.ledger.openRange a = o := openRange_of_phase ha
  have hready : s.ledger.readyRange a = none := readyRange_of_phase ha
  have hcall : s.submits.call a = none := call_of_phase ha
  rcases hn : PollFn.at.next cfg.arch ⟨cfg.cqeNum, 0⟩ s.cq ph with ph' | st
  · refine (h.effect hcq).moveTo ha rfl rfl rfl ⟨hgoto ph' hn, ?_⟩ fun r hr hra hop => ?_
    · rw [consIndex_of_goto hn]
      exact hfor
    · obtain rfl : o = some r := hop
      subst hra
      exact ⟨.inr ⟨ph', goto_phase_self ..⟩, fun x hx => .inr ⟨_, goto_phase_self .., rfl, hx⟩⟩
  · obtain ⟨k, rfl⟩ := h.atomicMax_of_ret hn
    refine (h.effect hcq).move ?_ ?_ ?_ ?_ fun r hr hra hop => ?_
    · exact (by cases o <;> rfl : (polled o (.ret st)).bind Phase.openRsv = o).trans hopen.symm
    · exact (by cases o <;> rfl : (polled o (.ret st)).bind Phase.readyRsv = none).trans hready.symm
    · exact (by cases o <;> rfl : (polled o (.ret st)).bind Phase.call = none).trans hcall.symm
    · intro q hq
      cases o with
      | none => cases hq
      | some r =>
        obtain rfl := Option.some.inj hq
        exact fun x hx => hx
    · obtain rfl : o = some r := hopen.symm.trans hop
      subst hra
      refine ⟨.inl ?_, fun x hx => .inr ⟨_, goto_phase_self .., rfl, hx⟩⟩
      -- the CQE polled for is that of the WQE last in the newest slot reserved
      have hlast : k + cfg.sqWqeNum = r.last := hfor
      have hstop := r.last_add_one
      have hci : k + 1 ≤ (PollPhase.effect s.cq (.atomicMax k)).cqeCi := le_max_right _ _
      simp only [goto]
      omega

omit [DecidableEq A] in
/-- A thread that stores does so in slots that are free: its indices are not ready, and what the
slots held before has completed. -/
theorem Inv.writing (h : s.Inv) {l : List (ℕ × ℕ × Seg)} (ha : s.phase a = some (.write r l)) :
    r ∈ s.rsvs ∧ r.agent = a ∧ s.sqReadyIndex ≤ r.base ∧
      r.stop ≤ s.cq.cqeCi + cfg.sqWqeNum := by
  obtain ⟨hr, rfl, hle⟩ := h.ledger.isOpen a r (openRange_of_phase ha)
  refine ⟨hr, rfl, hle, (h.rsv r hr).freed.resolve_right ?_⟩
  rintro ⟨ph, hph⟩
  rw [ha] at hph
  cases hph

omit [DecidableEq A] in
/-- The indices a thread stores to lie in one window with all that has not completed. -/
theorem Inv.window (h : s.Inv) {x : ℕ × ℕ × Seg} {l : List (ℕ × ℕ × Seg)}
    (ha : s.phase a = some (.write r l)) (hx : x ∈ r.stores) :
    s.cq.produced ≤ x.1 ∧ x.1 < s.cq.cqeCi + cfg.sqWqeNum := by
  obtain ⟨-, -, hle, hstop⟩ := h.writing ha
  have := Rsv.lt_of_mem_stores hx
  have := h.produced_le_ready
  omega

omit [DecidableEq A] in
theorem written_store (s : Qp A cfg) (a : A) (x : ℕ × ℕ × Seg) (i j : ℕ) :
    (s.store a x).written i j =
      if i = x.1 ∧ j = x.2.1 then some (a, x.2.2) else s.written i j := by
  simp only [store, Function.update_apply]
  by_cases hi : i = x.1
  · subst hi
    by_cases hj : j = x.2.1 <;> simp [hj]
  · simp [hi]

omit [DecidableEq A] in
theorem wq_store (s : Qp A cfg) (a : A) (x : ℕ × ℕ × Seg) (i j : ℕ) :
    (s.store a x).wq i j =
      if i = x.1 % cfg.sqWqeNum ∧ j = x.2.1 then some (x.1, x.2.2) else s.wq i j := by
  simp only [store, Function.update_apply, cfg.slot_eq]
  by_cases hi : i = x.1 % cfg.sqWqeNum
  · subst hi
    by_cases hj : j = x.2.1 <;> simp [hj]
  · simp [hi]

omit [DecidableEq A] in
/-- The memory after a store. -/
theorem Inv.store_mem (h : s.Inv) {x : ℕ × ℕ × Seg} {l : List (ℕ × ℕ × Seg)}
    (ha : s.phase a = some (.write r l)) (hx : x ∈ r.stores) : (s.store a x).Inv := by
  obtain ⟨hr, rfl, -, -⟩ := h.writing ha
  obtain ⟨hxp, hxw⟩ := h.window ha hx
  refine
    { ledger := h.ledger
      submits := h.submits
      cq := h.cq
      clean := h.clean
      produced_le := h.produced_le
      thread := h.thread
      rsv := ?_
      cell := ?_
      kept := ?_ }
  · intro r' hr'
    obtain ⟨hfree, hst⟩ := h.rsv r' hr'
    refine ⟨hfree, fun y hy => (hst y hy).imp_left fun hw => ?_⟩
    rw [written_store]
    split
    · rename_i heq
      obtain rfl : r' = r := h.ledger.chain.unique hr' hr
        (heq.1 ▸ Rsv.lt_of_mem_stores hy) (Rsv.lt_of_mem_stores hx)
      obtain ⟨i, j, g⟩ := x
      obtain ⟨i', j', g'⟩ := y
      obtain ⟨rfl, rfl⟩ := heq
      rw [Rsv.stores_inj hx hy]
    · exact hw
  · intro i j k seg hw
    rw [wq_store] at hw
    split at hw
    · rename_i heq
      obtain ⟨rfl, rfl⟩ := Prod.mk.inj (Option.some.inj hw)
      exact ⟨heq.1, hxw⟩
    · exact h.cell i j k seg hw
  · intro k j b seg hw hk
    rw [written_store] at hw
    rw [wq_store]
    split at hw
    · rename_i heq
      obtain ⟨-, rfl⟩ := Prod.mk.inj (Option.some.inj hw)
      rw [heq.1, heq.2, if_pos ⟨rfl, rfl⟩]
    · rename_i hne
      have hold := h.kept k j b seg hw hk
      rw [if_neg, hold]
      rintro ⟨hslot, rfl⟩
      -- a WQE not completed yet shares its slot with none that is being written
      have hk' : s.cq.produced ≤ k := hk
      have hci := h.cq.ci_le
      have hkw := (h.cell _ _ _ _ hold).2
      exact hne ⟨LapRing.eq_of_mod_eq ⟨by omega, hkw⟩ ⟨by omega, hxw⟩ hslot, rfl⟩

theorem Inv.store (h : s.Inv) {x : ℕ × ℕ × Seg} {l : List (ℕ × ℕ × Seg)}
    (ha : s.phase a = some (.write r (x :: l))) :
    ((s.store a x).goto a (some (.write r l))).Inv := by
  have hsub : ∀ y ∈ x :: l, y ∈ r.stores := h.thread a _ ha
  obtain ⟨hr, rfl, -, hstop⟩ := h.writing ha
  refine (h.store_mem ha (hsub x List.mem_cons_self)).moveTo ha rfl rfl rfl
    (fun y hy => hsub y (List.mem_cons_of_mem _ hy)) fun r' hr' hra hop => ?_
  obtain rfl : r = r' := Option.some.inj hop
  refine ⟨.inl hstop, fun y hy => ?_⟩
  obtain hw | ⟨ph, hph, -, hy'⟩ := (h.rsv r hr).stored y hy
  · refine .inl ((written_store ..).trans ?_)
    split
    · rename_i heq
      obtain ⟨i, j, g⟩ := x
      obtain ⟨i', j', g'⟩ := y
      obtain ⟨rfl, rfl⟩ := heq
      rw [Rsv.stores_inj (hsub _ List.mem_cons_self) hy]
    · exact hw
  · rw [ha] at hph
    cases hph
    obtain rfl | hy' := List.mem_cons.1 hy'
    · exact .inl ((written_store ..).trans (if_pos ⟨rfl, rfl⟩))
    · exact .inr ⟨_, goto_phase_self .., rfl, hy'⟩

theorem Inv.stored (h : s.Inv) (ha : s.phase a = some (.write r [])) :
    (s.goto a (some (.mark r))).Inv := by
  obtain ⟨hr, rfl, -, hstop⟩ := h.writing ha
  refine h.moveTo ha rfl rfl rfl trivial fun r' hr' hra hop => ?_
  obtain rfl : r = r' := Option.some.inj hop
  refine ⟨.inl hstop, fun y hy => .inl (((h.rsv r hr).stored y hy).resolve_right ?_)⟩
  rintro ⟨ph, hph, -, hy'⟩
  rw [ha] at hph
  cases hph
  cases hy'

omit [DecidableEq A] in
/-- A thread that has stored its segments and not marked them ready. -/
theorem Inv.marking (h : s.Inv) {ph : Phase A cfg} (ha : s.phase a = some ph)
    (hph : ph = .mark r ∨ ph = .markStore r) :
    r ∈ s.rsvs ∧ r.agent = a ∧ s.ledger.openRange a = some r ∧ s.ledger.readyRange a = none ∧
      s.submits.call a = none ∧ r.stop ≤ s.cq.cqeCi + cfg.sqWqeNum ∧
      ∀ x ∈ r.stores, s.written x.1 x.2.1 = some (r.agent, x.2.2) := by
  have hop : s.ledger.openRange a = some r :=
    (openRange_of_phase ha).trans (by obtain rfl | rfl := hph <;> rfl)
  obtain ⟨hr, rfl, -⟩ := h.ledger.isOpen a r hop
  refine ⟨hr, rfl, hop, ?_, ?_, (h.rsv r hr).freed.resolve_right ?_,
    fun x hx => ((h.rsv r hr).stored x hx).resolve_right ?_⟩
  · exact (readyRange_of_phase ha).trans (by obtain rfl | rfl := hph <;> rfl)
  · exact (call_of_phase ha).trans (by obtain rfl | rfl := hph <;> rfl)
  · rintro ⟨q, hq⟩
    rw [ha] at hq
    obtain rfl | rfl := hph <;> cases hq
  · rintro ⟨q, hq, -, hx'⟩
    rw [ha] at hq
    obtain rfl | rfl := hph <;> cases hq <;> cases hx'

theorem Inv.markLoad (h : s.Inv) (ha : s.phase a = some (.mark r))
    (hready : s.sqReadyIndex = r.base) : (s.goto a (some (.markStore r))).Inv := by
  obtain ⟨-, rfl, -, -, -, hstop, hst⟩ := h.marking ha (.inl rfl)
  refine h.moveTo ha rfl rfl rfl hready fun r' hr' hra hop => ?_
  obtain rfl : r = r' := Option.some.inj hop
  exact ⟨.inl hstop, fun x hx => .inl (hst x hx)⟩

/-- Passing the baton: the submission of the thread begins. -/
theorem submits_mark (h : s.Inv) (hop : s.ledger.openRange a = some r)
    (hready : s.sqReadyIndex = r.base) :
    submits (goto a (some (.lock r)) { s with sqReadyIndex := r.stop }) =
      s.submits.begin fun b => if b = a then some (.db r.stop) else none := by
  obtain ⟨hr, -, -⟩ := h.ledger.isOpen a r hop
  rw [submits_goto]
  simp only [Qp.submits, SubmitSys.begin, SubmitSys.mk.injEq, true_and, Option.bind_some,
    Phase.call]
  constructor
  · funext b
    by_cases hba : b = a
    · subst hba; simp
    · simp [hba]
  · ext p
    simp only [Set.mem_ofPred_eq, Set.mem_union]
    constructor
    · rintro ⟨r', hr', hle, rfl⟩
      obtain rfl | hap | hap := h.ledger.chain.apart hr' hr
      · exact .inr ⟨a, .db r'.stop, by simp, rfl⟩
      · exact .inl ⟨r', hr', hready ▸ hap, rfl⟩
      · have := r'.lt_stop
        omega
    · rintro (⟨r', hr', hle, rfl⟩ | ⟨b, c, hc, rfl⟩)
      · refine ⟨r', hr', hle.trans ?_, rfl⟩
        exact hready ▸ r.lt_stop.le
      · obtain ⟨-, ⟨⟩⟩ := Option.ite_none_right_eq_some.1 hc
        exact ⟨r, hr, le_rfl, rfl⟩

theorem Inv.mark (h : s.Inv) {ph : Phase A cfg} (ha : s.phase a = some ph)
    (hph : ph = .mark r ∨ ph = .markStore r) (hready : s.sqReadyIndex = r.base) :
    (goto a (some (.lock r)) { s with sqReadyIndex := r.stop }).Inv := by
  obtain ⟨hr, rfl, hop, hrd, hcall, hstop, hst⟩ := h.marking ha hph
  refine
    { ledger := ?_
      submits := ?_
      cq := h.cq
      clean := h.clean
      produced_le := h.produced_le
      thread := ?_
      rsv := ?_
      cell := h.cell
      kept := h.kept }
  · rw [ledger_goto]
    exact h.ledger.mark hop hready hrd
  · rw [submits_mark h hop hready]
    refine h.submits.call fun b c hc => ?_
    obtain ⟨rfl, -⟩ := Option.ite_none_right_eq_some.1 hc
    exact hcall
  · refine forall_goto (fun q hq => ?_) fun b q hb hq => ?_
    · obtain rfl := Option.some.inj hq
      trivial
    · refine (h.thread b q hq).mono (fun r' hq' => ?_) le_rfl le_rfl le_rfl
      -- no other thread has seen its turn: the baton is at one reservation only
      subst hq'
      obtain ⟨hr', rfl, -⟩ := h.marking hq (.inr rfl)
      have hb' : s.sqReadyIndex = r'.base := h.thread _ _ hq
      have heq : r' = r := h.ledger.chain.unique hr' hr (i := s.sqReadyIndex)
        ⟨hb'.ge, hb' ▸ r'.lt_stop⟩ ⟨hready.ge, hready ▸ r.lt_stop⟩
      exact (hb (congrArg Rsv.agent heq)).elim
  · intro r' hr'
    by_cases hra : r'.agent = r.agent
    · by_cases heq : r' = r
      · subst heq
        exact ⟨.inl hstop, fun x hx => .inl (hst x hx)⟩
      · refine (h.rsv r' hr').frame le_rfl (fun _ _ => rfl) (.inr ?_)
        rw [hra, hop]
        exact fun hc => heq (Option.some.inj hc).symm
    · exact (h.rsv r' hr').frame le_rfl (fun _ _ => rfl) (.inl (goto_phase_of_ne hra))

/-! ## Threads in front of or within the lock, and the NIC -/

/-- A move of a thread without an open reservation that writes only the doorbell words. -/
theorem Inv.moveDoor (h : s.Inv) {o : Option (Phase A cfg)} {d : Door}
    (hopen : s.ledger.openRange a = none)
    (hledger : (goto a o { s with door := d }).ledger.Inv Rsv.base Rsv.stop Rsv.agent)
    (hsubmits : (goto a o { s with door := d }).submits.Inv cfg.qpnDs)
    (hpi : s.door.sqWqePi ≤ d.sqWqePi) (hok : ∀ ph, o = some ph → ph.call ≠ none) :
    (goto a o { s with door := d }).Inv where
  ledger := hledger
  submits := hsubmits
  cq := h.cq
  clean := h.clean
  produced_le := h.produced_le.trans hpi
  thread := by
    refine forall_goto (fun ph hph => ?_) fun b ph _ hph =>
      (h.thread b ph hph).mono (fun _ _ => rfl) le_rfl le_rfl le_rfl
    have := hok ph hph
    cases ph <;> trivial
  rsv := by
    intro r hr
    refine (h.rsv r hr).frame le_rfl (fun _ _ => rfl) ?_
    by_cases hra : r.agent = a
    · exact .inr (by rw [hra, hopen]; exact (Option.some_ne_none r).symm)
    · exact .inl (goto_phase_of_ne hra)
  cell := h.cell
  kept := h.kept

theorem Inv.lock (h : s.Inv) (ha : s.phase a = some (.lock r)) (hl : s.door.sqLock = false) :
    (goto a (some (.submit r .atomicMax))
      { s with door := { s.door with sqLock := true } }).Inv := by
  have hopen : s.ledger.openRange a = none := openRange_of_phase ha
  have hready : s.ledger.readyRange a = some r := readyRange_of_phase ha
  have hcall : s.submits.call a = some (.db r.stop, none) := call_of_phase ha
  refine h.moveDoor hopen ?_ ?_ le_rfl ?_
  · have hsame : (s.goto a (some (.submit r .atomicMax))).ledger = s.ledger :=
      ledger_goto_same hopen.symm hready.symm
    exact hsame.symm ▸ h.ledger
  · rw [submits_goto]
    exact h.submits.acquire hcall hl
  · intro ph hph
    obtain rfl := Option.some.inj hph
    exact Option.some_ne_none _

/-- What a stage does to the ledger: `atomic_max` submits the reservation. -/
theorem Inv.stage_ledger (h : s.Inv) {st : Stage} (ha : s.phase a = some (.submit r st)) :
    (goto a ((st.next (s.door.won (.db r.stop))).map (.submit r))
      { s with door := s.door.exec cfg.qpnDs (.db r.stop) st }).ledger.Inv
        Rsv.base Rsv.stop Rsv.agent := by
  have hopen : s.ledger.openRange a = none := openRange_of_phase ha
  have hno : ∀ o : Option Stage, (o.map (Phase.submit r)).bind Phase.openRsv = none := by
    rintro (_ | st) <;> rfl
  rw [ledger_goto, hno]
  by_cases hst : st = .atomicMax
  · subst hst
    have hready : s.ledger.readyRange a = some r := readyRange_of_phase ha
    have hnext : ∀ w, ((Stage.next w .atomicMax).map (Phase.submit r)).bind Phase.readyRsv =
        none := by
      rintro (_ | _) <;> rfl
    rw [hnext]
    convert h.ledger.submit hready using 1
    exact congrArg₂ _ ((congrArg _ hopen.symm).trans (Function.update_eq_self ..)) rfl
  · have hready : s.ledger.readyRange a = none := by
      rw [readyRange_of_phase ha]
      cases st <;> first | exact (hst rfl).elim | rfl
    have hnext : ∀ w, ((st.next w).map (Phase.submit r)).bind Phase.readyRsv = none := by
      intro w
      cases st <;> first | exact (hst rfl).elim | rfl
    have hpi : (s.door.exec cfg.qpnDs (.db r.stop) st).sqWqePi = s.door.sqWqePi :=
      (SubmitSys.exec_sqWqePi).resolve_right fun hc => hst hc.1
    rw [hnext]
    convert h.ledger using 1
    simp only [Qp.ledger] at hopen hready ⊢
    rw [hpi, ← hopen, Function.update_eq_self, hopen, ← hready, Function.update_eq_self]

theorem Inv.stage (h : s.Inv) {st : Stage} (ha : s.phase a = some (.submit r st)) :
    (goto a ((st.next (s.door.won (.db r.stop))).map (.submit r))
      { s with door := s.door.exec cfg.qpnDs (.db r.stop) st }).Inv := by
  have hopen : s.ledger.openRange a = none := openRange_of_phase ha
  have hcall : s.submits.call a = some (.db r.stop, some st) := call_of_phase ha
  refine h.moveDoor hopen (h.stage_ledger ha) ?_ Door.sqWqePi_le_exec ?_
  · have hbind : ∀ o : Option Stage, (o.map (Phase.submit r)).bind Phase.call =
        o.map fun st' => (.db r.stop, some st') := by
      rintro (_ | _) <;> rfl
    rw [submits_goto, hbind]
    exact h.submits.exec hcall
  · intro ph hph
    obtain ⟨st', -, rfl⟩ := Option.map_eq_some_iff.1 hph
    exact Option.some_ne_none _

omit [DecidableEq A] in
/-- The NIC has room for its next CQE. -/
theorem Inv.produced_lt (h : s.Inv) (hr : s.Rung s.cq.produced) :
    s.cq.produced < s.cq.cqeCi + cfg.cqeNum := by
  have hlt := h.lt_of_rung hr
  have hle : s.door.sqWqePi ≤ s.sqReadyIndex := h.ledger.submitted_le
  have := h.ready_le
  have := cfg.le
  omega

omit [DecidableEq A] in
theorem Inv.nic (h : s.Inv) {e : Cqe64} (hr : s.Rung s.cq.produced)
    (he : IsCqe cfg.cqeNum s.cq.produced e) (hok : opcode e.opOwn ≠ cqeReqErr) :
    Inv { s with cq := s.cq.write cfg.cqeNum e } where
  ledger := h.ledger
  submits := h.submits
  cq := h.cq.write (h.produced_lt hr) he
  clean := by
    intro i hi
    simp only [CqState.write, Function.update_apply]
    split
    · exact hok
    · exact h.clean i hi
  produced_le := h.lt_of_rung hr
  thread := fun b ph hb => (h.thread b ph hb).mono (fun _ _ => rfl) le_rfl le_rfl (Nat.le_succ _)
  rsv := fun r hr => (h.rsv r hr).frame le_rfl (fun _ _ => rfl) (.inl rfl)
  cell := h.cell
  kept := fun k j b seg hw hk => h.kept k j b seg hw ((Nat.le_succ _).trans hk)

/-- One access moves the thread's place only. -/
theorem Exec.next (hs : Exec a s s') :
    (∃ ph, s.phase a = some ph ∧ ph.Next (s'.phase a)) ∧ ∀ b, b ≠ a → s'.phase b = s.phase b := by
  cases hs with
  | @poll o ph ha =>
    refine ⟨⟨_, ha, ?_⟩, fun b hb => goto_phase_of_ne hb⟩
    rw [goto_phase_self]
    cases o with
    | none => exact .ticket
    | some r => cases PollFn.at.next cfg.arch ⟨cfg.cqeNum, 0⟩ s.cq ph <;> exact .keep rfl rfl
  | store ha | stored ha | markLoad ha =>
    refine ⟨⟨_, ha, ?_⟩, fun b hb => goto_phase_of_ne hb⟩
    rw [goto_phase_self]
    exact .keep rfl rfl
  | markCas ha | markStore ha =>
    refine ⟨⟨_, ha, ?_⟩, fun b hb => goto_phase_of_ne hb⟩
    rw [goto_phase_self]
    exact .mark rfl
  | lock ha =>
    refine ⟨⟨_, ha, ?_⟩, fun b hb => goto_phase_of_ne hb⟩
    rw [goto_phase_self]
    exact .lock
  | stage ha =>
    refine ⟨⟨_, ha, ?_⟩, fun b hb => goto_phase_of_ne hb⟩
    rw [goto_phase_self]
    exact .stage _

/-- One access reserves nothing and lowers neither `sq_ready_index` nor `sq_wqe_pi`. -/
theorem Inv.exec_mono (h : s.Inv) (hs : Exec a s s') :
    s'.rsvs = s.rsvs ∧ s.sqReadyIndex ≤ s'.sqReadyIndex ∧ s.door.sqWqePi ≤ s'.door.sqWqePi := by
  cases hs with
  | @markCas r ha _ hr => exact ⟨rfl, hr ▸ r.lt_stop.le, le_rfl⟩
  | @markStore r ha =>
    have hb : s.sqReadyIndex = r.base := h.thread a _ ha
    exact ⟨rfl, hb ▸ r.lt_stop.le, le_rfl⟩
  | stage ha => exact ⟨rfl, le_rfl, Door.sqWqePi_le_exec⟩
  | poll | store | stored | markLoad | lock => exact ⟨rfl, le_rfl, le_rfl⟩

theorem Inv.exec (h : s.Inv) (hs : Exec a s s') : s'.Inv := by
  cases hs with
  | poll ha => exact h.poll ha
  | store ha => exact h.store ha
  | stored ha => exact h.stored ha
  | markCas ha _ hr => exact h.mark ha (.inl rfl) hr
  | markLoad ha _ hr => exact h.markLoad ha hr
  | markStore ha => exact h.mark ha (.inr rfl) (h.thread a _ ha)
  | lock ha hl => exact h.lock ha hl
  | stage ha => exact h.stage ha

/-- **Every step keeps the invariant.** -/
theorem Inv.step (h : s.Inv) (hs : Step s s') : s'.Inv := by
  cases hs with
  | post r ha hb => exact h.post ha hb
  | wait a k ha hk => exact h.wait ha hk
  | exec a hs => exact h.exec hs
  | nic hs =>
    cases hs with
    | complete e hr he hok => exact h.nic hr he hok

theorem reachable_inv {env : HostEnv} (h : Reachable (Init env) Step s) : s.Inv :=
  h.invariant (fun _ => Init.inv) fun _ _ => Inv.step

end Steps

end Qp

end Gpunetio
