import Gpunetio.Qp.Safety

/-!
# One queue pair does not deadlock

Threads spin in three places: in `poll_cq_at`, for the baton and for `sq_lock`. A thread whose spin
the memory lets it leave, or which does not spin, moves.

* `Phase.Moves`, `Qp.Exec.of_moves`;
* `Qp.Inv.oldest_moves`, `Qp.Inv.lock_moves`: who moves in front of the baton and of the lock;
* `Qp.Inv.progress`: some thread moves or the NIC does;
* `Op`, `Run`: threads that run programs; **`Run.posts_never_deadlock`**.
-/

namespace Gpunetio

open Transition

variable {A : Type*} {cfg : QpConfig}

/-- The thread does not spin, or the memory lets it leave its spin. -/
def Phase.Moves (s : Qp A cfg) : Phase A cfg → Prop
  | poll _ (.atomicMax _) => True
  | poll _ ph => pollAtIter cfg.arch ⟨cfg.cqeNum, 0⟩ ph.consIndex s.cq.cqeCi s.cq.ring ≠ none
  | mark r => s.sqReadyIndex = r.base
  | lock _ => s.door.sqLock = false
  | _ => True

namespace Qp

variable {s s' : Qp A cfg} {a : A}

/-- A poll leaves its loop once the completion is written. -/
theorem Inv.poll_moves (h : s.Inv) {o : Option (Rsv A cfg)} {ph : PollPhase}
    (hk : ph.consIndex < s.cq.produced) (hw : ph.consIndex < s.cq.cqeCi + cfg.cqeNum) :
    (Phase.poll o ph).Moves s := by
  have hiter : pollAtIter cfg.arch ⟨cfg.cqeNum, 0⟩ ph.consIndex s.cq.cqeCi s.cq.ring ≠ none := by
    rcases Nat.lt_or_ge ph.consIndex s.cq.cqeCi with hlt | hge
    · simp [pollAtIter, pollAtCi, hlt]
    · rw [Session.pollAt_snapshot h.cq cfg.geom hge, if_pos ⟨hw, hk⟩]
      exact Option.some_ne_none _
  cases ph with
  | ci k => exact hiter
  | cqe k c => exact hiter
  | atomicMax k => trivial

/-- **The oldest reservation that is not ready**: its thread moves, or something older has still to
complete. Its slots are free once an older WQE has completed, which lies inside the window. -/
theorem Inv.oldest_moves (h : s.Inv) (hlt : s.sqReadyIndex < s.sqRsvdIndex) :
    (∃ b ph, s.phase b = some ph ∧ ph.openRsv ≠ none ∧ ph.Moves s) ∨
      s.cq.produced < s.sqReadyIndex := by
  obtain ⟨r, hr, hop, hbase⟩ := h.ledger.oldest hlt
  replace hbase : r.base = s.sqReadyIndex := hbase
  obtain ⟨ph, hph, hopen⟩ := Option.bind_eq_some_iff.1 hop
  have hmoves : ph.Moves s → (∃ b ph, s.phase b = some ph ∧ ph.openRsv ≠ none ∧ ph.Moves s) ∨
      s.cq.produced < s.sqReadyIndex := fun hm =>
    .inl ⟨_, ph, hph, hopen ▸ Option.some_ne_none r, hm⟩
  have hok := h.thread _ ph hph
  cases ph with
  | poll o ph =>
    obtain rfl : o = some r := hopen
    have hfor : ph.consIndex + cfg.sqWqeNum = r.last := hok.2
    have hlast := r.last_add_one
    have hstop := r.stop_le
    have hwin := h.ready_le
    have hN := cfg.le
    rcases Nat.lt_or_ge ph.consIndex s.cq.produced with hk | hk
    · exact hmoves (h.poll_moves hk (by omega))
    · exact .inr (by omega)
  | write r' l => exact hmoves trivial
  | mark r' =>
    obtain rfl : r' = r := Option.some.inj hopen
    exact hmoves hbase.symm
  | markStore r' => exact hmoves trivial
  | lock r' => cases hopen
  | submit r' st => cases hopen

/-- A held lock has a holder. -/
theorem Inv.holder (h : s.Inv) (hl : s.door.sqLock = true) :
    ∃ b r st, s.phase b = some (.submit r st) := by
  obtain ⟨b, c, st, hb⟩ := h.submits.locked hl
  obtain ⟨ph, hph, hcall⟩ := Option.bind_eq_some_iff.1 hb
  cases ph with
  | submit r st' => exact ⟨b, r, st', hph⟩
  | lock r => cases hcall
  | poll | write | mark | markStore => cases hcall

/-- A thread in front of the lock or within it lets some thread move. -/
theorem Inv.lock_moves (h : s.Inv) {ph : Phase A cfg} (ha : s.phase a = some ph)
    (hcall : ph.call ≠ none) : ∃ b ph, s.phase b = some ph ∧ ph.Moves s := by
  rcases hl : s.door.sqLock with _ | _
  · refine ⟨a, ph, ha, ?_⟩
    cases ph with
    | lock r => exact hl
    | submit r st => trivial
    | poll | write | mark | markStore => exact (hcall rfl).elim
  · obtain ⟨b, r, st, hb⟩ := h.holder hl
    exact ⟨b, _, hb, trivial⟩

/-- While the lock is free the NIC has been told of all that is submitted. -/
theorem Inv.rung_of_lt (h : s.Inv) (hl : s.door.sqLock = false) {i : ℕ}
    (hi : i < s.door.sqWqePi) : s.Rung i := by
  have hlast : s.door.doorbells.head?.getD 0 = s.door.sqWqePi := (h.submits.free hl).last
  cases hd : s.door.doorbells with
  | nil => rw [hd] at hlast; exact absurd hi (by simp [← hlast])
  | cons p l =>
    rw [hd] at hlast
    exact ⟨p, .inl (hd ▸ List.mem_cons_self), hi.trans_eq hlast.symm⟩

/-- Without a thread at the lock all that is ready is submitted, and nobody holds the lock. -/
theorem Inv.all_submitted (h : s.Inv) (hno : ∀ b ph, s.phase b = some ph → ph.call = none) :
    s.door.sqLock = false ∧ s.door.sqWqePi = s.sqReadyIndex := by
  constructor
  · rcases hl : s.door.sqLock with _ | _
    · rfl
    · obtain ⟨b, r, st, hb⟩ := h.holder hl
      cases hno b _ hb
  · refine le_antisymm h.ledger.submitted_le (not_lt.1 fun hlt => ?_)
    obtain ⟨r, -, hr⟩ := h.ledger.unsubmitted hlt
    obtain ⟨ph, hph, hready⟩ := Option.bind_eq_some_iff.1 hr
    have hcall := hno _ ph hph
    cases ph with
    | lock r' => cases hcall
    | submit r' st => cases hcall
    | poll | write | mark | markStore => cases hready

/-- **Some thread moves, or the NIC has a WQE to complete**, as long as a thread is within an
operation. -/
theorem Inv.progress (h : s.Inv) {ph : Phase A cfg} (ha : s.phase a = some ph) :
    (∃ b ph, s.phase b = some ph ∧ ph.Moves s) ∨ s.Rung s.cq.produced := by
  by_cases hcall : ∃ b ph, s.phase b = some ph ∧ ph.call ≠ none
  · obtain ⟨b, ph', hb, hc⟩ := hcall
    exact .inl (h.lock_moves hb hc)
  have hno : ∀ b ph, s.phase b = some ph → ph.call = none := fun b ph' hb => by
    by_contra hc
    exact hcall ⟨b, ph', hb, hc⟩
  obtain ⟨hl, hpi⟩ := h.all_submitted hno
  have hnic : s.cq.produced < s.sqReadyIndex → s.Rung s.cq.produced := fun hlt =>
    h.rung_of_lt hl (hpi ▸ hlt)
  rcases Nat.lt_or_ge s.sqReadyIndex s.sqRsvdIndex with hlt | hge
  · exact (h.oldest_moves hlt).imp (fun ⟨b, ph, hb, _, hm⟩ => ⟨b, ph, hb, hm⟩) hnic
  · -- nothing is open, so the thread waits for a ticket
    have hclosed : s.ledger.openRange a = none := by
      rcases ho : s.ledger.openRange a with _ | r
      · rfl
      · exact absurd (h.ledger.ready_lt ho) hge.not_gt
    have hopen : ph.openRsv = none := (openRange_of_phase ha).symm.trans hclosed
    have hok := h.thread a ph ha
    cases ph with
    | poll o ph =>
      obtain rfl : o = none := hopen
      have hticket : ph.consIndex < s.sqRsvdIndex := hok.2
      have hwin := h.ready_le
      have hN := cfg.le
      rcases Nat.lt_or_ge ph.consIndex s.cq.produced with hk | hk
      · exact .inl ⟨a, _, ha, h.poll_moves hk (by omega)⟩
      · exact .inr (hnic (by omega))
    | lock r => exact absurd (hno a _ ha) (Option.some_ne_none _)
    | submit r st => exact absurd (hno a _ ha) (Option.some_ne_none _)
    | write | mark | markStore => cases hopen

variable [DecidableEq A]

/-- A thread that moves has a step, and it leaves the place where the thread stands. -/
theorem Exec.of_moves {ph : Phase A cfg} (ha : s.phase a = some ph) (hm : ph.Moves s) :
    ∃ s', Exec a s s' ∧ s'.phase a ≠ some ph := by
  cases ph with
  | poll o ph =>
    refine ⟨_, .poll ha, (goto_phase_self ..).trans_ne ?_⟩
    rcases hn : PollFn.at.next cfg.arch ⟨cfg.cqeNum, 0⟩ s.cq ph with ph' | st
    · have hne : ph' ≠ ph := by
        rintro rfl
        cases ph' <;> simp only [PollFn.next] at hn <;> grind [privDone]
      simpa [polled] using hne
    · cases o <;> simp [polled]
  | write r l =>
    cases l with
    | nil => exact ⟨_, .stored ha, (goto_phase_self ..).trans_ne (by simp)⟩
    | cons x l => exact ⟨_, .store ha, (goto_phase_self ..).trans_ne (by simp)⟩
  | mark r =>
    rcases hmode : cfg.readyMode with _ | _
    · exact ⟨_, .markCas ha hmode hm, (goto_phase_self ..).trans_ne (by simp)⟩
    · exact ⟨_, .markLoad ha hmode hm, (goto_phase_self ..).trans_ne (by simp)⟩
  | markStore r => exact ⟨_, .markStore ha, (goto_phase_self ..).trans_ne (by simp)⟩
  | lock r => exact ⟨_, .lock ha hm, (goto_phase_self ..).trans_ne (by simp)⟩
  | submit r st =>
    refine ⟨_, .stage ha, (goto_phase_self ..).trans_ne ?_⟩
    cases st with
    | atomicMax => cases s.door.won (.db r.stop) <;> simp [Stage.next]
    | ringFirst | updateDbr | ringSecond | unlock => simp [Stage.next]

omit [DecidableEq A] in
/-- The NIC can complete what it has been told of. -/
theorem Nic.of_rung (hr : s.Rung s.cq.produced) :
    ∃ s', Nic s s' ∧ s'.cq.produced ≠ s.cq.produced := by
  obtain ⟨o, ho, hok⟩ : ∃ o : BitVec 8,
      (o &&& ownerMask != 0#8) = LapRing.lapBit cfg.cqeNum s.cq.produced ∧
        opcode o ≠ cqeReqErr := by
    cases LapRing.lapBit cfg.cqeNum s.cq.produced
    · exact ⟨0#8, by decide, by decide⟩
    · exact ⟨1#8, by decide, by decide⟩
  exact ⟨_, .complete ⟨BitVec.ofNat 16 s.cq.produced, 0#8, o⟩ hr ⟨ho, rfl⟩ hok, Nat.succ_ne_self _⟩

end Qp

/-! ## Programs -/

/-- An operation of a thread: it posts WQEs, which may depend on the index reserved; it waits for
the ticket of the post before `back` later ones of its own; or it waits for all that is reserved.
-/
inductive Op (cfg : QpConfig)
  | post (wqes : ℕ → List Wqe) (pos : ∀ base, 0 < (wqes base).length)
      (le : ∀ base, (wqes base).length ≤ cfg.sqWqeNum)
  | wait (back : ℕ)
  | waitAll

/-- A QP and the operations its threads have still to begin. -/
structure Run (A : Type*) (cfg : QpConfig) where
  qp : Qp A cfg
  prog : A → List (Op cfg)

namespace Run

variable [DecidableEq A]

/-- An idle thread begins an operation; a wait without a ticket returns at once. -/
def begin (a : A) (s : Qp A cfg) : Op cfg → Qp A cfg
  | .post wqes pos le => s.post ⟨a, s.sqRsvdIndex, wqes s.sqRsvdIndex, pos _, le _⟩
  | .wait back =>
    match (s.rsvs.filter fun r => r.agent = a)[back]? with
    | some r => s.wait a r.last
    | none => s
  | .waitAll => if s.sqRsvdIndex = 0 then s else s.wait a (s.sqRsvdIndex - 1)

omit [DecidableEq A] in
/-- A QP as created and any programs. -/
def Init (env : HostEnv) (s : Run A cfg) : Prop := s.qp.Init env

/-- **One step** of a thread, or (`none`) of the NIC. -/
inductive Step : Option A → Run A cfg → Run A cfg → Prop
  | begin {s : Run A cfg} (a : A) {op rest} (h : s.qp.phase a = none)
      (hp : s.prog a = op :: rest) :
      Step (some a) s ⟨Run.begin a s.qp op, Function.update s.prog a rest⟩
  | exec {s : Run A cfg} (a : A) {q} (h : Qp.Exec a s.qp q) : Step (some a) s { s with qp := q }
  | nic {s : Run A cfg} {q} (h : Qp.Nic s.qp q) : Step none s { s with qp := q }

omit [DecidableEq A] in
/-- The thread is within an operation or has still some to begin. -/
def Unfinished (s : Run A cfg) (a : A) : Prop := s.qp.phase a ≠ none ∨ s.prog a ≠ []

omit [DecidableEq A] in
/-- The thread is not in a spin, or in one the memory lets it leave. -/
def Moves (s : Run A cfg) (a : A) : Prop := ∀ ph, s.qp.phase a = some ph → ph.Moves s.qp

variable {s s' : Run A cfg}

theorem begin_step (a : A) (q : Qp A cfg) (hinv : q.Inv) (h : q.phase a = none) (op : Op cfg) :
    Relation.ReflTransGen Qp.Step q (begin a q op) := by
  cases op with
  | post wqes pos le => exact .single (.post _ h rfl)
  | wait back =>
    rw [begin]
    split
    · rename_i r hr
      have hmem : r ∈ q.rsvs := (List.mem_filter.1 (List.mem_of_getElem? hr)).1
      have hle : r.stop ≤ q.sqRsvdIndex := hinv.ledger.chain.hi_le hmem
      have := r.last_add_one
      exact .single (.wait a _ h (by omega))
    · exact .refl
  | waitAll =>
    rw [begin]
    split
    · exact .refl
    · exact .single (.wait a _ h (by omega))

/-- The QP of a run is a QP. -/
theorem reachable_qp {env : HostEnv}
    (h : Reachable (Init env) (fun s s' : Run A cfg => ∃ l, Step l s s') s) :
    Reachable (Qp.Init env) Qp.Step s.qp := by
  refine h.simulate Run.qp (fun _ hi => hi) fun s s' _ hr hs => ?_
  obtain ⟨l, hs⟩ := hs
  cases hs with
  | begin a ha hp => exact begin_step a s.qp (Qp.reachable_inv hr) ha _
  | exec a hs => exact .single (.exec a hs)
  | nic hs => exact .single (.nic hs)

/-- **No deadlock.** In every reachable state in which some thread is unfinished, a step is enabled
that changes the state: of a thread that moves, or of the NIC. -/
theorem posts_never_deadlock {env : HostEnv}
    (h : Reachable (Init env) (fun s s' : Run A cfg => ∃ l, Step l s s') s)
    (hu : ∃ a, s.Unfinished a) :
    ∃ l s', Step l s s' ∧ s' ≠ s ∧ ∀ b, l = some b → s.Moves b := by
  have hinv := Qp.reachable_inv (reachable_qp h)
  obtain ⟨a, hu⟩ := hu
  rcases hph : s.qp.phase a with _ | ph
  · obtain ⟨op, rest, hp⟩ := List.exists_cons_of_ne_nil (hu.resolve_left (not_not.2 hph))
    refine ⟨some a, _, .begin a hph hp, fun heq => ?_, fun b hb ph hb' => ?_⟩
    · exact absurd (congrArg (fun t => t.prog a) heq) (by simp [hp])
    · obtain rfl := Option.some.inj hb
      rw [hph] at hb'
      cases hb'
  · obtain ⟨b, ph', hb, hm⟩ | hrung := hinv.progress hph
    · obtain ⟨q, hs, hne⟩ := Qp.Exec.of_moves hb hm
      refine ⟨some b, _, .exec b hs, fun heq => hne ?_, fun b' hb' ph'' hph'' => ?_⟩
      · exact (congrArg (fun t => t.qp.phase b) heq).trans hb
      · obtain rfl := Option.some.inj hb'
        obtain rfl := Option.some.inj (hb.symm.trans hph'')
        exact hm
    · obtain ⟨q, hs, hne⟩ := Qp.Nic.of_rung hrung
      exact ⟨none, _, .nic hs, fun heq => hne (congrArg (fun t => t.qp.cq.produced) heq),
        fun b hb => nomatch hb⟩

/-- Two threads that have still to post a NOP each. -/
def twoPosts : Run Bool Qp.fourSlots :=
  ⟨Qp.fresh Bool, fun _ => [.post (fun base => [wqePrepareNop ⟨1#32, 2#32⟩ base ctrlCqUpdate])
    (fun _ => Nat.one_pos) fun _ => (by decide : 1 ≤ 4)]⟩

/-- The second thread spins for the baton of the first, which has stored nothing yet. -/
theorem twoPosts_moves :
    ∃ s : Run Bool Qp.fourSlots,
      Reachable (Init ⟨4096, 4194303⟩) (fun s s' : Run Bool Qp.fourSlots => ∃ l, Step l s s') s ∧
      ¬ s.Moves true ∧ ∃ l s', Step l s s' ∧ s' ≠ s ∧ ∀ b, l = some b → s.Moves b := by
  have h₀ : Reachable (Init ⟨4096, 4194303⟩)
      (fun s s' : Run Bool Qp.fourSlots => ∃ l, Step l s s') twoPosts :=
    .start (Qp.init_fresh Bool)
  have h₁ := h₀.next ⟨_, Step.begin false rfl rfl⟩
  have h₂ := h₁.next ⟨_, Step.begin true rfl rfl⟩
  have h₃ := h₂.next ⟨_, Step.exec true (.store rfl)⟩
  have h₄ := h₃.next ⟨_, Step.exec true (.stored rfl)⟩
  have hspin : ¬ (0 : ℕ) = 1 := Nat.zero_ne_one
  refine ⟨_, h₄, fun hm => hspin (hm _ rfl), ?_⟩
  exact posts_never_deadlock h₄ ⟨true, .inl (Option.some_ne_none _)⟩

end Run

end Gpunetio
