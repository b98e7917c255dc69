import Gpunetio.Pair.Link

/-!
# A pair does not deadlock

The order that breaks every cycle: a thread within the companion's lock does not wait; a thread
within the main lock waits for the companion's lock only; the oldest open companion reservation
waits for companion WQEs whose main WQEs have been submitted; and the oldest open main reservation,
once no companion reservation is open, waits for main WQEs that have been submitted.

* `Pair.Inv.comp_holder_moves`, `Pair.Inv.main_holder_moves`, `Pair.Inv.main_lock_moves`: the locks;
* `Pair.Inv.comp_progress`: the open companion reservations and the WAITs;
* `Pair.Inv.progress`; **`Pair.counters_never_deadlock`**.
-/

namespace Gpunetio

open Transition

variable {A : Type*} {cfg : PairConfig}

namespace Pair

variable {s s' : Pair A cfg} {a : A}

/-- Some thread within an operation moves. -/
def SomeMoves (s : Pair A cfg) : Prop := ∃ b, s.turn b ≠ none ∧ s.Moves b

/-- A thread at its turn on the main QP. -/
theorem someMoves_main {m : Phase A cfg.main} (hm : s.main.phase a = some m)
    (ht : s.turn a = some .main) (hmoves : m.Moves s.main) : s.SomeMoves := by
  refine ⟨a, ht ▸ Option.some_ne_none _, ?_⟩
  rw [Moves, ht]
  intro ph hph
  obtain rfl : m = ph := Option.some.inj (hm.symm.trans hph)
  exact hmoves

/-- A thread at its turn on the companion QP. -/
theorem someMoves_comp {c : Phase A cfg.comp} (hc : s.comp.phase a = some c)
    (ht : s.turn a = some .comp) (hmoves : c.Moves s.comp) : s.SomeMoves := by
  refine ⟨a, ht ▸ Option.some_ne_none _, ?_⟩
  rw [Moves, ht]
  intro ph hph
  obtain rfl : c = ph := Option.some.inj (hc.symm.trans hph)
  exact hmoves

/-- The companion's lock is not held by a thread that waits. -/
theorem Inv.comp_holder_moves (h : s.Inv) {r : Rsv A cfg.comp} {st : Stage}
    (hc : s.comp.phase a = some (.submit r st)) : s.SomeMoves := by
  have hcoup := h.coupled a
  rw [hc] at hcoup
  obtain hm | ⟨rm, st', hm⟩ := coupled_comp_submit.1 hcoup
  · exact someMoves_comp hc (by rw [turn, hm, hc]; rfl) trivial
  · cases hst : st.isFirst with
    | true => exact someMoves_comp hc (by rw [turn, hm, hc]; simp [Gpunetio.turn, hst]) trivial
    | false => exact someMoves_main hm (by rw [turn, hm, hc]; simp [Gpunetio.turn, hst]) trivial

/-- A thread that holds the main lock moves, or waits for a thread that holds the companion's. -/
theorem Inv.main_holder_moves (h : s.Inv) {r : Rsv A cfg.main} {st : Stage}
    (hm : s.main.phase a = some (.submit r st)) : s.SomeMoves := by
  have hcoup := h.coupled a
  rw [hm] at hcoup
  obtain ⟨rc, hc⟩ | ⟨rc, st', hc⟩ := coupled_main_submit.1 hcoup
  · cases hst : st.isFirst with
    | true => exact someMoves_main hm (by rw [turn, hm, hc]; simp [Gpunetio.turn, hst]) trivial
    | false =>
      rcases hl : s.comp.door.sqLock with _ | _
      · exact someMoves_comp hc (by rw [turn, hm, hc]; simp [Gpunetio.turn, hst]) hl
      · obtain ⟨b, rb, stb, hb⟩ := h.comp.holder hl
        exact h.comp_holder_moves hb
  · exact h.comp_holder_moves hc

/-- A thread in front of the main lock that is done with the companion's baton, or has not begun
there. -/
theorem Inv.main_lock_moves (h : s.Inv) {r : Rsv A cfg.main} (hm : s.main.phase a = some (.lock r))
    (hc : s.comp.phase a = none ∨ ∃ rc, s.comp.phase a = some (.lock rc)) : s.SomeMoves := by
  obtain hc | ⟨rc, hc⟩ := hc
  · have ht : s.turn a = some .reserve := by rw [turn, hm, hc]; rfl
    exact ⟨a, ht ▸ Option.some_ne_none _, by rw [Moves, ht]; trivial⟩
  · rcases hl : s.main.door.sqLock with _ | _
    · exact someMoves_main hm (by rw [turn, hm, hc]; rfl) hl
    · obtain ⟨b, rb, stb, hb⟩ := h.main.holder hl
      exact h.main_holder_moves hb

/-- If nobody moves, no thread is in front of or within the companion's lock, nor within the main
one. -/
theorem Inv.stuck (h : s.Inv) (hno : ¬ s.SomeMoves) :
    (∀ b c, s.comp.phase b = some c → c.call = none) ∧
      ∀ b r st, s.main.phase b ≠ some (.submit r st) := by
  have hmain : ∀ b r st, s.main.phase b ≠ some (.submit r st) := fun b r st hb =>
    hno (h.main_holder_moves hb)
  refine ⟨fun b c hc => ?_, hmain⟩
  cases c with
  | submit r st => exact (hno (h.comp_holder_moves hc)).elim
  | lock r =>
    have hcoup := h.coupled b
    rw [hc] at hcoup
    obtain ⟨rm, hm⟩ | ⟨rm, st, hm⟩ := coupled_comp_lock.1 hcoup
    · exact (hno (h.main_lock_moves hm (.inr ⟨r, hc⟩))).elim
    · exact (hmain b rm st hm).elim
  | poll | write | mark | markStore => rfl

/-- The NIC reads a companion WQE as its thread stored it. -/
theorem Inv.nextWqe_eq (h : s.Inv) (hr : s.comp.Rung s.comp.cq.produced) :
    ∃ rc ∈ s.comp.rsvs, (rc.base ≤ s.comp.cq.produced ∧ s.comp.cq.produced < rc.stop) ∧
      ∀ w g₀ g₁, rc.wqes[s.comp.cq.produced - rc.base]? = some w → w[0]? = some g₀ →
        w[1]? = some g₁ → s.nextWqe = [g₀, g₁] := by
  obtain ⟨rc, hrc, hri, hst⟩ := h.comp.rung_stored hr
  refine ⟨rc, hrc, hri, fun w g₀ g₁ hw h₀ h₁ => ?_⟩
  have hg₀ := (hst 0 g₀ (Rsv.mem_stores.2 ⟨hri.1, w, hw, h₀⟩)).2 le_rfl
  have hg₁ := (hst 1 g₁ (Rsv.mem_stores.2 ⟨hri.1, w, hw, h₁⟩)).2 le_rfl
  simp [nextWqe, hg₀, hg₁]

/-- A companion WQE is a WAIT for the last CQE of the linked main reservation, or no WAIT. -/
theorem Inv.waitIndex_nextWqe (h : s.Inv) (hr : s.comp.Rung s.comp.cq.produced) :
    ∃ rc rm, s.Linked rc rm ∧ (rc.base ≤ s.comp.cq.produced ∧ rc ∈ s.comp.rsvs) ∧
      ∀ cqNum idx, waitIndex s.nextWqe = some (cqNum, idx) →
        cqNum = cfg.mainQp.cqNum ∧ idx = rm.last % 2 ^ 32 := by
  obtain ⟨rc, hrc, ⟨hlo, hhi⟩, hnext⟩ := h.nextWqe_eq hr
  obtain ⟨rm, hlink⟩ := h.link rc hrc
  obtain ⟨call, hlast, hwqes⟩ := hlink.wqes
  refine ⟨rc, rm, hlink, ⟨hlo, hrc⟩, fun cqNum idx hidx => ?_⟩
  have hlen : rc.wqes.length = 2 := by rw [hwqes]; rfl
  have hcase : s.comp.cq.produced - rc.base = 0 ∨ s.comp.cq.produced - rc.base = 1 := by
    simp only [Rsv.stop] at hhi
    omega
  rw [hwqes] at hnext
  obtain hk | hk := hcase <;> rw [hk] at hnext
  · have hw := hnext _ _ _ rfl rfl rfl
    have hwait := waitIndex_wqePrepareWait cfg.compQp rc.base ctrlCqUpdate
      (call.op.lastWqeIdx rm.base) cfg.mainQp.cqNum
    rw [wqePrepareWait] at hwait
    rw [hw] at hidx
    obtain ⟨rfl, rfl⟩ := Prod.mk.inj (Option.some.inj (hwait.symm.trans hidx))
    exact ⟨rfl, by rw [hlast]⟩
  · have hw := hnext _ _ _ rfl rfl rfl
    rw [hw] at hidx
    cases hidx

/-- What the NIC can do. -/
def NicMoves (s : Pair A cfg) : Prop :=
  s.main.Rung s.main.cq.produced ∨ s.comp.Rung s.comp.cq.produced ∧ s.Released

/-- **Open companion reservations.** The oldest one moves, or the next companion WQE is one the NIC
may execute, or the WAIT that holds it names a main WQE the NIC has been told of. -/
theorem Inv.comp_progress (h : s.Inv) (hno : ¬ s.SomeMoves)
    (hlt : s.comp.sqReadyIndex < s.comp.sqRsvdIndex) : s.NicMoves := by
  obtain ⟨hcomp, hmain⟩ := h.stuck hno
  obtain ⟨hl, hpi⟩ := h.comp.all_submitted hcomp
  obtain ⟨b, c, hc, hop, hm⟩ | hp := h.comp.oldest_moves hlt
  · -- its thread is in front of the main lock, so its turn is on the companion
    obtain ⟨r, hr⟩ := Option.ne_none_iff_exists'.1 hop
    have hcoup := h.coupled b
    rw [hc] at hcoup
    obtain ⟨rm, hmb⟩ := (coupled_comp_open hr).1 hcoup
    refine (hno (someMoves_comp hc ?_ hm)).elim
    rw [turn, hmb, hc]
    cases c <;> first | rfl | cases hr
  · have hrung : s.comp.Rung s.comp.cq.produced := h.comp.rung_of_lt hl (hpi ▸ hp)
    obtain ⟨rc, rm, hlink, ⟨hlo, hrc⟩, hwait⟩ := h.waitIndex_nextWqe hrung
    have hsub : rm.stop ≤ s.main.door.sqWqePi := hlink.rung.resolve_right <| by
      rintro ⟨⟨c, hc, hheld⟩, -⟩
      have hcall := hcomp _ c hc
      have hopen : c.openRsv = some rc := by
        cases c <;> first | exact hheld | cases hcall
      have hle := (h.comp.ledger.isOpen rc.agent rc ((Qp.openRange_of_phase hc).trans hopen)).2.2
      exact absurd (hle.trans hlo) hp.not_ge
    have hlast := rm.last_add_one
    rcases Nat.lt_or_ge rm.last s.main.cq.produced with hdone | hwaits
    · refine .inr ⟨hrung, fun cqNum idx hidx => ?_⟩
      obtain ⟨hcq, rfl⟩ := hwait cqNum idx hidx
      exact ⟨hcq, rm.last, hdone, rfl⟩
    · have hfree : s.main.door.sqLock = false := by
        rcases hml : s.main.door.sqLock with _ | _
        · rfl
        · obtain ⟨b, r, st, hb⟩ := h.main.holder hml
          exact (hmain b r st hb).elim
      exact .inl (h.main.rung_of_lt hfree (by omega))

/-- With no companion reservation open a thread that does not move is not on the companion, and is
not in front of the main lock. -/
theorem Inv.main_open (h : s.Inv) (hno : ¬ s.SomeMoves)
    (hle : s.comp.sqRsvdIndex ≤ s.comp.sqReadyIndex) (b : A) :
    s.comp.phase b = none ∧ ∀ m, s.main.phase b = some m → m.openRsv ≠ none := by
  obtain ⟨hcomp, -⟩ := h.stuck hno
  have hcoup := h.coupled b
  have hnone : s.comp.phase b = none := by
    rcases hc : s.comp.phase b with _ | c
    · rfl
    · have hcall := hcomp b c hc
      have hclosed : c.openRsv = none := by
        rcases ho : c.openRsv with _ | r
        · rfl
        · have hop : s.comp.ledger.openRange b = some r := (Qp.openRange_of_phase hc).trans ho
          exact absurd (h.comp.ledger.ready_lt hop) hle.not_gt
      rw [hc] at hcoup
      cases c with
      | lock | submit => cases hcall
      | poll o ph =>
        obtain rfl : o = none := hclosed
        rcases hm : s.main.phase b with _ | (_ | _ | _ | _ | _ | _) <;> rw [hm] at hcoup <;>
          first | exact hcoup.elim | exact (hcoup rfl).elim
      | write | mark | markStore => cases hclosed
  refine ⟨hnone, fun m hm => ?_⟩
  rw [hnone, hm] at hcoup
  cases m with
  | lock r => exact (hno (h.main_lock_moves hm (.inl hnone))).elim
  | submit r st => exact (hcoup rfl).elim
  | poll | write | mark | markStore => exact hcoup

/-- **Some thread moves, or the NIC does**, as long as a thread is within an operation. -/
theorem Inv.progress (h : s.Inv) (ha : s.turn a ≠ none) : s.SomeMoves ∨ s.NicMoves := by
  by_cases hno : s.SomeMoves
  · exact .inl hno
  rcases Nat.lt_or_ge s.comp.sqReadyIndex s.comp.sqRsvdIndex with hlt | hge
  · exact .inr (h.comp_progress hno hlt)
  have hopen := h.main_open hno hge
  -- so the thread has an open main reservation, and the oldest of these decides
  obtain ⟨m, hm⟩ : ∃ m, s.main.phase a = some m := by
    rcases hm : s.main.phase a with _ | m
    · exact absurd (turn_eq_none.2 ⟨hm, (hopen a).1⟩) ha
    · exact ⟨m, rfl⟩
  obtain ⟨r, hr⟩ := Option.ne_none_iff_exists'.1 ((hopen a).2 m hm)
  have hlt : s.main.sqReadyIndex < s.main.sqRsvdIndex :=
    h.main.ledger.ready_lt ((Qp.openRange_of_phase hm).trans hr)
  obtain ⟨hl, hpi⟩ := h.main.all_submitted fun b m hb => by
    have := (hopen b).2 m hb
    cases m <;> first | rfl | exact (this rfl).elim
  obtain ⟨b, m', hb, hop, hmoves⟩ | hp := h.main.oldest_moves hlt
  · refine .inl (someMoves_main hb ?_ hmoves)
    rw [turn, hb, (hopen b).1]
    cases m' <;> first | rfl | exact (hop rfl).elim
  · exact .inr (.inl (h.main.rung_of_lt hl (hpi ▸ hp)))

variable [DecidableEq A]

/-- A thread that moves has a step that changes the state. -/
theorem Inv.step_of_moves (h : s.Inv) (ht : s.turn a ≠ none) (hm : s.Moves a) :
    ∃ s', Step (some a) s s' ∧ s' ≠ s := by
  obtain ⟨t, ht⟩ := Option.ne_none_iff_exists'.1 ht
  rw [Moves, ht] at hm
  cases t with
  | main =>
    obtain ⟨m, hmain⟩ := turn_eq_main ht
    obtain ⟨q, hs, hne⟩ := Qp.Exec.of_moves hmain (hm m hmain)
    exact ⟨_, .main a ht hs, fun heq => hne ((congrArg (fun t => t.main.phase a) heq).trans hmain)⟩
  | comp =>
    obtain ⟨c, hc⟩ := turn_eq_comp ht
    obtain ⟨q, hs, hne⟩ := Qp.Exec.of_moves hc (hm c hc)
    exact ⟨_, .comp a ht hs, fun heq => hne ((congrArg (fun t => t.comp.phase a) heq).trans hc)⟩
  | reserve =>
    obtain ⟨⟨r, hmain⟩, hc⟩ := turn_eq_reserve ht
    obtain ⟨call, hcall, -⟩ := h.called a _ r hmain rfl
    refine ⟨_, .reserve a ht hmain hcall, fun heq => ?_⟩
    exact absurd ((congrArg (fun t => t.comp.phase a) heq).trans hc)
      (by simp [Qp.post, Qp.goto, CounterCall.compRsv])

/-- **No deadlock across a QP and its companion.** In every reachable state in which some thread is
unfinished, a step is enabled that changes the state: of a thread that moves, or of the NIC. -/
theorem counters_never_deadlock {env : HostEnv}
    (h : Reachable (Init env) (fun s s' : Pair A cfg => ∃ l, Step l s s') s)
    (hu : ∃ a, s.Unfinished a) :
    ∃ l s', Step l s s' ∧ s' ≠ s ∧ ∀ b, l = some b → s.Moves b := by
  have hinv := reachable_inv h
  obtain ⟨a, hu⟩ := hu
  by_cases ht : s.turn a = none
  · obtain ⟨call, rest, hp⟩ := List.exists_cons_of_ne_nil (hu.resolve_left (not_not.2 ht))
    refine ⟨some a, _, .begin a ht hp, fun heq => ?_, fun b hb => ?_⟩
    · exact absurd (congrArg (fun t => t.prog a) heq) (by simp [hp])
    · obtain rfl := Option.some.inj hb
      rw [Moves, ht]
      trivial
  · obtain ⟨b, htb, hm⟩ | hrung | ⟨hrung, hrel⟩ := hinv.progress ht
    · obtain ⟨s', hs, hne⟩ := hinv.step_of_moves htb hm
      exact ⟨some b, s', hs, hne, fun b' hb' => Option.some.inj hb' ▸ hm⟩
    · obtain ⟨q, hs, hne⟩ := Qp.Nic.of_rung hrung
      exact ⟨none, _, .mainNic hs, fun heq => hne (congrArg (fun t => t.main.cq.produced) heq),
        fun b hb => nomatch hb⟩
    · obtain ⟨q, hs, hne⟩ := Qp.Nic.of_rung hrung
      exact ⟨none, _, .compNic hs hrel, fun heq => hne (congrArg (fun t => t.comp.cq.produced) heq),
        fun b hb => nomatch hb⟩

/-- Two QPs of four slots each. -/
def fourFour : PairConfig := ⟨Qp.fourSlots, Qp.fourSlots, ⟨7#32, 9#32⟩, ⟨8#32, 10#32⟩, by decide⟩

/-- A signal with a counter. -/
def signal : CounterCall fourFour :=
  ⟨.signalCounter ⟨0#64, 0#32⟩ ⟨0#64, 0#32⟩ 1#64, ⟨⟨0#64, 0#32⟩, ⟨0#64, 0#32⟩, 1#64⟩, by decide⟩

/-- Two threads that have still to begin a signal each. -/
def twoSignals : Pair Bool fourFour :=
  ⟨Qp.fresh Bool, Qp.fresh Bool, fun _ => none, fun _ => [signal]⟩

/-- The second thread has written its fetch-and-add and spins for the baton of the first. -/
theorem twoSignals_moves :
    ∃ s : Pair Bool fourFour,
      Reachable (Init ⟨4096, 4194303⟩) (fun s s' : Pair Bool fourFour => ∃ l, Step l s s') s ∧
      ¬ s.Moves true ∧ ∃ l s', Step l s s' ∧ s' ≠ s ∧ ∀ b, l = some b → s.Moves b := by
  have h₀ : Reachable (Init ⟨4096, 4194303⟩)
      (fun s s' : Pair Bool fourFour => ∃ l, Step l s s') twoSignals :=
    .start ⟨Qp.init_fresh Bool, Qp.init_fresh Bool⟩
  have h₁ := h₀.next ⟨_, Step.begin false rfl rfl⟩
  have h₂ := h₁.next ⟨_, Step.begin true rfl rfl⟩
  -- the four segments
  have h₃ := h₂.next ⟨_, Step.main true rfl (.store rfl)⟩
  have h₄ := h₃.next ⟨_, Step.main true rfl (.store rfl)⟩
  have h₅ := h₄.next ⟨_, Step.main true rfl (.store rfl)⟩
  have h₆ := h₅.next ⟨_, Step.main true rfl (.store rfl)⟩
  have h₇ := h₆.next ⟨_, Step.main true rfl (.stored rfl)⟩
  have hspin : ¬ (0 : ℕ) = 1 := Nat.zero_ne_one
  refine ⟨_, h₇, fun hm => hspin (hm _ rfl), ?_⟩
  exact counters_never_deadlock h₇ ⟨true, .inl (Option.some_ne_none _)⟩

end Pair

end Gpunetio
