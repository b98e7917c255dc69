import Gpunetio.Qp.Ring

/-!
# Posting is safe

What the threads of one QP may rely on, whatever the interleaving: the NIC is never told of a WQE
that is not stored, reservations do not overlap, and no slot is written over before its WQE has
completed.

* `Qp.Inv.rung_stored`, `Qp.Inv.overwrite`;
* **`Qp.posts_safe`**.
-/

namespace Gpunetio

open Transition

namespace Qp

variable {A : Type*} {cfg : QpConfig} {s s' : Qp A cfg}

/-- A WQE the NIC has been told of is stored by the thread that reserved it, and in its slot until
it completes. -/
theorem Inv.rung_stored (h : s.Inv) {i : ℕ} (hi : s.Rung i) :
    ∃ r ∈ s.rsvs, (r.base ≤ i ∧ i < r.stop) ∧
      ∀ j seg, (i, j, seg) ∈ r.stores → s.written i j = some (r.agent, seg) ∧
        (s.cq.produced ≤ i → s.wq (cfg.slot i) j = some (i, seg)) := by
  have hready : i < s.sqReadyIndex := (h.lt_of_rung hi).trans_le h.ledger.submitted_le
  obtain ⟨r, hr, hri, hle⟩ := h.ledger.ready_range hready
  obtain ⟨-, hst⟩ := (h.rsv r hr).settled (h.ledger.not_open hr hle _)
  refine ⟨r, hr, hri, fun j seg hmem => ?_⟩
  have hw := hst _ hmem
  refine ⟨hw, fun hp => ?_⟩
  rw [cfg.slot_eq]
  exact h.kept i j r.agent seg hw hp

variable [DecidableEq A]

/-- Only a store changes the ring. -/
theorem Exec.wq_eq {a : A} (hs : Exec a s s') :
    s'.wq = s.wq ∨ ∃ r x l, s.phase a = some (.write r (x :: l)) ∧ s'.wq = (s.store a x).wq := by
  cases hs with
  | @store r x l ha => exact .inr ⟨r, x, l, ha, rfl⟩
  | poll | stored | markCas | markLoad | markStore | lock | stage => exact .inl rfl

theorem Step.wq_eq (hs : Step s s') :
    s'.wq = s.wq ∨
      ∃ a r x l, s.phase a = some (.write r (x :: l)) ∧ s'.wq = (s.store a x).wq := by
  cases hs with
  | post | wait => exact .inl rfl
  | exec a hs => exact hs.wq_eq.imp_right fun hst => ⟨a, hst⟩
  | nic hs => cases hs; exact .inl rfl

/-- **A step that changes a slot** stores a segment of the WQE already there, or of one whose slot
holds only what has completed. -/
theorem Inv.overwrite (h : s.Inv) (hs : Step s s') {i j : ℕ} (hne : s'.wq i j ≠ s.wq i j)
    {j' x : ℕ} {seg' : Seg} (hx : s.wq i j' = some (x, seg')) :
    x < s.cq.produced ∨ ∃ seg, s'.wq i j = some (x, seg) := by
  obtain heq | ⟨a, r, y, l, ha, heq⟩ := hs.wq_eq
  · exact (hne (by rw [heq])).elim
  have hmem : y ∈ r.stores := h.thread a _ ha y List.mem_cons_self
  obtain ⟨hyp, hyw⟩ := h.window ha hmem
  rw [heq, wq_store] at hne ⊢
  split at hne
  · rename_i hyij
    rw [if_pos hyij]
    obtain ⟨hslot, hxw⟩ := h.cell i j' x seg' hx
    have hci := h.cq.ci_le
    rcases Nat.lt_or_ge x s.cq.produced with hlt | hge
    · exact .inl hlt
    · -- both indices lie in one window, so the slot determines the WQE
      have hxy : x = y.1 := LapRing.eq_of_mod_eq ⟨hci.trans hge, hxw⟩ ⟨hci.trans hyp, hyw⟩
        (hslot.symm.trans hyij.1)
      exact .inr ⟨y.2.2, by rw [hxy]⟩
  · exact (hne rfl).elim

/-- **Posting is safe.** In every reachable state: for every producer index rung, each WQE below it
is stored, all of it by the thread that reserved it, and still in its slot if it has not completed;
the reservations are contiguous and disjoint; and no step changes a slot that holds a WQE which has
not completed, other than by storing that WQE. -/
theorem posts_safe {env : HostEnv} (h : Reachable (Init env) Step s) :
    (∀ p, p ∈ s.door.doorbells ∨ p ∈ s.door.records → ∀ i < p,
      ∃ r ∈ s.rsvs, (r.base ≤ i ∧ i < r.stop) ∧
        ∀ j seg, (i, j, seg) ∈ r.stores → s.written i j = some (r.agent, seg) ∧
          (s.cq.produced ≤ i → s.wq (cfg.slot i) j = some (i, seg))) ∧
    Ledger.Chain Rsv.base Rsv.stop s.rsvs s.sqRsvdIndex ∧
    s.rsvs.Pairwise (fun r r' => r'.stop ≤ r.base) ∧
    ∀ s', Step s s' → ∀ i j, s'.wq i j ≠ s.wq i j → ∀ j' x seg', s.wq i j' = some (x, seg') →
      x < s.cq.produced ∨ ∃ seg, s'.wq i j = some (x, seg) := by
  have hinv := reachable_inv h
  exact ⟨fun p hp i hi => hinv.rung_stored ⟨p, hp, hi⟩, hinv.ledger.chain,
    hinv.ledger.chain.pairwise, fun s' hs i j hne j' x seg' hx => hinv.overwrite hs hne hx⟩

/-- A QP of four slots and four CQEs. -/
def fourSlots : QpConfig where
  arch := .sm90
  readyMode := .atomicCas
  sqWqeNum := 4
  cqeNum := 4
  qpnDs := 0x100#32
  pow := ⟨2, by decide, rfl⟩
  geom := ⟨⟨2, rfl⟩, by decide⟩
  le := le_rfl

/-- Nothing posted yet. -/
def fresh (A : Type*) : Qp A fourSlots where
  sqRsvdIndex := 0
  sqReadyIndex := 0
  door := ⟨false, 0, 0, 0, []⟩
  cq := ⟨0, mlx5InitCqes 4 fun _ => zeroCqe, 0⟩
  wq := fun _ _ => none
  rsvs := []
  written := fun _ _ => none
  phase := fun _ => none

theorem init_fresh (A : Type*) : Init ⟨4096, 4194303⟩ (fresh A) :=
  ⟨rfl, rfl, ⟨rfl, rfl, rfl, rfl⟩, if_pos (by decide), rfl, rfl, fun _ _ => rfl, rfl,
    fun _ _ => rfl, fun _ => rfl⟩

/-- A reservation of one NOP. -/
def oneNop : Rsv Unit fourSlots :=
  ⟨(), 0, [wqePrepareNop ⟨1#32, 2#32⟩ 0 ctrlCqUpdate], by decide, by decide⟩

/-- The reservation of a NOP by one of two threads. -/
def nopAt (a : Bool) (base : ℕ) : Rsv Bool fourSlots :=
  ⟨a, base, [wqePrepareNop ⟨1#32, 2#32⟩ base ctrlCqUpdate], Nat.one_pos, (by decide : 1 ≤ 4)⟩

/-- Two threads post a NOP each: the second has stored its WQE first and spins for the baton. -/
theorem twoNops_spin :
    ∃ s : Qp Bool fourSlots, Reachable (Init ⟨4096, 4194303⟩) Step s ∧
      s.phase false = some (.write (nopAt false 0) (nopAt false 0).stores) ∧
      s.phase true = some (.mark (nopAt true 1)) ∧
      s.sqReadyIndex = 0 ∧ s.door = ⟨false, 0, 0, 0, []⟩ := by
  have h₀ := (Reachable.start (init_fresh Bool)).next (Step.post (nopAt false 0) rfl rfl)
  have h₁ := h₀.next (Step.post (nopAt true 1) rfl rfl)
  have h₂ := h₁.next (Step.exec true (Exec.store rfl))
  exact ⟨_, h₂.next (Step.exec true (Exec.stored rfl)), rfl, rfl, rfl, rfl⟩

/-- Once it has been passed the baton, it gets the lock before the first and rings for both. -/
theorem twoNops_safe :
    ∃ s : Qp Bool fourSlots, Reachable (Init ⟨4096, 4194303⟩) Step s ∧
      s.phase false = some (.lock (nopAt false 0)) ∧ 2 ∈ s.door.doorbells ∧
      ∀ i < 2, ∃ r ∈ s.rsvs, ∀ j seg, (i, j, seg) ∈ r.stores →
        s.written i j = some (r.agent, seg) := by
  obtain ⟨s, h, hfst, hsnd, hready, hdoor⟩ := twoNops_spin
  have h₁ := h.next (Step.exec false (Exec.store hfst))
  have h₂ := h₁.next (Step.exec false (Exec.stored rfl))
  have h₃ := h₂.next (Step.exec false (Exec.markCas rfl rfl hready))
  have h₄ := h₃.next (Step.exec true (Exec.markCas hsnd rfl rfl))
  have h₅ := h₄.next (Step.exec true (Exec.lock rfl (congrArg Door.sqLock hdoor)))
  have h₆ := h₅.next (Step.exec true (Exec.stage rfl))
  obtain ⟨t, ht, hlock, hrung⟩ : ∃ t : Qp Bool fourSlots, Reachable (Init ⟨4096, 4194303⟩) Step t ∧
      t.phase false = some (.lock (nopAt false 0)) ∧ 2 ∈ t.door.doorbells := by
    refine ⟨_, h₆.next (Step.exec true (Exec.stage rfl)), rfl, ?_⟩
    simp only [goto, store, hdoor]
    decide
  refine ⟨t, ht, hlock, hrung, fun i hi => ?_⟩
  obtain ⟨r, hr, -, hst⟩ := (posts_safe ht).1 2 (.inl hrung) i hi
  exact ⟨r, hr, fun j seg hmem => (hst j seg hmem).1⟩

end Qp

end Gpunetio
