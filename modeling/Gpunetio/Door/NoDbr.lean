import Gpunetio.Door.Submit

/-!
# Submissions without a doorbell record

`submit_db_no_dbr` and `submit_db_multi_qps_no_dbr` take no lock: they raise `sq_wqe_pi` and, if
they raised it, store to the doorbell in a later step. A store overtakes when a call that raised
`sq_wqe_pi` to a smaller index has still to store its own.

* `NoDbrSys.Step`: any number of threads on any number of QPs;
* `NoDbrInv`: the words of one QP against the calls still to store; `NoDbrInv.raise`,
  `NoDbrInv.ring`: what the two steps keep;
* **`NoDbrSys.in_order_iff`**: the doorbell never goes back exactly if no store overtakes;
* `NoDbrSys.doorbell_goes_back`.
-/

namespace Gpunetio

open Transition

variable {Q T : Type*}

/-- A call under way: it is about to raise `sq_wqe_pi` of entry `i`, or has won and is about to ring
it. `submit_db_no_dbr` is the case of one entry. -/
structure NoDbrRunning (Q : Type*) where
  entries : List (Q × ℕ)
  i : ℕ
  won : Bool

/-- The next entry, or the end of the call. -/
def NoDbrRunning.next (r : NoDbrRunning Q) : Option (NoDbrRunning Q) :=
  if r.i + 1 < r.entries.length then some { r with i := r.i + 1, won := false } else none

/-- The QPs and the threads that submit to them; `overtaken q` records that a store overtook. -/
structure NoDbrSys (Q T : Type*) where
  door : Q → Door
  thread : T → Option (NoDbrRunning Q)
  overtaken : Q → Prop

namespace NoDbrSys

/-- No call has begun. -/
structure Init (s : NoDbrSys Q T) : Prop where
  door : ∀ q, (s.door q).Fresh
  thread : ∀ t, s.thread t = none
  overtaken : ∀ q, ¬ s.overtaken q

/-- Thread `t` has raised `sq_wqe_pi` of `q` to `p` and not stored it to the doorbell yet. -/
def Pending (s : NoDbrSys Q T) (q : Q) (t : T) (p : ℕ) : Prop :=
  ∃ r, s.thread t = some r ∧ r.won = true ∧ r.entries[r.i]? = some (q, p)

variable [DecidableEq Q] [DecidableEq T]

/-- **One step**: a thread calls a submit function, raises `sq_wqe_pi`, or rings. -/
inductive Step (qpnDs : Q → BitVec 32) : NoDbrSys Q T → NoDbrSys Q T → Prop
  | call {s} (t : T) (entries : List (Q × ℕ)) (h : s.thread t = none) (hne : entries ≠ []) :
      Step qpnDs s { s with thread := Function.update s.thread t (some ⟨entries, 0, false⟩) }
  | atomicMax {s} (t : T) {r : NoDbrRunning Q} {q p} (h : s.thread t = some r)
      (hw : r.won = false) (he : r.entries[r.i]? = some (q, p)) :
      Step qpnDs s { s with
        door := Function.update s.door q { s.door q with sqWqePi := max (s.door q).sqWqePi p }
        thread := Function.update s.thread t
          (if (s.door q).sqWqePi < p then some { r with won := true } else r.next) }
  | ring {s} (t : T) {r : NoDbrRunning Q} {q p} (h : s.thread t = some r)
      (hw : r.won = true) (he : r.entries[r.i]? = some (q, p)) :
      Step qpnDs s
        { door := Function.update s.door q ((s.door q).ringDb (qpnDs q) p)
          thread := Function.update s.thread t r.next
          overtaken := Function.update s.overtaken q
            (s.overtaken q ∨ ∃ u p', s.Pending q u p' ∧ p' < p) }

end NoDbrSys

/-- The words of one QP, the winners `P` still to store their index, and whether a store overtook.
-/
structure NoDbrInv (qpnDs : BitVec 32) (d : Door) (P : T → ℕ → Prop) (o : Prop) : Prop where
  rung : ∀ p ∈ d.doorbells, 0 < p ∧ p ≤ d.sqWqePi
  le : ∀ t p, P t p → 0 < p ∧ p ≤ d.sqWqePi
  inj : ∀ t u p, P t p → P u p → t = u
  fresh : ∀ t p, P t p → p ∉ d.doorbells
  top : d.sqWqePi = 0 ∨ d.sqWqePi ∈ d.doorbells ∨ ∃ t, P t d.sqWqePi
  word : ∀ p, d.doorbells.head? = some p → d.sqDb = prepareDb qpnDs p
  ordered : ¬ o → d.doorbells.Pairwise (· ≥ ·) ∧ ∀ t p, P t p → ∀ p' ∈ d.doorbells, p' < p
  broken : o → ¬ d.doorbells.Pairwise (· ≥ ·) ∨ ∃ t p, P t p ∧ ∃ p' ∈ d.doorbells, p < p'

namespace NoDbrInv

variable {qpnDs : BitVec 32} {d : Door} {P P' : T → ℕ → Prop} {o : Prop}

theorem init (hd : d.Fresh) (hP : ∀ t p, ¬ P t p) (ho : ¬ o) : NoDbrInv qpnDs d P o where
  rung := by simp [Door.doorbells, hd.trace]
  le := fun t p hp => (hP t p hp).elim
  inj := fun t _ p hp => (hP t p hp).elim
  fresh := fun t p hp => (hP t p hp).elim
  top := .inl hd.sqWqePi
  word := by simp [Door.doorbells, hd.trace]
  ordered := fun _ => ⟨by simp [Door.doorbells, hd.trace], fun t p hp => (hP t p hp).elim⟩
  broken := fun h => (ho h).elim

/-- A call that raises `sq_wqe_pi` to `p` joins the winners; its index is above all others. -/
theorem raise (h : NoDbrInv qpnDs d P o) {t : T} {p : ℕ} (hp : d.sqWqePi < p)
    (hP : ∀ u k, P' u k ↔ P u k ∨ u = t ∧ k = p) :
    NoDbrInv qpnDs { d with sqWqePi := p } P' o where
  rung := fun k hk => ⟨(h.rung k hk).1, (h.rung k hk).2.trans hp.le⟩
  le := by
    intro u k hk
    obtain hk | ⟨rfl, rfl⟩ := (hP u k).1 hk
    · exact ⟨(h.le u k hk).1, (h.le u k hk).2.trans hp.le⟩
    · exact ⟨(Nat.zero_le _).trans_lt hp, le_rfl⟩
  inj := by
    intro u v k hu hv
    obtain hu | ⟨rfl, rfl⟩ := (hP u k).1 hu <;> obtain hv | ⟨rfl, hk⟩ := (hP v k).1 hv
    · exact h.inj u v k hu hv
    · exact absurd (h.le u k hu).2 (by omega)
    · exact absurd (h.le v k hv).2 (by omega)
    · rfl
  fresh := by
    intro u k hk
    obtain hk | ⟨rfl, rfl⟩ := (hP u k).1 hk
    · exact h.fresh u k hk
    · exact fun hmem => absurd (h.rung k hmem).2 (by omega)
  top := .inr (.inr ⟨t, (hP _ _).2 (.inr ⟨rfl, rfl⟩)⟩)
  word := h.word
  ordered := by
    refine fun ho => ⟨(h.ordered ho).1, fun u k hk k' hk' => ?_⟩
    obtain hk | ⟨rfl, rfl⟩ := (hP u k).1 hk
    · exact (h.ordered ho).2 u k hk k' hk'
    · exact (h.rung k' hk').2.trans_lt hp
  broken := by
    intro ho
    refine (h.broken ho).imp_right fun ⟨u, k, hk, k', hk'⟩ => ⟨u, k, (hP u k).2 (.inl hk), k', hk'⟩

/-- A winner stores its index: it comes after all stored before exactly if the store does not
overtake and none did before. -/
theorem ring (h : NoDbrInv qpnDs d P o) {t : T} {p : ℕ} (hp : P t p)
    (hP : ∀ u k, P' u k ↔ P u k ∧ u ≠ t) (huniq : ∀ k, P t k → k = p) :
    NoDbrInv qpnDs (d.ringDb qpnDs p) P' (o ∨ ∃ u k, P u k ∧ k < p) := by
  have hdb : (d.ringDb qpnDs p).doorbells = p :: d.doorbells := rfl
  refine ⟨?_, ?_, ?_, ?_, ?_, ?_, ?_, ?_⟩
  · rw [hdb]
    rintro k (_ | ⟨_, hk⟩)
    · exact h.le t p hp
    · exact h.rung k hk
  · exact fun u k hk => h.le u k ((hP u k).1 hk).1
  · exact fun u v k hu hv => h.inj u v k ((hP u k).1 hu).1 ((hP v k).1 hv).1
  · intro u k hk hmem
    obtain ⟨hk, hut⟩ := (hP u k).1 hk
    rw [hdb, List.mem_cons] at hmem
    obtain rfl | hmem := hmem
    · exact hut (h.inj u t k hk hp)
    · exact h.fresh u k hk hmem
  · obtain h0 | hmem | ⟨u, hu⟩ := h.top
    · exact .inl h0
    · exact .inr (.inl (List.mem_cons_of_mem _ hmem))
    · by_cases hut : u = t
      · subst hut
        have hk : d.sqWqePi = p := huniq _ hu
        exact .inr (.inl (by rw [hdb]; exact List.mem_cons.2 (.inl hk)))
      · exact .inr (.inr ⟨u, (hP _ _).2 ⟨hu, hut⟩⟩)
  · intro k hk
    cases hk
    rfl
  · intro ho
    obtain ⟨ho, hsmall⟩ := not_or.1 ho
    obtain ⟨hpair, hlt⟩ := h.ordered ho
    refine ⟨List.pairwise_cons.2 ⟨fun k hk => (hlt t p hp k hk).le, hpair⟩, fun u k hk k' hk' => ?_⟩
    obtain ⟨hk, hut⟩ := (hP u k).1 hk
    rw [hdb, List.mem_cons] at hk'
    obtain rfl | hk' := hk'
    · have hne : k' ≠ k := fun heq => hut (h.inj u t k hk (heq ▸ hp))
      have hge : ¬ k < k' := fun hlt => hsmall ⟨u, k, hk, hlt⟩
      omega
    · exact hlt u k hk k' hk'
  · -- a smaller index still to come, or the one stored now, breaks the order
    have hkeep : ∀ u k k', P u k → k' ∈ p :: d.doorbells → k < k' →
        ¬ (p :: d.doorbells).Pairwise (· ≥ ·) ∨
          ∃ u k, P' u k ∧ ∃ k' ∈ p :: d.doorbells, k < k' := by
      intro u k k' hk hk' hlt
      by_cases hut : u = t
      · subst hut
        obtain rfl := huniq k hk
        refine .inl fun hpair => ?_
        obtain rfl | hk' := List.mem_cons.1 hk'
        · exact lt_irrefl _ hlt
        · exact absurd ((List.pairwise_cons.1 hpair).1 k' hk') (by omega)
      · exact .inr ⟨u, k, (hP u k).2 ⟨hk, hut⟩, k', hk', hlt⟩
    rintro (ho | ⟨u, k, hk, hlt⟩)
    · obtain hbad | ⟨u, k, hk, k', hk', hlt⟩ := h.broken ho
      · exact .inl fun hpair => hbad (List.pairwise_cons.1 hpair).2
      · exact hkeep u k k' hk (List.mem_cons_of_mem _ hk') hlt
    · exact hkeep u k p hk List.mem_cons_self hlt

/-- When no winner is left, the order of the stores tells whether one overtook. -/
theorem settled_iff (h : NoDbrInv qpnDs d P o) (hP : ∀ t p, ¬ P t p) :
    (d.doorbells.Pairwise (· ≥ ·) ∧ d.doorbells.head?.getD 0 = d.sqWqePi) ↔ ¬ o := by
  constructor
  · rintro ⟨hpair, -⟩ ho
    obtain hbad | ⟨t, p, hp, -⟩ := h.broken ho
    · exact hbad hpair
    · exact hP t p hp
  · intro ho
    have hpair := (h.ordered ho).1
    refine ⟨hpair, ?_⟩
    have hrung := h.rung
    obtain h0 | hmem | ⟨t, ht⟩ := h.top
    · cases hd : d.doorbells with
      | nil => exact h0.symm
      | cons p l =>
        have := hrung p (hd ▸ List.mem_cons_self)
        omega
    · cases hd : d.doorbells with
      | nil => rw [hd] at hmem; cases hmem
      | cons p l =>
        rw [hd] at hmem hpair hrung
        refine le_antisymm (hrung p List.mem_cons_self).2 ?_
        obtain heq | hl := List.mem_cons.1 hmem
        · exact heq.le
        · exact (List.pairwise_cons.1 hpair).1 _ hl
    · exact (hP _ _ ht).elim

end NoDbrInv

namespace NoDbrSys

variable [DecidableEq Q] [DecidableEq T] {qpnDs : Q → BitVec 32} {s s' : NoDbrSys Q T}

omit [DecidableEq Q] in
/-- Which winners a thread's move leaves; at most one, its own, changes. -/
theorem pending_update {s' : NoDbrSys Q T} {t : T} {o : Option (NoDbrRunning Q)}
    (hs' : s'.thread = Function.update s.thread t o) {q : Q} {u : T} {p : ℕ} :
    s'.Pending q u p ↔ if u = t then ∃ r, o = some r ∧ r.won = true ∧ r.entries[r.i]? = some (q, p)
      else s.Pending q u p := by
  unfold Pending
  rw [hs']
  split
  · subst u; rw [Function.update_self]
  · rw [Function.update_of_ne ‹_›]

omit [DecidableEq Q] in
theorem next_not_won {r r' : NoDbrRunning Q} (h : r.next = some r') : r'.won = false := by
  unfold NoDbrRunning.next at h
  split at h <;> cases h
  rfl

omit [DecidableEq Q] [DecidableEq T] in
/-- A thread that has not won is not pending. -/
theorem not_pending {t : T} {r : NoDbrRunning Q} (h : s.thread t = some r) (hw : r.won = false)
    (q : Q) (p : ℕ) : ¬ s.Pending q t p := by
  rintro ⟨r', hr', hw', -⟩
  rw [h] at hr'
  cases hr'
  rw [hw] at hw'
  cases hw'

omit [DecidableEq Q] [DecidableEq T] in
theorem not_pending_idle {t : T} (h : s.thread t = none) (q : Q) (p : ℕ) : ¬ s.Pending q t p := by
  rintro ⟨r, hr, -⟩
  rw [h] at hr
  cases hr

/-- The invariant of every QP. -/
def Inv (qpnDs : Q → BitVec 32) (s : NoDbrSys Q T) : Prop :=
  ∀ q, NoDbrInv (qpnDs q) (s.door q) (s.Pending q) (s.overtaken q)

omit [DecidableEq Q] in
/-- A move that changes no winner of a QP. -/
theorem pending_same {s' : NoDbrSys Q T} {t : T} {o : Option (NoDbrRunning Q)}
    (hs' : s'.thread = Function.update s.thread t o) {q : Q} (hbefore : ∀ p, ¬ s.Pending q t p)
    (hafter : ∀ r p, o = some r → r.won = true → r.entries[r.i]? ≠ some (q, p)) :
    s'.Pending q = s.Pending q := by
  funext u p
  rw [eq_iff_iff, pending_update hs']
  split
  · subst u
    exact ⟨fun ⟨r, hr, hw, he⟩ => (hafter r p hr hw he).elim, fun hp => (hbefore p hp).elim⟩
  · rfl

/-- **Every step keeps the invariant.** -/
theorem Inv.step (h : s.Inv qpnDs) (hs : Step qpnDs s s') : s'.Inv qpnDs := by
  intro q
  cases hs with
  | call t entries ht hne =>
    rw [pending_same (s := s) (q := q) rfl (not_pending_idle ht q)
      (fun r p hr hw => by cases hr; cases hw)]
    exact h q
  | @atomicMax t r q₀ p₀ ht hw he =>
    have hbefore := not_pending ht hw
    by_cases hlt : (s.door q₀).sqWqePi < p₀
    · simp only [hlt, if_true, max_eq_right hlt.le]
      rcases eq_or_ne q q₀ with rfl | hq
      · rw [Function.update_self]
        refine (h q).raise hlt (t := t) fun u k => ?_
        rw [pending_update rfl]
        split
        · subst u
          constructor
          · rintro ⟨r', ⟨⟩, -, he'⟩
            rw [he] at he'
            cases he'
            exact .inr ⟨rfl, rfl⟩
          · rintro (hp | ⟨-, rfl⟩)
            · exact (hbefore q k hp).elim
            · exact ⟨_, rfl, rfl, he⟩
        · have hut : u ≠ t := ‹_›
          simp [hut]
      · rw [Function.update_of_ne hq, pending_same rfl (hbefore q)]
        · exact h q
        · rintro r' p ⟨⟩ - he'
          rw [he] at he'
          cases he'
          exact hq rfl
    · have hd : Function.update s.door q₀ { s.door q₀ with sqWqePi := (s.door q₀).sqWqePi } =
          s.door := Function.update_eq_self q₀ s.door
      simp only [hlt, if_false, max_eq_left (not_lt.1 hlt), hd]
      rw [pending_same rfl (hbefore q)]
      · exact h q
      · intro r' p hr' hw'
        rw [next_not_won hr'] at hw'
        cases hw'
  | @ring t r q₀ p₀ ht hw he =>
    have huniq : ∀ q k, s.Pending q t k → q = q₀ ∧ k = p₀ := by
      rintro q k ⟨r', hr', -, he'⟩
      rw [ht] at hr'
      cases hr'
      rw [he] at he'
      cases he'
      exact ⟨rfl, rfl⟩
    rcases eq_or_ne q q₀ with rfl | hq
    · simp only [Function.update_self]
      refine (h q).ring ⟨r, ht, hw, he⟩ (fun u k => ?_) fun k hk => (huniq q k hk).2
      rw [pending_update rfl]
      split
      · subst u
        simp only [ne_eq, not_true, and_false, iff_false]
        rintro ⟨r', hr', hw', -⟩
        rw [next_not_won hr'] at hw'
        cases hw'
      · simp [‹u ≠ t›]
    · simp only [Function.update_of_ne hq]
      rw [pending_same rfl fun k hk => hq (huniq q k hk).1]
      · exact h q
      · intro r' p hr' hw'
        rw [next_not_won hr'] at hw'
        cases hw'

theorem reachable_inv (h : Reachable Init (Step qpnDs) s) : s.Inv qpnDs :=
  h.invariant
    (fun _ hi q => .init (hi.door q) (fun t => not_pending_idle (hi.thread t) q) (hi.overtaken q))
    fun _ _ => Inv.step

/-- **The doorbell keeps its order exactly if no store overtakes.** As long as none did, the indices
it received are non-decreasing. When all calls have finished, they are non-decreasing and end with
`sq_wqe_pi` if and only if no store overtook; the register holds the last index stored. -/
theorem in_order_iff (h : Reachable Init (Step qpnDs) s) (q : Q) :
    (¬ s.overtaken q → (s.door q).doorbells.Pairwise (· ≥ ·)) ∧
      (∀ p, (s.door q).doorbells.head? = some p → (s.door q).sqDb = prepareDb (qpnDs q) p) ∧
      ((∀ t, s.thread t = none) →
        ((s.door q).doorbells.Pairwise (· ≥ ·) ∧
          (s.door q).doorbells.head?.getD 0 = (s.door q).sqWqePi ↔ ¬ s.overtaken q)) := by
  have hinv := reachable_inv h q
  exact ⟨fun ho => (hinv.ordered ho).1, hinv.word,
    fun hidle => hinv.settled_iff fun t => not_pending_idle (hidle t) q⟩

/-- One QP and two threads, which have not called yet. -/
def idle : NoDbrSys Unit Bool :=
  ⟨fun _ => ⟨false, 0, 0, 0, []⟩, fun _ => none, fun _ => False⟩

theorem init_idle : Init idle := ⟨fun _ => ⟨rfl, rfl, rfl, rfl⟩, fun _ => rfl, fun _ => id⟩

/-- Two calls with indices 1 and 2 win one after the other; the second one stores first. -/
theorem doorbell_goes_back :
    ∃ s : NoDbrSys Unit Bool, Reachable Init (Step fun _ => 0) s ∧ (∀ t, s.thread t = none) ∧
      (s.door ()).doorbells = [1, 2] ∧ ¬ (s.door ()).doorbells.Pairwise (· ≥ ·) ∧
      (s.door ()).sqWqePi = 2 ∧ dbIndex (s.door ()).sqDb = 1 := by
  have h₀ := (Reachable.start init_idle).next
    (@Step.call Unit Bool _ _ (fun _ => 0) idle false [((), 1)] rfl (by decide))
  have h₁ := h₀.next (.call true [((), 2)] rfl (by decide))
  have h₂ := h₁.next (.atomicMax false rfl rfl rfl)
  have h₃ := h₂.next (.atomicMax true rfl rfl rfl)
  have h₄ := h₃.next (.ring true rfl rfl rfl)
  have h₅ := h₄.next (.ring false rfl rfl rfl)
  refine ⟨_, h₅, fun t => by cases t <;> rfl, rfl, ?_, rfl, ?_⟩
  · decide
  · exact dbIndex_prepareDb 0 1

theorem one_ring_in_order :
    ∃ s : NoDbrSys Unit Bool, Reachable Init (Step fun _ => 0) s ∧ (∀ t, s.thread t = none) ∧
      ¬ s.overtaken () ∧ (s.door ()).doorbells = [1] := by
  have h₀ := (Reachable.start init_idle).next
    (@Step.call Unit Bool _ _ (fun _ => 0) idle false [((), 1)] rfl (by decide))
  have h₁ := h₀.next (.atomicMax false rfl rfl rfl)
  have h₂ := h₁.next (.ring false rfl rfl rfl)
  refine ⟨_, h₂, fun t => by cases t <;> rfl, ?_, rfl⟩
  exact ((in_order_iff h₂ ()).2.2 fun t => by cases t <;> rfl).1 ⟨by decide, rfl⟩

end NoDbrSys

end Gpunetio
