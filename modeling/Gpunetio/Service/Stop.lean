import Gpunetio.Service.Live
import Mathlib.Algebra.Order.BigOperators.Group.Finset

/-!
# The service is stopped

`doca_gpu_verbs_destroy_service` sets `running` to false and joins the thread, but the thread tests
`running` only where it has let go of the lock, and that it does only after a pass without progress.
So it ends once the device publishes nothing more; and as long as the device goes on publishing on
one QP, it does not, and callers who want the lock wait with it.

* `untold`, `Inv.work_next`: what a pass with progress uses up;
* **`thread_ends`**: the thread ends if the device comes to rest;
* `Kept`, `CaughtUp`, **`kept_busy`**: it may not end if the device does not.
-/

namespace Gpunetio

open Transition Relation Response

/-- Some progress has been made in the pass, or is about to be reported. -/
def ServicePc.progressing {Q : Type*} (cfg : Q → ProxyQp) : ServicePc Q → Bool
  | visit progressed _ => progressed
  | progress progressed _ (.loaded _) _ => progressed
  | progress progressed q (.storing _ todo) _ => progressed || todo ≠ (cfg q).ops
  | _ => false

namespace Service

variable {Q C : Type*} [LinearOrder Q] {cfg : Q → ProxyQp} {s s' : Service Q C} {q q' : Q}
  {progressed : Bool} {call : Option ProxyCall} {todo : List Q}

/-- How much has been published and not told, over all QPs. -/
def untold (cfg : Q → ProxyQp) (s : Service Q C) : ℕ :=
  ∑ q ∈ s.qps, ((s.mem q).cpuDb - (cfg q).served (s.mem q))

/-- What bounds the number of passes: each one with progress uses something up. -/
def work (cfg : Q → ProxyQp) (s : Service Q C) : ℕ :=
  2 * s.untold cfg + (s.thread.progressing cfg).toNat

/-- A progress call changes what is untold of one QP only. -/
theorem untold_advance (cfg : Q → ProxyQp) (progressed : Bool) (call : Option ProxyCall)
    (todo : List Q) (hq : q ∈ s.qps) :
    (s.advance cfg progressed q call todo).untold cfg +
        ((s.mem q).cpuDb - (cfg q).served (s.mem q)) =
      s.untold cfg + ((s.mem q).cpuDb - (cfg q).served
        ((s.mem q).proxyStep (cfg q).sqNumShift8Be (cfg q).ops call).1) := by
  have hmem : (s.advance cfg progressed q call todo).mem q =
      ((s.mem q).proxyStep (cfg q).sqNumShift8Be (cfg q).ops call).1 := Function.update_self ..
  have hto := Finset.add_sum_erase s.qps (fun q' =>
    ((s.advance cfg progressed q call todo).mem q').cpuDb -
      (cfg q').served ((s.advance cfg progressed q call todo).mem q')) hq
  have hfrom := Finset.add_sum_erase s.qps (fun q' =>
    (s.mem q').cpuDb - (cfg q').served (s.mem q')) hq
  have hrest : ∑ q' ∈ s.qps.erase q, (((s.advance cfg progressed q call todo).mem q').cpuDb -
        (cfg q').served ((s.advance cfg progressed q call todo).mem q')) =
      ∑ q' ∈ s.qps.erase q, ((s.mem q').cpuDb - (cfg q').served (s.mem q')) := by
    refine Finset.sum_congr rfl fun q' hq' => ?_
    have hsame : (s.advance cfg progressed q call todo).mem q' = s.mem q' :=
      Function.update_of_ne (Finset.ne_of_mem_erase hq') ..
    rw [hsame]
  rw [advance_cpuDb, hmem, hrest] at hto
  have hsum : (s.advance cfg progressed q call todo).untold cfg = _ := hto.symm
  have hsum' : s.untold cfg = _ := hfrom.symm
  omega

/-- What is untold does not grow by a progress call. -/
theorem Inv.untold_advance_le (h : s.Inv cfg) (progressed : Bool) (todo : List Q)
    (hcall : ∀ q', s.thread.callOn q' = if q' = q then call else none) (hq : q ∈ s.qps) :
    (s.advance cfg progressed q call todo).untold cfg ≤ s.untold cfg := by
  have hgood := h.good q
  rw [hcall q, if_pos rfl] at hgood
  have hmono := hgood.step.2
  have hsum := untold_advance cfg progressed call todo hq
  omega

/-- **A progress call does not add to the work**: when the NIC is told, what has been used up pays
for the progress that will be reported. -/
theorem Inv.work_advance (h : s.Inv cfg) {c : ProxyCall}
    (ht : s.thread = .progress progressed q c todo) :
    (s.advance cfg progressed q (some c) todo).work cfg ≤ s.work cfg := by
  have hcall : ∀ q', s.thread.callOn q' = if q' = q then some c else none :=
    fun q' => by rw [ht]; rfl
  have hq : q ∈ s.qps := (h.calling q (by rw [hcall q, if_pos rfl]; exact Option.some_ne_none c)).1
  have hgood := h.good q
  rw [hcall q, if_pos rfl] at hgood
  have hle := h.untold_advance_le progressed todo hcall hq
  have hsum := untold_advance cfg progressed (some c) todo hq
  unfold work
  rw [ht]
  rcases c with v | ⟨v, _ | ⟨op, rest⟩⟩
  · -- the comparison: nothing is told yet
    have hsame : (s.advance cfg progressed q (some (.loaded v)) todo).thread.progressing cfg =
        progressed := by
      unfold Service.advance ProxyMem.proxyStep
      dsimp only
      by_cases hb : (s.mem q).behind v = true
      · rw [if_pos hb]
        simp [ServicePc.progressing]
      · rw [if_neg hb]
        simp [ServicePc.progressing, ProxyQp.reports]
    rw [hsame]
    exact Nat.add_le_add_right (Nat.mul_le_mul_left 2 hle) _
  · -- the return: that there is progress has been counted
    obtain ⟨-, -, ⟨hops, -⟩ | ⟨-, hne, -⟩⟩ := hgood.during
    · exact absurd hops (by obtain ⟨-, h | h⟩ | ⟨-, h⟩ := (cfg q).ops_cases <;> simp [h])
    · have hone :
          (ServicePc.progressing cfg (.progress progressed q (.storing v []) todo)).toNat = 1 := by
        simp [ServicePc.progressing, hne]
      rw [hone]
      exact Nat.add_le_add (Nat.mul_le_mul_left 2 hle) (Bool.toNat_le _)
  · obtain ⟨hv, hsuf, ⟨hops, hlt⟩ | ⟨-, hne, -⟩⟩ := hgood.during
    · -- the first store: the NIC is told
      have hserved : (cfg q).served ((s.mem q).proxyStep (cfg q).sqNumShift8Be (cfg q).ops
          (some (.storing v (op :: rest)))).1 = v := ProxyQp.served_exec_first hops.symm
      rw [hserved] at hsum
      have hone := Bool.toNat_le
        ((s.advance cfg progressed q (some (.storing v (op :: rest))) todo).thread.progressing cfg)
      omega
    · have hone : (ServicePc.progressing cfg
          (.progress progressed q (.storing v (op :: rest)) todo)).toNat = 1 := by
        simp [ServicePc.progressing, hne]
      rw [hone]
      exact Nat.add_le_add (Nat.mul_le_mul_left 2 hle) (Bool.toNat_le _)

/-! ## The device comes to rest -/

/-- How far the thread is from its end, once `running` is false. -/
def placeToEnd : ServicePc Q → ℕ
  | .ended => 0
  | .test => 1
  | .unlock => 2
  | .visit _ _ | .progress _ _ _ _ => 3
  | .rdlock => 4

/-- The place first, then the work left, then the steps left of the pass. -/
def rankToEnd (cfg : Q → ProxyQp) (s : Service Q C) : ℕ ×ₗ ℕ ×ₗ ℕ :=
  toLex (placeToEnd s.thread, toLex (s.work cfg, s.thread.stepsLeft))

omit [LinearOrder Q] in
theorem rankToEnd_lt_of_place (h : placeToEnd s'.thread < placeToEnd s.thread) :
    rankToEnd cfg s' < rankToEnd cfg s := Prod.Lex.toLex_lt_toLex.2 (.inl h)

omit [LinearOrder Q] in
/-- Within the loop the work counts first. -/
theorem rankToEnd_lt (hp : placeToEnd s'.thread ≤ placeToEnd s.thread)
    (hw : s'.work cfg < s.work cfg ∨
      s'.work cfg ≤ s.work cfg ∧ s'.thread.stepsLeft < s.thread.stepsLeft) :
    rankToEnd cfg s' < rankToEnd cfg s := by
  refine Prod.Lex.toLex_lt_toLex.2 (hp.lt_or_eq.imp_right fun heq => ⟨heq, ?_⟩)
  refine Prod.Lex.toLex_lt_toLex.2 ?_
  obtain hlt | ⟨hle, hs⟩ := hw
  · exact .inl hlt
  · exact hle.lt_or_eq.imp_right fun heq => ⟨heq, hs⟩

theorem advance_place :
    placeToEnd (s.advance cfg progressed q call todo).thread = 3 := by
  unfold Service.advance
  dsimp only
  split <;> rfl

/-- **The thread comes closer to its end** with every step of its own. -/
theorem Inv.rankToEnd_next (h : s.Inv cfg) (hn : s.next cfg = some s') (hr : s.running = false) :
    rankToEnd cfg s' < rankToEnd cfg s := by
  cases Next.of_next hn with
  | test ht =>
    refine rankToEnd_lt_of_place ?_
    dsimp only
    rw [hr, ht]
    exact Nat.one_pos
  | rdlock ht hl =>
    refine rankToEnd_lt_of_place ?_
    rw [ht]
    exact Nat.lt_succ_self 3
  | skip ht hq =>
    refine rankToEnd_lt (by rw [ht]; exact le_rfl) (.inr ⟨?_, ?_⟩)
    · rw [work, work, ht]
      exact le_rfl
    · rw [ht]
      exact Nat.lt_add_of_pos_right (by decide : 0 < 8)
  | @call progressed q todo ht hq =>
    have hmem : q ∈ s.qps := h.left q (by rw [ht]; exact List.mem_cons_self)
    refine rankToEnd_lt (by rw [advance_place, ht]; exact le_rfl)
      (.inr ⟨?_, advance_stepsLeft.trans_eq (by rw [ht]; rfl)⟩)
    have hcall : ∀ q', s.thread.callOn q' = if q' = q then none else none :=
      fun q' => by rw [ht, ite_self]; rfl
    have hle := h.untold_advance_le progressed todo hcall hmem
    rw [work, work, ht]
    exact Nat.add_le_add_right (Nat.mul_le_mul_left 2 hle) _
  | step ht =>
    exact rankToEnd_lt (by rw [advance_place, ht]; exact le_rfl)
      (.inr ⟨h.work_advance ht, advance_stepsLeft.trans_eq (by rw [ht]; rfl)⟩)
  | again ht =>
    refine rankToEnd_lt (by rw [ht]; exact le_rfl) (.inl ?_)
    rw [work, work, ht]
    exact Nat.lt_succ_self _
  | leave ht =>
    refine rankToEnd_lt_of_place ?_
    rw [ht]
    exact Nat.lt_succ_self 2
  | unlock ht =>
    refine rankToEnd_lt_of_place ?_
    rw [ht]
    exact Nat.lt_succ_self 1

/-- Once `running` is false only the thread and the device move, and the device adds no work. -/
theorem Inv.rankToEnd_eq [DecidableEq C] (h : s.Inv cfg) (hs : Step cfg s s')
    (hr : s.running = false) (hquiet : ∀ q, (s'.mem q).cpuDb = (s.mem q).cpuDb) :
    s.next cfg = some s' ∨ rankToEnd cfg s' = rankToEnd cfg s := by
  have hrank : s'.thread = s.thread → s'.qps = s.qps →
      (∀ q, (cfg q).served (s'.mem q) = (cfg q).served (s.mem q)) →
      rankToEnd cfg s' = rankToEnd cfg s := fun ht hq hserved => by
    have huntold : s'.untold cfg = s.untold cfg := by
      rw [untold, hq]
      exact Finset.sum_congr rfl fun q _ => by rw [hquiet q, hserved q]
    rw [rankToEnd, rankToEnd, work, work, ht, huntold]
  have hidle := h.stopped hr
  cases hs with
  | thread hn => exact .inl hn
  | monitor c q hc hrun => rw [hr] at hrun; cases hrun
  | wrlock c hc | insert c hc | unlock c hc => rw [hidle c] at hc; cases hc
  | stop | free => exact .inr (hrank rfl rfl fun _ => rfl)
  | publish q' p hp =>
    refine .inr (hrank rfl rfl fun q => ?_)
    by_cases heq : q = q'
    · subst heq
      dsimp only
      rw [Function.update_self]
      rfl
    · dsimp only
      rw [Function.update_of_ne heq]
  | ring q' device p ha hp =>
    refine .inr (hrank rfl rfl fun q => ?_)
    by_cases heq : q = q'
    · subst heq
      dsimp only
      rw [Function.update_self, ProxyQp.served, if_pos ha, ProxyQp.served, if_pos ha]
      rfl
    · dsimp only
      rw [Function.update_of_ne heq]

theorem running_eq [DecidableEq C] (hs : Step cfg s s') (hr : s.running = false) :
    s'.running = false := by
  cases hs with
  | thread hn => cases Next.of_next hn <;> exact hr
  | stop => rfl
  | monitor | wrlock | insert | unlock | free | publish | ring => exact hr

/-- **The thread ends** if the device comes to rest: in every run in which the service is stopped,
nothing more is published from some time on, and the thread, unless it has ended, moves again and
again, it ends. -/
theorem thread_ends [DecidableEq C] {σ : ℕ → Service Q C} (h₀ : Reachable Init (Step cfg) (σ 0))
    (hs : ∀ t, Step cfg (σ t) (σ (t + 1)))
    (hf : ∀ t, ∃ u, t ≤ u ∧ ((σ u).thread = .ended ∨ (σ u).next cfg = some (σ (u + 1)))) {t : ℕ}
    (hr : (σ t).running = false)
    (hquiet : ∀ u, t ≤ u → ∀ q, ((σ (u + 1)).mem q).cpuDb = ((σ u).mem q).cpuDb) :
    ∃ u, t ≤ u ∧ (σ u).thread = .ended := by
  have hreach : ∀ w, Reachable Init (Step cfg) (σ w) := fun w => by
    induction w with
    | zero => exact h₀
    | succ w ih => exact ih.next (hs w)
  have hranked : Ranked (fun s s' : Service Q C => Step cfg s s' ∧
      ∀ q, (s'.mem q).cpuDb = (s.mem q).cpuDb) (fun s s' => s.next cfg = some s')
      (fun s => s.Inv cfg ∧ s.running = false) (fun s => s.thread = .ended) (rankToEnd cfg) :=
    { keep := fun s s' hp hstep => .inr ⟨⟨hp.1.step hstep.1, running_eq hstep.1 hp.2⟩,
        (hp.1.rankToEnd_eq hstep.1 hp.2 hstep.2).elim
          (fun hn => (hp.1.rankToEnd_next hn hp.2).le) fun heq => heq.le⟩
      lower := fun s s' hp hn => .inr (hp.1.rankToEnd_next hn hp.2) }
  obtain ⟨u, -, hu⟩ := hranked.eventually (σ := fun w => σ (t + w)) (i := 0)
    (fun w => ⟨hs (t + w), hquiet (t + w) (Nat.le_add_right t w)⟩) (fun w => by
      obtain ⟨u, hle, hu⟩ := hf (t + w)
      refine ⟨u - t, by omega, ?_⟩
      have heq : t + (u - t) = u := by omega
      rwa [← Nat.add_assoc, heq]) ⟨reachable_inv (hreach t), hr⟩
  exact ⟨t + u, Nat.le_add_right t u, hu⟩

/-- The thread is stopped in its first pass, and ends. -/
theorem fresh_ends : ∃ σ : ℕ → Service Unit Unit, (σ 0).thread = .visit false [()] ∧
    (σ 0).running = false ∧ ∃ u, (σ u).thread = .ended := by
  obtain ⟨s, hs, -, -, ht, -, hc⟩ := visiting_fresh
  have hs' := hs.next (.stop hc)
  have hkeep : ∀ s : Service Unit Unit, (s.Inv proxied ∧ s.running = false) → ∃ s',
      ((s.thread = .ended ∨ s.next proxied = some s') ∧ Step proxied s s' ∧
        ∀ q, (s'.mem q).cpuDb = (s.mem q).cpuDb) ∧ s'.Inv proxied ∧ s'.running = false := by
    rintro s ⟨hi, hr⟩
    by_cases hend : s.thread = .ended
    · have hfree : Step proxied s { s with freed := true } := .free hr hend
      exact ⟨_, ⟨.inl hend, hfree, fun _ => rfl⟩, hi.step hfree, hr⟩
    · obtain ⟨s', hn, -, hr'⟩ := hi.next_alone (hi.stopped hr) hend
      exact ⟨s', ⟨.inr hn, .thread hn, next_cpuDb hn⟩, hi.step (.thread hn), hr'.trans hr⟩
  obtain ⟨σ, h₀, hrun⟩ := exists_run hkeep ⟨reachable_inv hs', rfl⟩
  have hstop : (σ 0).running = false := (hrun 0).1.2
  obtain ⟨u, -, hu⟩ := thread_ends (t := 0) (h₀ ▸ hs') (fun t => (hrun t).2.2.1)
    (fun t => ⟨t, le_rfl, (hrun t).2.1⟩) hstop fun u _ => (hrun u).2.2.2
  exact ⟨σ, by rw [h₀]; exact ht, hstop, u, hu⟩

/-! ## The device goes on -/

/-- The thread is in a pass, and it will report progress on the QP, or has some to report. -/
structure Kept (cfg : Q → ProxyQp) (q : Q) (running : Bool) (s : Service Q C) : Prop where
  inv : s.Inv cfg
  running : s.running = running
  mem : q ∈ s.qps
  pass : (∃ progressed todo, s.thread = .visit progressed todo ∧ (q ∈ todo ∨ progressed = true)) ∨
    ∃ progressed q' c todo, s.thread = .progress progressed q' c todo ∧
      (q ∈ todo ∨ progressed = true ∨ q' = q ∧
        ((∃ v, c = .loaded v ∧ (cfg q).served (s.mem q) < v) ∨ ∃ v ops, c = .storing v ops))

/-- The thread comes to the QP, and there is nothing new. -/
def CaughtUp (cfg : Q → ProxyQp) (q : Q) (s : Service Q C) : Prop :=
  (∃ progressed todo, s.thread = .visit progressed (q :: todo)) ∧
    (s.mem q).cpuDb = (cfg q).served (s.mem q)

variable {running : Bool}

/-- A step of the progress call of the QP itself. -/
theorem Kept.step (h : s.Kept cfg q running) (ha : ¬ (cfg q).Assisted) {c : ProxyCall}
    (ht : s.thread = .progress progressed q' c todo) :
    (s.advance cfg progressed q' (some c) todo).Kept cfg q running := by
  have hcall : ∀ q'', s.thread.callOn q'' = if q'' = q' then some c else none :=
    fun q'' => by rw [ht]; rfl
  obtain ⟨hq', hp'⟩ := h.inv.calling q' (by rw [hcall q', if_pos rfl]; exact Option.some_ne_none c)
  have hinv : (s.advance cfg progressed q' (some c) todo).Inv cfg :=
    h.inv.advance (by rw [ht]; trivial) hcall hq' hp'
      fun q hq => h.inv.left q (by rw [ht]; exact hq)
  have hkept : q ∈ todo ∨ progressed = true ∨ q' = q ∧
      ((∃ v, c = .loaded v ∧ (cfg q).served (s.mem q) < v) ∨ ∃ v ops, c = .storing v ops) := by
    obtain ⟨p, l, hl, -⟩ | ⟨p, q'', c', l, hl, hrest⟩ := h.pass
    · rw [ht] at hl; cases hl
    · rw [ht] at hl
      cases hl
      exact hrest
  refine ⟨hinv, h.running, h.mem, ?_⟩
  rw [← or_assoc] at hkept
  obtain hkept | ⟨rfl, ⟨v, rfl, hlt⟩ | ⟨v, ops, rfl⟩⟩ := hkept
  · -- the pass goes on as before
    unfold Service.advance
    dsimp only
    split
    · exact .inr ⟨_, _, _, _, rfl, hkept.imp_right .inl⟩
    · exact .inl ⟨_, _, rfl, hkept.imp_right fun hp => by rw [hp, Bool.true_or]⟩
  · -- the comparison: there is something new
    have hgood := h.inv.good q'
    rw [hcall q', if_pos rfl] at hgood
    unfold Service.advance ProxyMem.proxyStep
    dsimp only
    rw [if_pos (hgood.behind_iff.2 hlt)]
    exact .inr ⟨_, _, _, _, rfl, .inr (.inr ⟨rfl, .inr ⟨v, _, rfl⟩⟩)⟩
  · cases ops with
    | nil =>
      -- the return: progress is reported
      refine .inl ⟨_, _, rfl, .inr ?_⟩
      simp [ProxyQp.reports, ha]
    | cons op rest => exact .inr ⟨_, _, _, _, rfl, .inr (.inr ⟨rfl, .inr ⟨v, rest, rfl⟩⟩)⟩

/-- **The thread stays in its pass**, or begins another one. -/
theorem Kept.next (h : s.Kept cfg q running) (hp : (cfg q).cpuProxy = true)
    (ha : ¬ (cfg q).Assisted) (hnot : ¬ s.CaughtUp cfg q) :
    ∃ s', s.next cfg = some s' ∧ s'.Kept cfg q running := by
  obtain ⟨progressed, todo, ht, hkept⟩ | ⟨progressed, q', c, todo, ht, -⟩ := h.pass
  · have hhold : s.thread.Holds := by rw [ht]; trivial
    have hnone : ∀ q, s.thread.callOn q = none := by rw [ht]; exact fun _ => rfl
    cases todo with
    | nil =>
      obtain rfl : progressed = true := hkept.resolve_left List.not_mem_nil
      refine ⟨_, (Next.again ht).next_eq, ?_, h.running, h.mem, ?_⟩
      · exact h.inv.move hhold trivial hnone (fun _ => rfl) fun q hq => (Finset.mem_sort _).1 hq
      · exact .inl ⟨_, _, rfl, .inl ((Finset.mem_sort _).2 h.mem)⟩
    | cons q' todo =>
      have hleft : ∀ q ∈ todo, q ∈ s.qps :=
        fun q hq => h.inv.left q (by rw [ht]; exact List.mem_cons_of_mem _ hq)
      by_cases hp' : (cfg q').cpuProxy = true
      · refine ⟨_, (Next.call ht hp').next_eq, ?_, h.running, h.mem, ?_⟩
        · exact h.inv.advance hhold (fun q'' => by rw [hnone q'', ite_self])
            (h.inv.left q' (by rw [ht]; exact List.mem_cons_self)) hp' hleft
        · refine .inr ⟨_, _, _, _, rfl, ?_⟩
          obtain hmem | hflag := hkept
          · obtain rfl | hmem := List.mem_cons.1 hmem
            · -- the load: there is something new
              have hle := (h.inv.good q).le
              have hne : (s.mem q).cpuDb ≠ (cfg q).served (s.mem q) :=
                fun heq => hnot ⟨⟨progressed, todo, ht⟩, heq⟩
              refine .inr (.inr ⟨rfl, .inl ⟨(s.mem q).cpuDb, rfl, ?_⟩⟩)
              have hmem : (s.advance cfg progressed q none todo).mem q = s.mem q :=
                Function.update_self ..
              rw [hmem]
              omega
            · exact .inl hmem
          · exact .inr (.inl hflag)
      · refine ⟨_, (Next.skip ht (Bool.not_eq_true _ ▸ hp')).next_eq, ?_, h.running, h.mem, ?_⟩
        · exact h.inv.move hhold trivial hnone (fun _ => rfl) hleft
        · refine .inl ⟨_, _, rfl, hkept.imp_left fun hmem => ?_⟩
          obtain rfl | hmem := List.mem_cons.1 hmem
          · exact absurd hp hp'
          · exact hmem
  · exact ⟨_, (Next.step ht).next_eq, h.step ha ht⟩

/-- The device publishes one more index just before the thread comes to the QP. -/
theorem Kept.publish [DecidableEq C] (h : s.Kept cfg q running) (hup : s.CaughtUp cfg q) :
    ∃ s', Step cfg s s' ∧ s'.Kept cfg q running ∧ ¬ s'.CaughtUp cfg q := by
  obtain ⟨⟨progressed, todo, ht⟩, heq⟩ := hup
  have hlt : (s.mem q).cpuDb + 1 < (cfg q).served (s.mem q) + 2 ^ 32 := by omega
  have hs : Step cfg s _ := .publish q ((s.mem q).cpuDb + 1) hlt
  refine ⟨_, hs, ⟨h.inv.step hs, h.running, h.mem, .inl ⟨_, _, ht, .inl List.mem_cons_self⟩⟩, ?_⟩
  rintro ⟨-, hup⟩
  dsimp only at hup
  rw [Function.update_self] at hup
  have hserved : max (s.mem q).cpuDb ((s.mem q).cpuDb + 1) = (cfg q).served (s.mem q) := hup
  omega

/-- **The thread may not end** as long as the device goes on: from the beginning of any pass, with a
QP in the set whose progress is reported, there is a run in which the thread moves again and again
and never lets go of the lock, whether the service is being stopped or not. -/
theorem kept_busy [DecidableEq C] (h : Reachable Init (Step cfg) s)
    (ht : s.thread = .visit false s.qps.sort) (hq : q ∈ s.qps) (hp : (cfg q).cpuProxy = true)
    (ha : ¬ (cfg q).Assisted) :
    ∃ σ : ℕ → Service Q C, σ 0 = s ∧ (∀ t, Step cfg (σ t) (σ (t + 1))) ∧
      (∀ t, ∃ u, t ≤ u ∧ (σ u).next cfg = some (σ (u + 1))) ∧
      ∀ t, (σ t).running = s.running ∧ (σ t).serviceLock = some .service := by
  have hkept : s.Kept cfg q s.running :=
    ⟨reachable_inv h, rfl, hq, .inl ⟨_, _, ht, .inl ((Finset.mem_sort _).2 hq)⟩⟩
  have hkeep : ∀ s' : Service Q C, s'.Kept cfg q s.running → ∃ s'',
      (s'.next cfg = some s'' ∨ Step cfg s' s'' ∧ ¬ s''.CaughtUp cfg q ∧ s'.CaughtUp cfg q) ∧
        s''.Kept cfg q s.running := by
    intro s' hk
    by_cases hup : s'.CaughtUp cfg q
    · obtain ⟨s'', hs, hk', hnot⟩ := hk.publish hup
      exact ⟨s'', .inr ⟨hs, hnot, hup⟩, hk'⟩
    · obtain ⟨s'', hn, hk'⟩ := hk.next hp ha hup
      exact ⟨s'', .inl hn, hk'⟩
  obtain ⟨σ, h₀, hrun⟩ := exists_run hkeep hkept
  refine ⟨σ, h₀, fun t => ?_, fun t => ?_, fun t => ⟨(hrun t).1.running, ?_⟩⟩
  · exact (hrun t).2.elim .thread fun hs => hs.1
  · -- the device does not publish twice in turn
    obtain hn | ⟨-, hnot, -⟩ := (hrun t).2
    · exact ⟨t, le_rfl, hn⟩
    · exact ⟨t + 1, Nat.le_succ t, (hrun (t + 1)).2.resolve_right fun hs => hnot hs.2.2⟩
  · refine (hrun t).1.inv.holds.1 ?_
    obtain ⟨_, _, hpc, -⟩ | ⟨_, _, _, _, hpc, -⟩ := (hrun t).1.pass <;> rw [hpc] <;> trivial

/-- The thread is stopped in its first pass, and never tests `running` again. -/
theorem fresh_kept_busy : ∃ σ : ℕ → Service Unit Unit,
    (∀ t, ∃ u, t ≤ u ∧ (σ u).next proxied = some (σ (u + 1))) ∧
      ∀ t, (σ t).running = false ∧ (σ t).serviceLock = some .service := by
  obtain ⟨s, hs, -, hq, ht, -, hc⟩ := visiting_fresh
  have hsort : Finset.sort ({()} : Finset Unit) = [()] := Finset.sort_singleton _ ()
  obtain ⟨σ, -, -, hfair, hkept⟩ := kept_busy (hs.next (.stop hc))
    (ht.trans (by rw [hq, hsort])) (hq ▸ Finset.mem_singleton_self ()) rfl (by decide)
  exact ⟨σ, hfair, hkept⟩

end Service

end Gpunetio
