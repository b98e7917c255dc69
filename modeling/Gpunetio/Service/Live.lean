import Gpunetio.Lib.Response
import Gpunetio.Service.Safety
import Mathlib.Data.Prod.Lex

/-!
# What is published is told to the NIC

A pass of the service brings every QP of the set at least to the index that was published when the
pass began, and it does so again and again: whatever index the device publishes on a QP that is
monitored, the service comes to tell the NIC, however busy the other QPs are.

* `Awaits`, `Inv.awaits_step`: the pass has still to come to an index, until it has been told;
* **`told_by_unlock`**: at the end of a pass;
* `phase`, `ServicePc.stepsLeft`, `Inv.ranked`: what brings the thread to a QP;
* **`published_told`**: in every fair run.
-/

namespace Gpunetio

open Transition Relation Response

/-- The index of a call. -/
def ProxyCall.index : ProxyCall → ℕ
  | loaded v => v
  | storing v _ => v

namespace ProxyQp

variable {qp : ProxyQp} {m : ProxyMem} {c c' : ProxyCall}

/-- A call keeps its index as long as it is under way, and when it returns the NIC has been told. -/
theorem Good.index_step (h : qp.Good m (some c)) :
    match (m.proxyStep qp.sqNumShift8Be qp.ops (some c)).2 with
    | some c' => c'.index = c.index
    | none => c.index ≤ qp.served (m.proxyStep qp.sqNumShift8Be qp.ops (some c)).1 := by
  rcases c with v | ⟨v, _ | ⟨op, todo⟩⟩
  · show match (if m.behind v then some (.storing v qp.ops) else none : Option ProxyCall) with
      | some c' => c'.index = v
      | none => v ≤ qp.served m
    by_cases hb : m.behind v = true
    · rw [if_pos hb]; rfl
    · rw [if_neg hb]
      exact not_lt.1 fun hlt => hb (h.behind_iff.2 hlt)
  · obtain ⟨-, -, ⟨hops, -⟩ | ⟨hs, -⟩⟩ := h.during
    · obtain ⟨-, hops' | hops'⟩ | ⟨-, hops'⟩ := qp.ops_cases <;> rw [hops'] at hops <;> cases hops
    · exact hs.ge
  · rfl

end ProxyQp

/-- The steps that are left of a progress call, at most. -/
def ProxyCall.stepsLeft : ProxyCall → ℕ
  | loaded _ => 6
  | storing _ todo => todo.length + 1

/-- The steps that are left of a pass, at most. -/
def ServicePc.stepsLeft {Q : Type*} : ServicePc Q → ℕ
  | visit _ todo => 8 * todo.length
  | progress _ _ c todo => 8 * todo.length + c.stepsLeft
  | _ => 0

namespace Service

variable {Q C : Type*} [LinearOrder Q] {cfg : Q → ProxyQp} {s s' : Service Q C} {q q' : Q}
  {progressed : Bool} {call : Option ProxyCall} {todo : List Q} {i : ℕ}

/-- The pass has still to come to index `i` of the QP: it has not begun with the QP, or its call has
loaded that index or a later one. -/
def Awaits (i : ℕ) (q : Q) (pc : ServicePc Q) : Prop :=
  q ∈ pc.left ∨ ∃ c ∈ pc.callOn q, i ≤ c.index

instance (i : ℕ) (q : Q) (pc : ServicePc Q) : Decidable (Awaits i q pc) := by
  unfold Awaits
  infer_instance

/-- A step of a progress call, as the QP sees it. -/
theorem Inv.advance_served (h : s.Inv cfg)
    (hcall : ∀ q', s.thread.callOn q' = if q' = q then call else none) (q' : Q) :
    (cfg q').served (s.mem q') ≤
      (cfg q').served ((s.advance cfg progressed q call todo).mem q') := by
  unfold Service.advance
  dsimp only
  by_cases heq : q' = q
  · subst heq
    have hgood := h.good q'
    rw [hcall q', if_pos rfl] at hgood
    rw [Function.update_self]
    exact hgood.step.2
  · rw [Function.update_of_ne heq]

theorem advance_cpuDb (q' : Q) :
    ((s.advance cfg progressed q call todo).mem q').cpuDb = (s.mem q').cpuDb := by
  unfold Service.advance
  dsimp only
  by_cases heq : q' = q
  · subst heq
    rw [Function.update_self]
    rcases call with _ | (v | ⟨v, _ | ⟨op, rest⟩⟩)
    · rfl
    · rfl
    · rfl
    · exact ProxyMem.exec_cpuDb
  · rw [Function.update_of_ne heq]

/-- The thread publishes nothing. -/
theorem next_cpuDb (hn : s.next cfg = some s') (q : Q) : (s'.mem q).cpuDb = (s.mem q).cpuDb := by
  cases Next.of_next hn with
  | call | step => exact advance_cpuDb q
  | test | rdlock | skip | again | leave | unlock => rfl

/-- **No step takes back** what has been published, nor what has been told. -/
theorem Inv.mono [DecidableEq C] (h : s.Inv cfg) (hs : Step cfg s s') (q : Q) :
    (s.mem q).cpuDb ≤ (s'.mem q).cpuDb ∧ (cfg q).served (s.mem q) ≤ (cfg q).served (s'.mem q) := by
  cases hs with
  | thread hn =>
    cases Next.of_next hn with
    | test | rdlock | skip | again | leave | unlock => exact ⟨le_rfl, le_rfl⟩
    | call ht hq =>
      exact ⟨(advance_cpuDb q).ge, h.advance_served (fun q' => by rw [ht, ite_self]; rfl) q⟩
    | step ht => exact ⟨(advance_cpuDb q).ge, h.advance_served (fun q' => by rw [ht]; rfl) q⟩
  | monitor | wrlock | insert | unlock | stop | free => exact ⟨le_rfl, le_rfl⟩
  | publish q' p hp =>
    by_cases heq : q = q'
    · subst heq
      dsimp only
      rw [Function.update_self]
      exact ⟨le_max_left _ _, le_rfl⟩
    · dsimp only
      rw [Function.update_of_ne heq]
      exact ⟨le_rfl, le_rfl⟩
  | ring q' device p ha hp =>
    by_cases heq : q = q'
    · subst heq
      dsimp only
      rw [Function.update_self, ProxyQp.served, if_pos ha, ProxyQp.served, if_pos ha]
      exact ⟨le_rfl, le_rfl⟩
    · dsimp only
      rw [Function.update_of_ne heq]
      exact ⟨le_rfl, le_rfl⟩

/-- A step of a progress call: who has been waiting waits on, or has been told. -/
theorem Inv.advance_awaits (h : s.Inv cfg)
    (hcall : ∀ q', s.thread.callOn q' = if q' = q then call else none)
    (hi : i ≤ (s.mem q').cpuDb)
    (ha : q' ∈ todo ∨ q' = q ∧ ∀ c ∈ call, i ≤ c.index) :
    Awaits i q' (s.advance cfg progressed q call todo).thread ∨
      i ≤ (cfg q').served ((s.advance cfg progressed q call todo).mem q') := by
  obtain hmem | ⟨rfl, hc⟩ := ha
  · exact .inl (.inl (by rw [advance_left]; exact hmem))
  · have hgood := h.good q'
    rw [hcall q', if_pos rfl] at hgood
    have hto := advance_callOn cfg s progressed q' call todo q'
    have hmem : (s.advance cfg progressed q' call todo).mem q' =
        ((s.mem q').proxyStep (cfg q').sqNumShift8Be (cfg q').ops call).1 := Function.update_self ..
    rw [if_pos rfl] at hto
    rw [hmem]
    cases call with
    | none => exact .inl (.inr ⟨_, hto, hi⟩)
    | some c =>
      have hindex := hgood.index_step
      split at hindex
      · rename_i c' hc'
        exact .inl (.inr ⟨c', hto.trans hc', hindex ▸ hc c rfl⟩)
      · exact .inr ((hc c rfl).trans hindex)

/-- **Who waits goes on waiting until told.** -/
theorem Inv.awaits_step [DecidableEq C] (h : s.Inv cfg) (hs : Step cfg s s')
    (hp : (cfg q).cpuProxy = true) (hi : i ≤ (s.mem q).cpuDb) (ha : Awaits i q s.thread) :
    Awaits i q s'.thread ∨ i ≤ (cfg q).served (s'.mem q) := by
  cases hs with
  | thread hn =>
    cases Next.of_next hn with
    | test ht | rdlock ht | again ht | leave ht | unlock ht =>
      rw [ht] at ha
      obtain hmem | ⟨c, hc, -⟩ := ha
      · cases hmem
      · cases hc
    | skip ht hq =>
      rw [ht] at ha
      obtain hmem | ⟨c, hc, -⟩ := ha
      · obtain rfl | hmem := List.mem_cons.1 hmem
        · rw [hp] at hq; cases hq
        · exact .inl (.inl hmem)
      · cases hc
    | call ht hq =>
      rw [ht] at ha
      refine h.advance_awaits (fun q' => by rw [ht, ite_self]; rfl) hi ?_
      obtain hmem | ⟨c, hc, -⟩ := ha
      · exact (List.mem_cons.1 hmem).symm.imp_right fun heq => ⟨heq, nofun⟩
      · cases hc
    | step ht =>
      rw [ht] at ha
      refine h.advance_awaits (fun q' => by rw [ht]; rfl) hi ?_
      refine ha.imp_right ?_
      rintro ⟨c, hc, hle⟩
      obtain ⟨heq, hc⟩ := Option.ite_none_right_eq_some.1 hc
      exact ⟨heq, fun c' hc' => by cases hc'.symm.trans hc; exact hle⟩
  | monitor | wrlock | insert | unlock | stop | free | publish | ring => exact .inl ha

/-- At the end of a pass nobody waits. -/
theorem not_awaits_unlock : ¬ Awaits i q (.unlock : ServicePc Q) := by
  rintro (hmem | ⟨c, hc, -⟩)
  · cases hmem
  · cases hc

/-- **A pass tells everything.** From the beginning of a pass to any end of the loop in a run from
there, the NIC has been told of all that had been published, on every QP of the set with a CPU
proxy, when the pass began. -/
theorem told_by_unlock [DecidableEq C] (h : Reachable Init (Step cfg) s)
    (ht : s.thread = .visit false s.qps.sort) (hrun : ReflTransGen (Step cfg) s s')
    (ht' : s'.thread = .unlock) (hq : q ∈ s.qps) (hp : (cfg q).cpuProxy = true) :
    (s.mem q).cpuDb ≤ (cfg q).served (s'.mem q) := by
  suffices hall : (s.mem q).cpuDb ≤ (s'.mem q).cpuDb ∧
      (Awaits (s.mem q).cpuDb q s'.thread ∨ (s.mem q).cpuDb ≤ (cfg q).served (s'.mem q)) from
    hall.2.resolve_left fun ha => not_awaits_unlock (ht' ▸ ha)
  clear ht'
  induction hrun with
  | refl => exact ⟨le_rfl, .inl (.inl (by rw [ht]; exact (Finset.mem_sort _).2 hq))⟩
  | tail hr hs ih =>
    have hinv := reachable_inv (h.run hr)
    obtain ⟨hcpu, hserved⟩ := hinv.mono hs q
    refine ⟨ih.1.trans hcpu, ?_⟩
    obtain ha | htold := ih.2
    · exact hinv.awaits_step hs hp ih.1 ha
    · exact .inr (htold.trans hserved)

/-- The index one is published, and a pass and another one tell it. -/
theorem passes_fresh : ∃ s s' : Service Unit Unit, Reachable Init (Step proxied) s ∧
    s.thread = .visit false [()] ∧ s.qps = {()} ∧ (s.mem ()).cpuDb = 1 ∧
    ReflTransGen (Step proxied) s s' ∧ s'.thread = .unlock := by
  obtain ⟨⟨running, lock, qps, thread, caller, mem, freed⟩, hs, hr, hq, ht, hm, -⟩ := visiting_fresh
  obtain rfl : thread = .visit false [()] := ht
  obtain rfl : mem = fresh.mem := hm
  obtain rfl : qps = {()} := hq
  have hsort : Finset.sort ({()} : Finset Unit) = [()] := Finset.sort_singleton _ ()
  have h₁ := hs.next (.publish () 1 (Nat.lt_add_left _ (by decide)))
  -- the first pass rings and goes over the set again, the second one finds nothing
  have hfirst := (((((((ReflTransGen.refl (r := Step proxied) (a := (⟨running, lock, {()},
    .visit false [()], caller, Function.update fresh.mem () ⟨1, 0, 0, 0, []⟩, freed⟩ :
      Service Unit Unit))).tail (.thread rfl)).tail (.thread rfl)).tail (.thread rfl)).tail
        (.thread rfl)).tail (.thread rfl)).tail (.thread rfl)).tail (.thread rfl)
  have hagain : ∀ m, Step proxied (⟨running, lock, {()}, .visit true [], caller, m, freed⟩ :
      Service Unit Unit) ⟨running, lock, {()}, .visit false [()], caller, m, freed⟩ :=
    fun m => .thread (by rw [next, hsort])
  have hend := (((hfirst.tail (hagain _)).tail (.thread rfl)).tail (.thread rfl)).tail (.thread rfl)
  exact ⟨_, _, h₁, rfl, rfl, rfl, hend, rfl⟩

/-- The index has been told at the end. -/
theorem passes_told : ∃ s : Service Unit Unit, s.thread = .unlock ∧
    1 ≤ (proxied ()).served (s.mem ()) := by
  obtain ⟨s, s', hs, ht, hqps, hcpu, hrun, ht'⟩ := passes_fresh
  have hsort : s.qps.sort = [()] := by rw [hqps, Finset.sort_singleton]
  have hq : () ∈ s.qps := hqps ▸ Finset.mem_singleton_self ()
  have htold := told_by_unlock hs (ht.trans (congrArg _ hsort.symm)) hrun ht' hq rfl
  exact ⟨s', ht', hcpu ▸ htold⟩

/-! ## Again and again -/

/-- How far the thread is from the next pass. -/
def place : ServicePc Q → ℕ
  | .rdlock => 1
  | .test => 2
  | .unlock => 3
  | .visit _ _ | .progress _ _ _ _ => 4
  | .ended => 5

/-- How far the thread is from a pass that comes to the index. -/
def phase (i : ℕ) (q : Q) (pc : ServicePc Q) : ℕ := if Awaits i q pc then 0 else place pc

/-- The phase first, then the steps left of the pass. -/
def rank (i : ℕ) (q : Q) (s : Service Q C) : ℕ ×ₗ ℕ :=
  toLex (phase i q s.thread, s.thread.stepsLeft)

omit [LinearOrder Q] in
theorem place_pos (pc : ServicePc Q) : 0 < place pc := by cases pc <;> exact Nat.succ_pos _

theorem phase_le (i : ℕ) (q : Q) (pc : ServicePc Q) : phase i q pc ≤ place pc := by
  unfold phase
  split
  · exact Nat.zero_le _
  · exact le_rfl

/-- Within a pass the steps count. -/
theorem rank_lt_of_steps (ha : Awaits i q s.thread → Awaits i q s'.thread)
    (hp : place s'.thread ≤ place s.thread) (hs : s'.thread.stepsLeft < s.thread.stepsLeft) :
    rank i q s' < rank i q s := by
  have hphase : phase i q s'.thread ≤ phase i q s.thread := by
    by_cases hfrom : Awaits i q s.thread
    · rw [phase, if_pos (ha hfrom)]
      exact Nat.zero_le _
    · rw [phase.eq_def i q s.thread, if_neg hfrom]
      exact (phase_le i q _).trans hp
  exact Prod.Lex.toLex_lt_toLex.2 (hphase.lt_or_eq.imp_right fun heq => ⟨heq, hs⟩)

/-- Where a pass that does not come to the index any more ends, the next one comes closer. -/
theorem rank_lt_of_place (hn : ¬ Awaits i q s.thread)
    (hp : Awaits i q s'.thread ∨ place s'.thread < place s.thread) : rank i q s' < rank i q s := by
  refine Prod.Lex.toLex_lt_toLex.2 (.inl ?_)
  rw [phase.eq_def i q s.thread, if_neg hn]
  obtain ha | hlt := hp
  · rw [phase, if_pos ha]
    exact place_pos _
  · exact (phase_le i q _).trans_lt hlt

/-- A progress call has few steps. -/
theorem length_ops_le (qp : ProxyQp) : qp.ops.length ≤ 4 := by
  obtain ⟨-, hops | hops⟩ | ⟨-, hops⟩ := qp.ops_cases <;> rw [hops] <;> decide

/-- A step of a progress call leaves fewer steps. -/
theorem advance_stepsLeft :
    (s.advance cfg progressed q call todo).thread.stepsLeft <
      8 * todo.length + (call.map ProxyCall.stepsLeft).getD 8 := by
  have hops := length_ops_le (cfg q)
  rcases call with _ | (v | ⟨v, _ | ⟨op, rest⟩⟩)
  · exact Nat.add_lt_add_left (by decide : 6 < 8) _
  · unfold Service.advance ProxyMem.proxyStep
    dsimp only
    by_cases hb : (s.mem q).behind v = true
    · rw [if_pos hb]
      simp only [ServicePc.stepsLeft, ProxyCall.stepsLeft, Option.map_some, Option.getD_some]
      omega
    · rw [if_neg hb]
      simp only [ServicePc.stepsLeft, ProxyCall.stepsLeft, Option.map_some, Option.getD_some]
      omega
  · exact Nat.lt_succ_self _
  · exact Nat.lt_succ_self _

omit [LinearOrder Q] in
theorem place_of_holds {pc : ServicePc Q} (h : pc.Holds) : place pc ≤ 4 := by
  cases pc with
  | visit | progress => exact le_rfl
  | unlock => exact Nat.le_succ 3
  | test | rdlock | ended => exact h.elim

/-- **The thread comes closer** with every step of its own. -/
theorem Inv.rank_next [DecidableEq C] (h : s.Inv cfg) (hn : s.next cfg = some s')
    (hr : s.running = true) (hq : q ∈ s.qps) (hp : (cfg q).cpuProxy = true)
    (hi : i ≤ (s.mem q).cpuDb) (htold : ¬ i ≤ (cfg q).served (s'.mem q)) :
    rank i q s' < rank i q s := by
  have hkeep : Awaits i q s.thread → Awaits i q s'.thread := fun ha =>
    (h.awaits_step (.thread hn) hp hi ha).resolve_right htold
  have hnot : s.thread.left = [] → (∀ q, s.thread.callOn q = none) → ¬ Awaits i q s.thread := by
    rintro hl hc (hmem | ⟨c, hcall, -⟩)
    · rw [hl] at hmem; cases hmem
    · rw [hc q] at hcall; cases hcall
  have hall : Awaits i q (.visit false s.qps.sort) := .inl ((Finset.mem_sort _).2 hq)
  cases Next.of_next hn with
  | test ht =>
    refine rank_lt_of_place (hnot (by rw [ht]; rfl) (by rw [ht]; exact fun _ => rfl)) (.inr ?_)
    dsimp only
    rw [if_pos hr, ht]
    exact Nat.lt_succ_self 1
  | rdlock ht hl =>
    exact rank_lt_of_place (hnot (by rw [ht]; rfl) (by rw [ht]; exact fun _ => rfl)) (.inl hall)
  | skip ht hq' =>
    refine rank_lt_of_steps hkeep (by rw [ht]; exact le_rfl) ?_
    rw [ht]
    exact Nat.lt_add_of_pos_right (by decide : 0 < 8)
  | call ht hq' =>
    refine rank_lt_of_steps hkeep ?_ (advance_stepsLeft.trans_eq (by rw [ht]; rfl))
    rw [ht]
    exact place_of_holds advance_holds
  | step ht =>
    refine rank_lt_of_steps hkeep ?_ (advance_stepsLeft.trans_eq (by rw [ht]; rfl))
    rw [ht]
    exact place_of_holds advance_holds
  | again ht =>
    exact rank_lt_of_place (hnot (by rw [ht]; rfl) (by rw [ht]; exact fun _ => rfl)) (.inl hall)
  | leave ht =>
    refine rank_lt_of_place (hnot (by rw [ht]; rfl) (by rw [ht]; exact fun _ => rfl)) (.inr ?_)
    rw [ht]
    exact Nat.lt_succ_self 3
  | unlock ht =>
    refine rank_lt_of_place (hnot (by rw [ht]; rfl) (by rw [ht]; exact fun _ => rfl)) (.inr ?_)
    rw [ht]
    exact Nat.lt_succ_self 2

/-- A QP that is monitored stays so. -/
theorem qps_subset [DecidableEq C] (hs : Step cfg s s') : s.qps ⊆ s'.qps := by
  cases hs with
  | thread hn => cases Next.of_next hn <;> exact subset_rfl
  | insert c hc => exact Finset.subset_insert ..
  | monitor | wrlock | unlock | stop | free | publish | ring => exact subset_rfl

/-- Only its own steps move the thread. -/
theorem thread_eq [DecidableEq C] (hs : Step cfg s s') :
    s.next cfg = some s' ∨ s'.thread = s.thread := by
  cases hs with
  | thread hn => exact .inl hn
  | monitor | wrlock | insert | unlock | stop | free | publish | ring => exact .inr rfl

/-- As long as the service is not stopped, the thread comes to every index published. -/
theorem ranked [DecidableEq C] (cfg : Q → ProxyQp) (hp : (cfg q).cpuProxy = true) (i : ℕ) :
    Ranked (fun s s' : Service Q C => s'.running = true ∧ Step cfg s s')
      (fun s s' => s.next cfg = some s')
      (fun s => s.Inv cfg ∧ s.running = true ∧ q ∈ s.qps ∧ i ≤ (s.mem q).cpuDb)
      (fun s => i ≤ (cfg q).served (s.mem q)) (rank i q) where
  keep := by
    rintro s s' ⟨hinv, hr, hq, hi⟩ ⟨hr', hs⟩
    by_cases htold : i ≤ (cfg q).served (s'.mem q)
    · exact .inl htold
    · refine .inr ⟨⟨hinv.step hs, hr', qps_subset hs hq, hi.trans (hinv.mono hs q).1⟩, ?_⟩
      obtain hn | ht := thread_eq hs
      · exact (hinv.rank_next hn hr hq hp hi htold).le
      · rw [rank, rank, ht]
  lower := by
    rintro s s' ⟨hinv, hr, hq, hi⟩ hn
    by_cases htold : i ≤ (cfg q).served (s'.mem q)
    · exact .inl htold
    · exact .inr (hinv.rank_next hn hr hq hp hi htold)

/-- **Whatever is published is told to the NIC.** In every run in which the service is not stopped
and its thread moves again and again, each index that is published on a QP of the set with a CPU
proxy is told at some time, and from then on, however busy the other QPs and the callers are. -/
theorem published_told [DecidableEq C] {σ : ℕ → Service Q C} (h₀ : Reachable Init (Step cfg) (σ 0))
    (hs : ∀ t, Step cfg (σ t) (σ (t + 1))) (hr : ∀ t, (σ t).running = true)
    (hf : ∀ t, ∃ u, t ≤ u ∧ (σ u).next cfg = some (σ (u + 1))) {t : ℕ}
    (hq : q ∈ (σ t).qps) (hp : (cfg q).cpuProxy = true) :
    ∃ u, t ≤ u ∧ ∀ w, u ≤ w → ((σ t).mem q).cpuDb ≤ (cfg q).served ((σ w).mem q) := by
  have hreach : ∀ w, Reachable Init (Step cfg) (σ w) := fun w => by
    induction w with
    | zero => exact h₀
    | succ w ih => exact ih.next (hs w)
  obtain ⟨u, htu, htold⟩ := (ranked cfg hp ((σ t).mem q).cpuDb).eventually
    (fun w => ⟨hr (w + 1), hs w⟩)
    (fun w => (hf w).imp fun u hu => ⟨hu.1, .inr hu.2⟩) ⟨reachable_inv (hreach t), hr t, hq, le_rfl⟩
  refine ⟨u, htu, fun w huw => ?_⟩
  induction w, huw using Nat.le_induction with
  | base => exact htold
  | succ w _ ih => exact ih.trans ((reachable_inv (hreach w)).mono (hs w) q).2

/-- With no caller under way the thread is not blocked. -/
theorem Inv.next_alone (h : s.Inv cfg) (hc : ∀ c, s.caller c = none) (hne : s.thread ≠ .ended) :
    ∃ s', s.next cfg = some s' ∧ (∀ c, s'.caller c = none) ∧ s'.running = s.running := by
  have hnext : ∃ s', s.next cfg = some s' := by
    unfold Service.next
    split
    case h_2 ht =>
      split
      · exact ⟨_, rfl⟩
      · rename_i o hl
        cases o with
        | service => exact absurd (h.holds.2 hl) (by rw [ht]; exact id)
        | caller c =>
          obtain ⟨q, stage, hcaller, -⟩ := (h.caller c).1 hl
          rw [hc c] at hcaller
          cases hcaller
    case h_3 =>
      split
      · exact ⟨_, rfl⟩
      · exact ⟨_, rfl⟩
    case h_8 ht => exact absurd ht hne
    all_goals exact ⟨_, rfl⟩
  obtain ⟨s', hs'⟩ := hnext
  refine ⟨s', hs', ?_⟩
  cases Next.of_next hs' <;> exact ⟨hc, rfl⟩

/-- The index is told in a run of the thread alone, and from some time on. -/
theorem fresh_told : ∃ σ : ℕ → Service Unit Unit, ((σ 0).mem ()).cpuDb = 1 ∧
    ∃ u, ∀ w, u ≤ w → 1 ≤ (proxied ()).served ((σ w).mem ()) := by
  obtain ⟨s, hs, hr, hq, -, hm, hc⟩ := visiting_fresh
  have hs' := hs.next (.publish () 1 (Nat.lt_add_left _ (by decide)))
  have hkeep : ∀ s : Service Unit Unit,
      (s.Inv proxied ∧ (∀ c, s.caller c = none) ∧ s.running = true) →
      ∃ s', s.next proxied = some s' ∧
        (s'.Inv proxied ∧ (∀ c, s'.caller c = none) ∧ s'.running = true) := by
    rintro s ⟨hi, hc, hr⟩
    obtain ⟨s', hn, hc', hr'⟩ := hi.next_alone hc fun ht => by rw [hi.ended ht] at hr; cases hr
    exact ⟨s', hn, hi.step (.thread hn), hc', hr'.trans hr⟩
  obtain ⟨σ, hσ, hrun⟩ := exists_run hkeep ⟨reachable_inv hs', hc, hr⟩
  have hcpu : ((σ 0).mem ()).cpuDb = 1 := by
    rw [hσ, hm]
    rfl
  obtain ⟨u, -, htold⟩ := published_told (t := 0) (q := ()) (hσ ▸ hs') (fun t => .thread (hrun t).2)
    (fun t => (hrun t).1.2.2) (fun t => ⟨t, le_rfl, (hrun t).2⟩)
    (by rw [hσ]; exact hq ▸ Finset.mem_singleton_self ()) rfl
  exact ⟨σ, hcpu, u, hcpu ▸ htold⟩

end Service

end Gpunetio
