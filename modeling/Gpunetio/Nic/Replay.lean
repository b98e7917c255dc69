import Gpunetio.Nic.Model
import Mathlib.Data.List.Basic
import Mathlib.Data.List.Induction

/-!
# The NIC executes what has been posted

Whatever the interleaving of the threads, and however far the NIC reads ahead, the memory is that of
the WQEs executed one after the other in the order of their reservation. A thread that waits for a
ticket goes on only after the WQE of the ticket has been executed.

* `Qp.getElem?_log`: where the WQEs of a reservation are in the log;
* `Qp.Inv.fetch_eq`: what the NIC reads in a slot is the WQE of the index;
* `NicQp.Inv`, `NicQp.Inv.step`, `NicQp.reachable_inv`, `NicQp.inOrder`: the NIC executes a log in
  order;
* `NicQp.Inv.overwrite`: a slot is used again when its WQE has been executed;
* **`NicQp.linearizes`**, **`NicQp.wait_executed`**; `NicQp.mem_of_last_lt`, `NicQp.mem_of_le_last`.
-/

namespace Gpunetio

open Transition Relation

variable {A M : Type*} {cfg : QpConfig}

/-! ## The log -/

namespace Qp

variable {s : Qp A cfg} {r : Rsv A cfg} {i : ℕ}

theorem log_cons (rs : List (Rsv A cfg)) (r : Rsv A cfg) :
    (r :: rs).reverse.flatMap Rsv.wqes = rs.reverse.flatMap Rsv.wqes ++ r.wqes := by
  rw [List.reverse_cons, List.flatMap_append, List.flatMap_singleton]

theorem length_log_of_chain {rs : List (Rsv A cfg)} {n : ℕ}
    (h : Ledger.Chain Rsv.base Rsv.stop rs n) : (rs.reverse.flatMap Rsv.wqes).length = n := by
  induction rs generalizing n with
  | nil => exact (h : n = 0).symm
  | cons r rs ih =>
    obtain ⟨rfl, -, htail⟩ := h
    rw [log_cons, List.length_append, ih htail, Rsv.stop]

theorem getElem?_log_of_chain {rs : List (Rsv A cfg)} {n : ℕ}
    (h : Ledger.Chain Rsv.base Rsv.stop rs n) (hr : r ∈ rs) (hi : r.base ≤ i) (hi' : i < r.stop) :
    (rs.reverse.flatMap Rsv.wqes)[i]? = r.wqes[i - r.base]? := by
  induction rs generalizing n with
  | nil => cases hr
  | cons r' rs ih =>
    obtain ⟨rfl, -, htail⟩ := h
    have hlen := length_log_of_chain htail
    rw [log_cons]
    obtain rfl | hr := List.mem_cons.1 hr
    · rw [List.getElem?_append_right (by omega), hlen]
    · rw [List.getElem?_append_left (by have := htail.hi_le hr; omega)]
      exact ih htail hr

/-- The log around the WQEs of a reservation. -/
theorem log_split_of_chain {rs : List (Rsv A cfg)} {n : ℕ}
    (h : Ledger.Chain Rsv.base Rsv.stop rs n) (hr : r ∈ rs) :
    ∃ pre post, rs.reverse.flatMap Rsv.wqes = pre ++ (r.wqes ++ post) ∧ pre.length = r.base ∧
      ∀ w ∈ pre ++ post, ∃ r' ∈ rs, r' ≠ r ∧ w ∈ r'.wqes := by
  induction rs generalizing n with
  | nil => cases hr
  | cons r' rs ih =>
    obtain ⟨rfl, hlt, htail⟩ := h
    rw [log_cons]
    obtain rfl | hr := List.mem_cons.1 hr
    · refine ⟨rs.reverse.flatMap Rsv.wqes, [], by rw [List.append_nil],
        length_log_of_chain htail, fun w hw => ?_⟩
      rw [List.append_nil, List.mem_flatMap] at hw
      obtain ⟨r', hr', hw⟩ := hw
      refine ⟨r', List.mem_cons_of_mem _ (List.mem_reverse.1 hr'), ?_, hw⟩
      rintro rfl
      exact absurd (htail.hi_le (List.mem_reverse.1 hr')) (Nat.not_le.2 r'.lt_stop)
    · obtain ⟨pre, post, hlog, hlen, hothers⟩ := ih htail hr
      refine ⟨pre, post ++ r'.wqes, ?_, hlen, fun w hw => ?_⟩
      · rw [hlog, List.append_assoc, List.append_assoc]
      · rw [← List.append_assoc, List.mem_append] at hw
        obtain hw | hw := hw
        · obtain ⟨q, hq, hne, hmem⟩ := hothers w hw
          exact ⟨q, List.mem_cons_of_mem _ hq, hne, hmem⟩
        · refine ⟨r', List.mem_cons_self, ?_, hw⟩
          rintro rfl
          exact absurd (htail.hi_le hr) (Nat.not_le.2 r'.lt_stop)

theorem Inv.log_split (h : s.Inv) (hr : r ∈ s.rsvs) :
    ∃ pre post, s.log = pre ++ (r.wqes ++ post) ∧ pre.length = r.base ∧
      ∀ w ∈ pre ++ post, ∃ r' ∈ s.rsvs, r' ≠ r ∧ w ∈ r'.wqes :=
  log_split_of_chain h.ledger.chain hr

/-- The WQEs of a reservation are in the log at their indices. -/
theorem Inv.getElem?_log (h : s.Inv) (hr : r ∈ s.rsvs) (hi : r.base ≤ i) (hi' : i < r.stop) :
    s.log[i]? = r.wqes[i - r.base]? := getElem?_log_of_chain h.ledger.chain hr hi hi'

/-! ## Reading a slot -/

theorem filterMap_getElem?_range (w : Wqe) : (List.range w.length).filterMap (w[·]?) = w := by
  induction w using List.reverseRecOn with
  | nil => rfl
  | append_singleton w g ih =>
    have hfront : (List.range w.length).filterMap ((w ++ [g])[·]?) =
        (List.range w.length).filterMap (w[·]?) := by
      apply List.filterMap_congr
      intro j hj
      exact List.getElem?_append_left (List.mem_range.1 hj)
    rw [List.length_append, List.length_singleton, List.range_succ, List.filterMap_append, hfront,
      ih, List.filterMap_cons_some (List.getElem?_concat_length ..), List.filterMap_nil]

/-- **What the NIC reads** at an index it has been told of is the WQE posted there. -/
theorem Inv.fetch_eq (h : s.Inv) (hw : ∀ r ∈ s.rsvs, ∀ w ∈ r.wqes, w.Counted)
    (hi : s.Rung i) (hp : s.cq.produced ≤ i) : s.log[i]? = some (s.fetch i) := by
  obtain ⟨r, hr, ⟨hbase, hstop⟩, hst⟩ := h.rung_stored hi
  have hlt : i - r.base < r.wqes.length := by
    simp only [Rsv.stop] at hstop
    omega
  have hget : r.wqes[i - r.base]? = some r.wqes[i - r.base] := List.getElem?_eq_getElem hlt
  generalize r.wqes[i - r.base] = w at hget
  have hslot : ∀ j, j < w.length →
      (s.wq (cfg.slot i) j).map Prod.snd = w[j]? := by
    intro j hj
    have hseg : w[j]? = some w[j] := List.getElem?_eq_getElem hj
    have hmem : (i, j, w[j]) ∈ r.stores := Rsv.mem_stores.2 ⟨hbase, w, hget, hseg⟩
    rw [(hst j _ hmem).2 hp, hseg]
    rfl
  obtain ⟨c, hc, hcount⟩ := hw r hr w (List.mem_of_getElem? hget)
  have hpos : 0 < w.length := (List.getElem?_eq_some_iff.1 hc).1
  have hds : ((s.wq (cfg.slot i) 0).map fun c => c.2.dsCount).getD 0 = w.length := by
    have hfirst := hslot 0 hpos
    rw [hc] at hfirst
    obtain ⟨c', hc', rfl⟩ := Option.map_eq_some_iff.1 hfirst
    rw [hc', Option.map_some, Option.getD_some, hcount]
  have hread : s.fetch i = w := by
    unfold Qp.fetch
    rw [hds]
    refine Eq.trans (List.filterMap_congr fun j hj => ?_) (filterMap_getElem?_range w)
    exact hslot j (List.mem_range.1 hj)
  rw [h.getElem?_log hr hbase hstop, hget, hread]

theorem Exec.produced_eq [DecidableEq A] {a : A} {s' : Qp A cfg} (h : Exec a s s') :
    s'.cq.produced = s.cq.produced := by
  cases h with
  | @poll o ph ha => exact ph.produced_effect s.cq
  | store | stored | markCas | markLoad | markStore | lock | stage => rfl

end Qp

/-! ## The NIC -/

namespace NicQp

variable {s s' : NicQp A cfg M} {effect : Wqe → M → M} {m₀ : M}

/-- What the NIC has read it has been told of, and it reports only what it has executed. -/
structure Inv (s : NicQp A cfg M) : Prop where
  qp : s.qp.Inv
  counted : ∀ r ∈ s.qp.rsvs, ∀ w ∈ r.wqes, w.Counted
  pending_le : s.pending.length ≤ s.fetched
  produced_le : s.qp.cq.produced ≤ s.executed
  fetched_le : s.fetched ≤ s.qp.door.sqWqePi

/-- The NIC as the executor of the log. -/
def inOrder (s : NicQp A cfg M) : InOrder Wqe M := ⟨s.qp.log, s.fetched, s.pending, s.mem⟩

theorem executed_le (s : NicQp A cfg M) : s.executed ≤ s.fetched := Nat.sub_le _ _

/-- The next WQE is in its slot. -/
theorem Inv.fetch_eq (h : s.Inv) (hr : s.qp.Rung s.fetched) :
    s.qp.log[s.fetched]? = some (s.qp.fetch s.fetched) :=
  h.qp.fetch_eq h.counted hr (h.produced_le.trans s.executed_le)

theorem Init.inv {env : HostEnv} (h : Init env m₀ s) : s.Inv where
  qp := h.qp.inv
  counted := by simp [h.qp.rsvs]
  pending_le := by simp [h.pending]
  produced_le := by rw [h.qp.produced]; exact Nat.zero_le _
  fetched_le := by rw [h.fetched]; exact Nat.zero_le _

/-- A step of the threads, which the NIC does not see but for a doorbell. -/
theorem Inv.thread (h : s.Inv) {q : Qp A cfg} (hq : q.Inv)
    (hw : ∀ r ∈ q.rsvs, ∀ w ∈ r.wqes, w.Counted)
    (hp : q.cq.produced = s.qp.cq.produced) (hd : s.qp.door.sqWqePi ≤ q.door.sqWqePi) :
    Inv { s with qp := q } where
  qp := hq
  counted := hw
  pending_le := h.pending_le
  produced_le := hp.trans_le h.produced_le
  fetched_le := h.fetched_le.trans hd

/-- Reading ahead executes nothing. -/
theorem executed_fetch (s : NicQp A cfg M) (w : Wqe) :
    executed { s with fetched := s.fetched + 1, pending := s.pending ++ [w] } = s.executed := by
  simp only [executed, List.length_append, List.length_singleton]
  omega

theorem Inv.executed_execute (h : s.Inv) {w : Wqe} {rest : List Wqe} {m : M}
    (hp : s.pending = w :: rest) :
    executed { s with pending := rest, mem := m } = s.executed + 1 := by
  have hle := h.pending_le
  simp only [executed, hp, List.length_cons] at hle ⊢
  omega

variable [DecidableEq A]

/-- **Every step keeps the invariant.** -/
theorem Inv.step (h : s.Inv) (hs : Step effect s s') : s'.Inv := by
  cases hs with
  | post r ha hb hw =>
    refine h.thread (h.qp.post ha hb) (fun r' hr' => ?_) rfl le_rfl
    obtain rfl | hr' := List.mem_cons.1 hr'
    · exact hw
    · exact h.counted r' hr'
  | wait a ticket ha ht => exact h.thread (h.qp.wait ha ht) h.counted rfl le_rfl
  | exec a hs =>
    obtain ⟨hrsvs, -, hpi⟩ := h.qp.exec_mono hs
    exact h.thread (h.qp.exec hs) (by rw [hrsvs]; exact h.counted) hs.produced_eq hpi
  | fetch hr =>
    have hlt := h.qp.lt_of_rung hr
    refine ⟨h.qp, h.counted, ?_, (executed_fetch s _).symm ▸ h.produced_le, hlt⟩
    rw [List.length_append]
    exact Nat.succ_le_succ h.pending_le
  | execute w rest hp =>
    have hle := h.pending_le
    rw [hp, List.length_cons] at hle
    refine ⟨h.qp, h.counted, (Nat.le_succ _).trans hle, ?_, h.fetched_le⟩
    rw [h.executed_execute hp]
    exact h.produced_le.trans (Nat.le_succ _)
  | complete hs hx =>
    cases hs with
    | complete e hr he hok =>
      exact ⟨h.qp.nic hr he hok, h.counted, h.pending_le, hx, h.fetched_le⟩

theorem reachable_inv {env : HostEnv} (h : Reachable (Init env m₀) (Step effect) s) : s.Inv :=
  h.invariant (fun _ => Init.inv) fun _ _ => Inv.step

/-- A step of the threads or of the NIC is one of the executor, or none. -/
theorem Inv.inOrder_step (h : s.Inv) (hs : Step effect s s') :
    ReflTransGen (InOrder.Step effect) s.inOrder s'.inOrder := by
  cases hs with
  | post r ha hb hw =>
    have hlog : (s.qp.post r).log = s.qp.log ++ r.wqes := Qp.log_cons s.qp.rsvs r
    have hto : inOrder { s with qp := s.qp.post r } =
        { s.inOrder with log := s.inOrder.log ++ r.wqes } := by
      simp only [inOrder, hlog]
    rw [hto]
    exact .single (.append r.wqes)
  | wait a ticket ha ht => exact .refl
  | exec a hs =>
    have hlog := congrArg (fun rs => (List.reverse rs).flatMap Rsv.wqes) (h.qp.exec_mono hs).1
    simp only [inOrder, Qp.log]
    rw [hlog]
  | fetch hr => exact .single (.fetch _ (h.fetch_eq hr))
  | execute w rest hp => exact .single (.execute w rest hp)
  | complete hs hx => cases hs; exact .refl

/-- **The NIC executes the log in order**: the system refines the executor. -/
theorem reachable_inOrder {env : HostEnv} (h : Reachable (Init env m₀) (Step effect) s) :
    Reachable (InOrder.Init m₀) (InOrder.Step effect) s.inOrder := by
  refine h.simulate inOrder (fun s h₀ => ?_) fun _ _ hr _ hs => (reachable_inv hr).inOrder_step hs
  exact ⟨by simp [inOrder, Qp.log, h₀.qp.rsvs], h₀.fetched, h₀.pending, h₀.mem⟩

/-- The memory is that of the WQEs executed so far. -/
theorem mem_eq_replay {env : HostEnv} (h : Reachable (Init env m₀) (Step effect) s) :
    s.mem = replay effect (s.qp.log.take s.executed) m₀ :=
  InOrder.mem_eq_replay (reachable_inOrder h)

/-- A step of the NIC on the WQEs it has read does not touch the QP. -/
theorem Step.qp_step (hs : Step effect s s') : s'.qp = s.qp ∨ Qp.Step s.qp s'.qp := by
  cases hs with
  | post r ha hb => exact .inr (.post r ha hb)
  | wait a ticket ha ht => exact .inr (.wait a ticket ha ht)
  | exec a hs => exact .inr (.exec a hs)
  | complete hs => exact .inr (.nic hs)
  | fetch | execute => exact .inl rfl

/-- **A step that changes a slot** stores a segment of the WQE already there, or of one whose slot
holds only what has been executed. -/
theorem Inv.overwrite (h : s.Inv) (hs : Step effect s s') {i j : ℕ}
    (hne : s'.qp.wq i j ≠ s.qp.wq i j) {j' x : ℕ} {seg' : Seg}
    (hx : s.qp.wq i j' = some (x, seg')) :
    x < s.executed ∨ ∃ seg, s'.qp.wq i j = some (x, seg) := by
  obtain heq | hs := hs.qp_step
  · exact (hne (by rw [heq])).elim
  · exact (h.qp.overwrite hs hne hx).imp_left fun hlt => hlt.trans_le h.produced_le

/-- **Posts take effect in the order of their reservation.** In every reachable state, however far
the NIC has read ahead of what it has executed, the memory is that of the WQEs executed so far, one
after the other in the order of their indices; these are the WQEs of the reservations, each at its
place; the NIC has executed what it has reported and nothing it has not been told of; and no step
changes a slot that holds a WQE not executed yet, other than by storing that WQE. -/
theorem linearizes {env : HostEnv} (h : Reachable (Init env m₀) (Step effect) s) :
    s.mem = replay effect (s.qp.log.take s.executed) m₀ ∧
      (∀ r ∈ s.qp.rsvs, ∀ k < r.wqes.length, s.qp.log[r.base + k]? = r.wqes[k]?) ∧
      (s.qp.cq.produced ≤ s.executed ∧ s.executed ≤ s.qp.door.sqWqePi) ∧
      ∀ s', Step effect s s' → ∀ i j, s'.qp.wq i j ≠ s.qp.wq i j →
        ∀ j' x seg', s.qp.wq i j' = some (x, seg') →
          x < s.executed ∨ ∃ seg, s'.qp.wq i j = some (x, seg) := by
  have hinv := reachable_inv h
  refine ⟨mem_eq_replay h, fun r hr k hk => ?_, ⟨hinv.produced_le,
    s.executed_le.trans hinv.fetched_le⟩, fun s' hs i j hne j' x seg' hx =>
      hinv.overwrite hs hne hx⟩
  have hget := hinv.qp.getElem?_log hr (Nat.le_add_right r.base k) (Nat.add_lt_add_left hk _)
  rwa [Nat.add_sub_cancel_left] at hget

/-- The only thread of a QP stores the rest of its segments. -/
theorem stored_run (effect : Wqe → M → M) (m : M) {r : Rsv Unit cfg} {todo : List (ℕ × ℕ × Seg)}
    {q : Qp Unit cfg}
    (hq : q.phase () = some (.write r todo)) :
    ∃ q' : Qp Unit cfg, ReflTransGen (Step effect) ⟨q, 0, [], m⟩ ⟨q', 0, [], m⟩ ∧
      q'.phase () = some (.write r []) ∧ q'.sqRsvdIndex = q.sqRsvdIndex ∧
      q'.sqReadyIndex = q.sqReadyIndex ∧ q'.door = q.door ∧ q'.cq = q.cq ∧ q'.rsvs = q.rsvs := by
  induction todo generalizing q with
  | nil => exact ⟨q, .refl, hq, rfl, rfl, rfl, rfl, rfl⟩
  | cons x todo ih =>
    obtain ⟨q', hrun, hrest⟩ := ih (q := (q.store () x).goto () (some (.write r todo))) rfl
    exact ⟨q', .head (.exec () (.store hq)) hrun, hrest⟩

/-- On a QP of four slots a first reservation is posted and rung, and its thread is idle again. -/
theorem posted (effect : Wqe → M → M) (m₀ : M) (r : Rsv Unit Qp.fourSlots) (hb : r.base = 0)
    (hw : ∀ w ∈ r.wqes, w.Counted) :
    ∃ q : Qp Unit Qp.fourSlots,
      Reachable (Init ⟨4096, 4194303⟩ m₀) (Step effect) ⟨q, 0, [], m₀⟩ ∧ q.phase () = none ∧
        (∀ i < r.stop, q.Rung i) ∧ q.cq = (Qp.fresh Unit).cq ∧ q.rsvs = [r] := by
  have h₀ : Reachable (Init ⟨4096, 4194303⟩ m₀) (Step effect) ⟨Qp.fresh Unit, 0, [], m₀⟩ :=
    .start ⟨Qp.init_fresh Unit, rfl, rfl, rfl⟩
  have hfree : ¬ Qp.fourSlots.sqWqeNum ≤ r.last := by
    have hle := r.le
    have hpos := r.pos
    simp only [Rsv.last, hb]
    omega
  have hphase : ((Qp.fresh Unit).post r).phase () = some (.write r r.stores) := by
    rw [Qp.post, Qp.goto_phase_self, Qp.reserved, if_neg hfree]
  have h₁ := h₀.next (.post r rfl hb hw)
  obtain ⟨q, hrun, hq, hrsvd, hready, hdoor, hcq, hrsvs⟩ :=
    stored_run effect m₀ hphase
  have h₂ := (h₁.run hrun).next (.exec () (.stored hq))
  have h₃ := (h₂.next (.exec () (.markCas (Qp.goto_phase_self ..) rfl (hready.trans hb.symm)))).next
    (.exec () (.lock (Qp.goto_phase_self ..) (congrArg Door.sqLock hdoor)))
  have hwon : Door.won (.db r.stop) { q.door with sqLock := true } = true := by
    have hpi : q.door.sqWqePi = 0 := congrArg Door.sqWqePi hdoor
    have hlt := r.lt_stop
    simp only [Door.won, SubmitCall.prodIndex, hpi, decide_eq_true_eq]
    omega
  have hnext : ((Stage.atomicMax.next (Door.won (.db r.stop) { q.door with sqLock := true })).map
      (Phase.submit r)) = some (.submit r .ringFirst) := by
    rw [hwon]
    rfl
  have h₄ := (h₃.next (.exec () (.stage (Qp.goto_phase_self ..)))).next
    (.exec () (.stage ((Qp.goto_phase_self ..).trans hnext)))
  have h₅ := (h₄.next (.exec () (.stage (Qp.goto_phase_self ..)))).next
    (.exec () (.stage (Qp.goto_phase_self ..)))
  have h₆ := h₅.next (.exec () (.stage (Qp.goto_phase_self ..)))
  exact ⟨_, h₆, Qp.goto_phase_self .., fun i hi => ⟨r.stop, .inl List.mem_cons_self, hi⟩, hcq,
    hrsvs⟩

theorem counted_oneNop : ∀ w ∈ Qp.oneNop.wqes, w.Counted := by
  intro w hw
  obtain rfl := List.mem_singleton.1 hw
  exact ⟨_, rfl, by decide⟩

/-- The NOP is executed, by a NIC that counts. -/
theorem oneNop_linearizes :
    ∃ s : NicQp Unit Qp.fourSlots ℕ, s.executed = 1 ∧
      s.mem = replay (fun _ n => n + 1) (s.qp.log.take s.executed) 0 := by
  obtain ⟨q, hs, -, hrung, -⟩ := posted (fun _ n => n + 1) 0 Qp.oneNop rfl counted_oneNop
  have hexec := (hs.next (.fetch (hrung 0 Nat.one_pos))).next (.execute _ [] rfl)
  exact ⟨_, rfl, (linearizes hexec).1⟩

/-- The memory once all WQEs of a reservation have been executed: those before, its own, and others
after them. -/
theorem mem_of_last_lt {env : HostEnv} (h : Reachable (Init env m₀) (Step effect) s)
    {r : Rsv A cfg} (hr : r ∈ s.qp.rsvs) (hlast : r.last < s.executed) :
    ∃ pre post, s.mem = replay effect post (replay effect r.wqes (replay effect pre m₀)) ∧
      ∀ w ∈ pre ++ post, ∃ r' ∈ s.qp.rsvs, r' ≠ r ∧ w ∈ r'.wqes := by
  obtain ⟨pre, post, hlog, hlen, hothers⟩ := (reachable_inv h).qp.log_split hr
  have hstop := r.last_add_one
  have hcut : s.executed = pre.length + (r.wqes.length + (s.executed - r.stop)) := by
    simp only [Rsv.stop] at hstop ⊢
    omega
  refine ⟨pre, post.take (s.executed - r.stop), ?_, fun w hw => hothers w ?_⟩
  · rw [mem_eq_replay h, hlog, hcut, List.take_length_add_append,
      List.take_length_add_append, replay_append, replay_append, ← hcut]
  · rw [List.mem_append] at hw ⊢
    exact hw.imp_right List.mem_of_mem_take

/-- The memory before the last WQE of a reservation has been executed: those before, and some of its
own. -/
theorem mem_of_le_last {env : HostEnv} (h : Reachable (Init env m₀) (Step effect) s)
    {r : Rsv A cfg} (hr : r ∈ s.qp.rsvs) (hlast : s.executed ≤ r.last) :
    ∃ l, s.mem = replay effect l m₀ ∧
      ∀ w ∈ l, w ∈ r.wqes.take (r.wqes.length - 1) ∨
        ∃ r' ∈ s.qp.rsvs, r' ≠ r ∧ w ∈ r'.wqes := by
  obtain ⟨pre, post, hlog, hlen, hothers⟩ := (reachable_inv h).qp.log_split hr
  refine ⟨s.qp.log.take s.executed, mem_eq_replay h, fun w hw => ?_⟩
  have hle : s.executed ≤ (pre ++ r.wqes.take (r.wqes.length - 1)).length := by
    rw [List.length_append, List.length_take, hlen]
    simp only [Rsv.last] at hlast
    omega
  have hfront : s.qp.log =
      pre ++ r.wqes.take (r.wqes.length - 1) ++
        (r.wqes.drop (r.wqes.length - 1) ++ post) := by
    rw [hlog, List.append_assoc, ← List.append_assoc (List.take _ _),
      List.take_append_drop]
  rw [hfront, List.take_append_of_le_length hle] at hw
  obtain hw | hw := List.mem_append.1 (List.mem_of_mem_take hw)
  · exact .inr (hothers w (List.mem_append_left _ hw))
  · exact .inl hw

/-! ## Waiting -/

theorem Step.executed_le (hs : Step effect s s') : s.executed ≤ s'.executed := by
  cases hs with
  | post | wait | exec | complete => exact le_rfl
  | fetch hr =>
    simp only [executed, List.length_append, List.length_singleton]
    omega
  | execute w rest hp =>
    simp only [executed, hp, List.length_cons]
    omega

/-- Thread `a` still waits for the ticket, or its WQE has been executed. -/
def Waited (a : A) (ticket : ℕ) (s : NicQp A cfg M) : Prop :=
  (∃ ph, s.qp.phase a = some (.poll none ph) ∧ ph.consIndex = ticket) ∨ ticket < s.executed

omit [DecidableEq A] in
theorem Waited.of_phase {a : A} {ticket : ℕ} {q : Qp A cfg}
    (h : ∃ ph, s.qp.phase a = some (.poll none ph) ∧ ph.consIndex = ticket)
    (hq : q.phase a = s.qp.phase a) : Waited a ticket { s with qp := q } :=
  .inl (by rw [hq]; exact h)

theorem Inv.waited_step (h : s.Inv) {a : A} {ticket : ℕ} (hw : Waited a ticket s)
    (hs : Step effect s s') : Waited a ticket s' := by
  obtain hwait | hlt := hw
  · obtain ⟨ph, hph, hk⟩ := id hwait
    have hbusy : ∀ b, s.qp.phase b = none → a ≠ b := by
      rintro b hb rfl
      rw [hb] at hph
      cases hph
    cases hs with
    | post r ha hb => exact .of_phase hwait (Qp.goto_phase_of_ne (hbusy _ ha))
    | wait b k hb hk => exact .of_phase hwait (Qp.goto_phase_of_ne (hbusy _ hb))
    | exec b hs =>
      by_cases hab : a = b
      · subst hab
        cases hs with
        | @poll o ph' ha =>
          obtain ⟨rfl, rfl⟩ : o = none ∧ ph' = ph := by
            rw [hph] at ha
            cases ha
            exact ⟨rfl, rfl⟩
          rcases hn : PollFn.at.next cfg.arch ⟨cfg.cqeNum, 0⟩ s.qp.cq ph' with ph'' | st
          · refine .inl ⟨ph'', Qp.goto_phase_self .., ?_⟩
            rw [Qp.consIndex_of_goto hn, hk]
          · -- it returns once the CQE is there
            obtain ⟨k, rfl⟩ := h.qp.atomicMax_of_ret hn
            obtain ⟨hok, -⟩ := h.qp.thread a _ hph
            have hlt : k < s.qp.cq.produced := hok
            exact .inr (hk ▸ hlt.trans_le h.produced_le)
        | store ha | stored ha | markCas ha | markLoad ha | markStore ha | lock ha | stage ha =>
          rw [hph] at ha
          cases ha
      · exact .of_phase hwait (hs.next.2 a hab)
    | fetch | execute => exact .inl hwait
    | complete hs => cases hs; exact .inl hwait
  · exact .inr (hlt.trans_le hs.executed_le)

/-- **A wait returns only after the operation.** In every run in which a thread begins to wait for a
ticket, it is still in the wait or the WQE of the ticket has been executed; then the memory is that
of all WQEs up to it, and of some that come after it. -/
theorem wait_executed {env : HostEnv} (h : Reachable (Init env m₀) (Step effect) s) {a : A}
    {ticket : ℕ} (ha : s.qp.phase a = none) (ht : ticket < s.qp.sqRsvdIndex)
    (hrun : ReflTransGen (Step effect) { s with qp := s.qp.wait a ticket } s') :
    (∃ ph, s'.qp.phase a = some (.poll none ph) ∧ ph.consIndex = ticket) ∨
      ∃ later, s'.mem = replay effect (s'.qp.log.take (ticket + 1) ++ later) m₀ := by
  have h₁ := h.next (.wait a ticket ha ht)
  have hwaited : Waited a ticket s' := by
    induction hrun with
    | refl => exact .inl ⟨.ci ticket, Qp.goto_phase_self .., rfl⟩
    | tail hr hs ih => exact (reachable_inv (h₁.run hr)).waited_step ih hs
  refine hwaited.imp_right fun hlt => ?_
  refine ⟨(s'.qp.log.take s'.executed).drop (ticket + 1), ?_⟩
  have hsplit := List.take_append_drop (ticket + 1) (s'.qp.log.take s'.executed)
  rw [List.take_take, Nat.min_eq_left hlt] at hsplit
  rw [hsplit]
  exact mem_eq_replay (h₁.run hrun)

/-- On a QP of four slots a thread posts one WQE and waits for it; the WQE is executed and
completed, and the wait returns. -/
theorem returned (effect : Wqe → M → M) (m₀ : M) (r : Rsv Unit Qp.fourSlots) (hb : r.base = 0)
    (hone : r.wqes.length = 1) (hw : ∀ w ∈ r.wqes, w.Counted) :
    ∃ (s s' : NicQp Unit Qp.fourSlots M),
      Reachable (Init ⟨4096, 4194303⟩ m₀) (Step effect) s ∧ s.qp.phase () = none ∧
        0 < s.qp.sqRsvdIndex ∧ s.qp.rsvs = [r] ∧
        ReflTransGen (Step effect) { s with qp := s.qp.wait () 0 } s' ∧
        s'.qp.phase () = none ∧ s'.qp.rsvs = [r] := by
  obtain ⟨q, hs, hidle, hrung, hcq, hrsvs⟩ := posted effect m₀ r hb hw
  obtain ⟨rsvd, ready, door, cq, wq, rsvs, written, phase⟩ := q
  obtain rfl : cq = (Qp.fresh Unit).cq := hcq
  obtain rfl : rsvs = [r] := hrsvs
  have hstop : r.stop = 1 := by rw [Rsv.stop, hb, hone]
  have hle : r.stop ≤ rsvd := (reachable_inv hs).qp.ledger.chain.hi_le List.mem_cons_self
  have hfirst := hrung 0 (hstop ▸ Nat.one_pos)
  have hfetch : Step effect
      ⟨Qp.wait () 0 ⟨rsvd, ready, door, (Qp.fresh Unit).cq, wq, [r], written, phase⟩, 0, [], m₀⟩
      _ :=
    .fetch hfirst
  have h₂ := (ReflTransGen.single hfetch).tail (.execute _ [] rfl)
  have hcqe : IsCqe Qp.fourSlots.cqeNum 0 ⟨0#16, 0#8, 0#8⟩ := by
    unfold IsCqe
    decide
  have h₃ := h₂.tail (.complete (.complete _ hfirst hcqe (by decide)) Nat.one_pos)
  -- the thread reads `cqe_ci`, then the CQE, and raises `cqe_ci`
  have hci : PollFn.at.next .sm90 ⟨4, 0⟩ ((Qp.fresh Unit).cq.write 4 ⟨0#16, 0#8, 0#8⟩) (.ci 0) =
      .goto (.cqe 0 0) := by decide
  have hread : PollFn.at.next .sm90 ⟨4, 0⟩ ((Qp.fresh Unit).cq.write 4 ⟨0#16, 0#8, 0#8⟩)
      (.cqe 0 0) = .goto (.atomicMax 0) := by decide
  have h₄ := (h₃.tail (.exec () (.poll rfl))).tail
    (.exec () (.poll ((Qp.goto_phase_self ..).trans (congrArg (Qp.polled none) hci))))
  have h₅ := h₄.tail
    (.exec () (.poll ((Qp.goto_phase_self ..).trans (congrArg (Qp.polled none) hread))))
  exact ⟨_, _, hs, hidle, (hstop ▸ hle : 1 ≤ rsvd), rfl, h₅, rfl, rfl⟩

/-- A thread waits for the NOP and returns. -/
theorem oneNop_waited :
    ∃ s : NicQp Unit Qp.fourSlots ℕ, s.qp.phase () = none ∧
      ∃ later, s.mem = replay (fun _ n => n + 1) (s.qp.log.take 1 ++ later) 0 := by
  obtain ⟨s, s', hs, hidle, hlt, -, hrun, hphase, -⟩ :=
    returned (fun _ n => n + 1) 0 Qp.oneNop rfl rfl counted_oneNop
  refine ⟨s', hphase, (wait_executed hs hidle hlt hrun).resolve_left ?_⟩
  rintro ⟨ph, hph, -⟩
  rw [hphase] at hph
  cases hph

end NicQp

end Gpunetio
