import Gpunetio.Pair.Nic

/-!
# A counter is raised after its operation

The fetch-and-add of a counter operation is executed on the companion QP behind a WAIT for the last
WQE of the operation on the main QP. Although the two QPs run side by side, and the WAIT names that
WQE by 32 bits of its index, the NIC executes the fetch-and-add only after it has executed and
completed all WQEs of the operation. The reservations of one operation are the two that come in the
same place among those of its thread.

* `Qp.posts`: the reservations of a thread; `Pair.Paced`, `Pair.reachable_paced`: it reserves on the
  two QPs in turn;
* `Pair.Made`: a companion reservation with the main reservation and the call it was made for;
  `Pair.Made.unique`;
* `NicPair.Inv`, `NicPair.reachable_inv`; `NicPair.reachable_pair`: without the memory the system
  is a pair as before;
* **`NicPair.counter_after_main`**.
-/

namespace Gpunetio

open Transition Relation

variable {A : Type*} [DecidableEq A] {cfg : PairConfig}

/-! ## The reservations of a thread -/

namespace Qp

variable {c : QpConfig} {s s' : Qp A c} {r : Rsv A c} {a : A}

/-- The reservations of a thread, oldest first. -/
def posts (s : Qp A c) (a : A) : List (Rsv A c) := (s.rsvs.filter fun r => r.agent = a).reverse

theorem mem_posts : r ∈ s.posts a ↔ r ∈ s.rsvs ∧ r.agent = a := by
  rw [posts, List.mem_reverse, List.mem_filter, decide_eq_true_iff]

theorem posts_post (r : Rsv A c) (s : Qp A c) :
    (s.post r).posts r.agent = s.posts r.agent ++ [r] := by
  have hcons : (s.post r).rsvs = r :: s.rsvs := rfl
  rw [posts, hcons, List.filter_cons_of_pos (by simp), List.reverse_cons, posts]

theorem posts_post_of_ne (h : a ≠ r.agent) : (s.post r).posts a = s.posts a := by
  have hcons : (s.post r).rsvs = r :: s.rsvs := rfl
  rw [posts, hcons, List.filter_cons_of_neg (by simpa using h.symm), posts]

/-- Later reservations come behind those that are there. -/
theorem getElem?_posts (h : s.rsvs <:+ s'.rsvs) {k : ℕ} (hk : (s.posts a)[k]? = some r) :
    (s'.posts a)[k]? = some r := by
  have hpre : s.posts a <+: s'.posts a := List.reverse_prefix.2 (h.filter _)
  obtain ⟨hlt, rfl⟩ := List.getElem?_eq_some_iff.1 hk
  exact List.prefix_iff_getElem?.1 hpre k hlt

theorem Inv.nodup_posts (h : s.Inv) (a : A) : (s.posts a).Nodup := by
  refine List.nodup_reverse.2 (List.Nodup.filter _ ?_)
  refine h.ledger.chain.pairwise.imp fun {r r'} hle => ?_
  rintro rfl
  exact absurd hle (Nat.not_le.2 r.lt_stop)

end Qp

namespace Pair

/-- **A thread reserves in turn.** It has reserved once more on the main QP than on the companion
while it is between the two, and else as often; on the main QP it works on its newest reservation.
-/
structure Paced (s : Pair A cfg) (a : A) : Prop where
  between : s.main.phase a ≠ none → s.comp.phase a = none →
    (s.main.posts a).length = (s.comp.posts a).length + 1
  level : s.main.phase a = none ∨ s.comp.phase a ≠ none →
    (s.main.posts a).length = (s.comp.posts a).length
  newest : ∀ m r, s.main.phase a = some m → m.rsv = some r →
    (s.main.posts a).getLast? = some r

section Paced

variable {s s' : Pair A cfg} {a : A}

theorem Init.paced {env : HostEnv} (h : Init env s) : s.Paced a where
  between hm := (hm (h.main.phase a)).elim
  level _ := by simp [Qp.posts, h.main.rsvs, h.comp.rsvs]
  newest m r hm := by simp [h.main.phase a] at hm

/-- A thread that does nothing keeps its place and its reservations. -/
theorem Paced.frame (h : s.Paced a) (hm : s'.main.phase a = s.main.phase a)
    (hc : s'.comp.phase a = s.comp.phase a) (hpm : s'.main.posts a = s.main.posts a)
    (hpc : s'.comp.posts a = s.comp.posts a) : s'.Paced a where
  between := by rw [hm, hc, hpm, hpc]; exact h.between
  level := by rw [hm, hc, hpm, hpc]; exact h.level
  newest := by rw [hm, hpm]; exact h.newest

theorem Paced.begin (h : s.Paced a) {call : CounterCall cfg} {rest : List (CounterCall cfg)}
    (ht : s.turn a = none) :
    Paced
      { main := s.main.post (call.mainRsv a s.main.sqRsvdIndex)
        comp := s.comp
        call := Function.update s.call a (some call)
        prog := Function.update s.prog a rest } a := by
  obtain ⟨hm, hc⟩ := turn_eq_none.1 ht
  have hposts := Qp.posts_post (call.mainRsv a s.main.sqRsvdIndex) s.main
  have hself : (s.main.post (call.mainRsv a s.main.sqRsvdIndex)).phase a =
      some (Qp.reserved (call.mainRsv a s.main.sqRsvdIndex)) := Function.update_self ..
  refine ⟨fun _ _ => ?_, fun hor => ?_, fun m r hm' hr => ?_⟩
  · exact (congrArg List.length hposts).trans
      (List.length_append.trans (congrArg (· + 1) (h.level (.inl hm))))
  · obtain hnone | hsome := hor
    · rw [hself] at hnone
      cases hnone
    · exact absurd hc hsome
  · obtain rfl := Option.some.inj (hself.symm.trans hm')
    rw [Phase.rsv_of_openRsv (Qp.openRsv_reserved _)] at hr
    cases hr
    exact (congrArg List.getLast? hposts).trans List.getLast?_concat

theorem Paced.reserve (h : s.Paced a) {call : CounterCall cfg} {rm : Rsv A cfg.main}
    (ht : s.turn a = some .reserve) (hm : s.main.phase a = some (.lock rm)) :
    Paced { s with comp := s.comp.post (call.compRsv a rm.base s.comp.sqRsvdIndex) } a := by
  have hposts := Qp.posts_post (call.compRsv a rm.base s.comp.sqRsvdIndex) s.comp
  have hself : (s.comp.post (call.compRsv a rm.base s.comp.sqRsvdIndex)).phase a =
      some (Qp.reserved (call.compRsv a rm.base s.comp.sqRsvdIndex)) := Function.update_self ..
  have hlen := h.between (hm ▸ Option.some_ne_none _) (turn_eq_reserve ht).2
  refine ⟨fun _ hnone => ?_, fun _ => ?_, h.newest⟩
  · exact absurd (hself.symm.trans hnone) (Option.some_ne_none _)
  · exact hlen.trans ((congrArg List.length hposts).trans List.length_append).symm

theorem Paced.mainExec (h : s.Paced a) (hinv : s.Inv) {q : Qp A cfg.main}
    (hs : Qp.Exec a s.main q) : Paced { s with main := q } a := by
  obtain ⟨⟨m, hm, hnext⟩, -⟩ := hs.next
  have hposts : q.posts a = s.main.posts a := by rw [Qp.posts, (hinv.main.exec_mono hs).1, Qp.posts]
  have hcoup := hinv.coupled a
  rw [hm] at hcoup
  have hsome : s.main.phase a ≠ none := hm ▸ Option.some_ne_none m
  refine ⟨fun _ hc => ?_, fun hor => ?_, fun m' r hm' hr => ?_⟩
  · exact (congrArg List.length hposts).trans (h.between hsome hc)
  · refine (congrArg List.length hposts).trans (h.level (.inr fun hc => ?_))
    -- between the two QPs a thread does not leave the main one
    obtain hnone | hc' := hor
    · rw [hc] at hcoup
      have hnone : q.phase a = none := hnone
      rw [hnone] at hnext
      generalize hq : (none : Option (Phase A cfg.main)) = o at hnext
      cases hnext with
      | keep | mark | lock => cases hq
      | ticket => exact hcoup rfl
      | stage => exact hcoup rfl
    · exact hc' hc
  · have hm' : q.phase a = some m' := hm'
    rw [hm'] at hnext
    exact (congrArg List.getLast? hposts).trans (h.newest m r hm (hcoup.rsv_eq hnext hr))

theorem Paced.compExec (h : s.Paced a) (hinv : s.Inv) {q : Qp A cfg.comp}
    (ht : s.turn a = some .comp) (hs : Qp.Exec a s.comp q) : Paced { s with comp := q } a := by
  obtain ⟨⟨c, hc, hnext⟩, -⟩ := hs.next
  have hposts : q.posts a = s.comp.posts a := by rw [Qp.posts, (hinv.comp.exec_mono hs).1, Qp.posts]
  have hcoup := hinv.coupled a
  rw [turn, hc] at ht
  rw [hc] at hcoup
  have hlevel := h.level (.inr (hc ▸ Option.some_ne_none c))
  refine ⟨fun hm hnone => ?_, fun _ => ?_, h.newest⟩
  · -- a thread is done with the companion QP only behind the main one
    have hafter := hcoup.comp ht hnext
    have hnone : q.phase a = none := hnone
    obtain ⟨m, hm⟩ := Option.ne_none_iff_exists'.1 hm
    rw [hnone] at hnext hafter
    rw [hm] at hcoup hafter
    generalize hq : (none : Option (Phase A cfg.comp)) = o at hnext
    cases hnext with
    | keep | mark | lock => cases hq
    | ticket => cases m <;> first | exact (hcoup rfl).elim | exact hcoup.elim
    | stage =>
      obtain hnone | ⟨rm, st, heq⟩ := coupled_comp_submit.1 hcoup
      · cases hnone
      · cases heq
        exact (hafter rfl).elim
  · exact hlevel.trans (congrArg List.length hposts).symm

/-- **Every step keeps it.** -/
theorem Paced.step (h : ∀ a, s.Paced a) (hinv : s.Inv) {l : Option A} (hs : Step l s s') (b : A) :
    s'.Paced b := by
  cases hs with
  | begin a ht hp =>
    rcases eq_or_ne b a with rfl | hba
    · exact (h b).begin ht
    · exact (h b).frame (Function.update_of_ne hba ..) rfl (Qp.posts_post_of_ne hba) rfl
  | reserve a ht hm hc =>
    rcases eq_or_ne b a with rfl | hba
    · exact (h b).reserve ht hm
    · exact (h b).frame rfl (Function.update_of_ne hba ..) rfl (Qp.posts_post_of_ne hba)
  | main a ht hs =>
    rcases eq_or_ne b a with rfl | hba
    · exact (h b).mainExec hinv hs
    · refine (h b).frame (hs.next.2 b hba) rfl ?_ rfl
      simp only [Qp.posts, (hinv.main.exec_mono hs).1]
  | comp a ht hs =>
    rcases eq_or_ne b a with rfl | hba
    · exact (h b).compExec hinv ht hs
    · refine (h b).frame rfl (hs.next.2 b hba) rfl ?_
      simp only [Qp.posts, (hinv.comp.exec_mono hs).1]
  | mainNic hs => cases hs; exact (h b).frame rfl rfl rfl rfl
  | compNic hs => cases hs; exact (h b).frame rfl rfl rfl rfl

theorem reachable_paced {env : HostEnv}
    (h : Reachable (Init env) (fun s s' : Pair A cfg => ∃ l, Step l s s') s) (a : A) :
    s.Paced a := by
  refine h.strengthen (P := fun s => ∀ a, s.Paced a) (fun _ h₀ _ => h₀.paced) ?_ a
  rintro s s' hr ih ⟨l, hs⟩
  exact Paced.step ih (reachable_inv hr) hs

end Paced

/-! ## The reservations of an operation -/

/-- A companion reservation, the main reservation it was made for, and the call. Among the
reservations of its thread each comes in the same place. -/
structure Made (s : Pair A cfg) (rc : Rsv A cfg.comp) (rm : Rsv A cfg.main)
    (call : CounterCall cfg) : Prop where
  nth : ∃ k : ℕ, (s.main.posts rc.agent)[k]? = some rm ∧ (s.comp.posts rc.agent)[k]? = some rc
  ready : rm.stop ≤ s.main.sqReadyIndex
  main : rm.wqes = call.op.mainWqes cfg.mainQp rm.base
  comp : rc.wqes = call.op.companionWqes cfg.mainQp cfg.compQp call.args rm.base rc.base

variable {s s' : Pair A cfg} {rc : Rsv A cfg.comp} {rm rm' : Rsv A cfg.main}
  {call call' : CounterCall cfg}

theorem Made.mem (h : s.Made rc rm call) : rm ∈ s.main.rsvs := by
  obtain ⟨k, hk, -⟩ := h.nth
  exact (Qp.mem_posts.1 (List.mem_of_getElem? hk)).1

/-- There is one main reservation only. -/
theorem Made.unique (hinv : s.Inv) (h : s.Made rc rm call) (h' : s.Made rc rm' call') :
    rm = rm' := by
  obtain ⟨k, hm, hc⟩ := h.nth
  obtain ⟨k', hm', hc'⟩ := h'.nth
  have hlt := (List.getElem?_eq_some_iff.1 hc).1
  have heq := (List.getElem?_inj hlt (hinv.comp.nodup_posts rc.agent)).1 (hc.trans hc'.symm)
  rw [← heq, hm] at hm'
  exact Option.some.inj hm'

theorem Made.mono (h : s.Made rc rm call) (hm : s.main.rsvs <:+ s'.main.rsvs)
    (hc : s.comp.rsvs <:+ s'.comp.rsvs) (hready : s.main.sqReadyIndex ≤ s'.main.sqReadyIndex) :
    s'.Made rc rm call := by
  obtain ⟨k, hkm, hkc⟩ := h.nth
  exact ⟨⟨k, Qp.getElem?_posts hm hkm, Qp.getElem?_posts hc hkc⟩, h.ready.trans hready, h.main,
    h.comp⟩

omit [DecidableEq A] in
theorem lastWqeIdx_eq (h : rm.wqes = call.op.mainWqes cfg.mainQp rm.base) :
    call.op.lastWqeIdx rm.base = rm.last := by
  have hlast := call.op.lastWqeIdx_add_one rm.base
  have hlen : rm.wqes.length = call.op.mainCount := by rw [h, CounterOp.length_mainWqes]
  have := rm.last_add_one
  simp only [Rsv.stop] at this
  omega

/-- The WAIT names the last WQE on the main QP. -/
theorem Made.wait (h : s.Made rc rm call) :
    rc.wqes.head?.bind waitIndex = some (cfg.mainQp.cqNum, rm.last % 2 ^ 32) := by
  rw [h.comp, CounterOp.companionWqes, List.head?_cons, Option.bind_some, waitIndex_wqePrepareWait,
    lastWqeIdx_eq h.main]

omit [DecidableEq A] in
theorem Linked.wait (h : s.Linked rc rm) :
    rc.wqes.head?.bind waitIndex = some (cfg.mainQp.cqNum, rm.last % 2 ^ 32) := by
  obtain ⟨call, hlast, hwqes⟩ := h.wqes
  rw [hwqes, CounterOp.companionWqes, List.head?_cons, Option.bind_some, waitIndex_wqePrepareWait,
    hlast]

/-- What a step leaves alone. -/
theorem Inv.step_mono (h : s.Inv) {l : Option A} (hs : Step l s s') :
    s.main.rsvs <:+ s'.main.rsvs ∧ s.comp.rsvs <:+ s'.comp.rsvs ∧
      s.main.sqReadyIndex ≤ s'.main.sqReadyIndex ∧
      s.main.cq.produced ≤ s'.main.cq.produced := by
  cases hs with
  | begin => exact ⟨List.suffix_cons .., List.suffix_rfl, le_rfl, le_rfl⟩
  | reserve => exact ⟨List.suffix_rfl, List.suffix_cons .., le_rfl, le_rfl⟩
  | main a ht hs =>
    obtain ⟨hrsvs, hready, -⟩ := h.main.exec_mono hs
    exact ⟨hrsvs ▸ List.suffix_rfl, List.suffix_rfl, hready, hs.produced_eq.ge⟩
  | comp a ht hs =>
    exact ⟨List.suffix_rfl, (h.comp.exec_mono hs).1 ▸ List.suffix_rfl, le_rfl, le_rfl⟩
  | mainNic hs => cases hs; exact ⟨List.suffix_rfl, List.suffix_rfl, le_rfl, Nat.le_succ _⟩
  | compNic hs => cases hs; exact ⟨List.suffix_rfl, List.suffix_rfl, le_rfl, le_rfl⟩

/-- A companion reservation is an old one, or it has just been made. -/
theorem Inv.step_made (h : s.Inv) (hp : ∀ a, s.Paced a) {l : Option A} (hs : Step l s s')
    (hrc : rc ∈ s'.comp.rsvs) :
    rc ∈ s.comp.rsvs ∨ rc.base = s.comp.sqRsvdIndex ∧
      ∃ rm call, s.call rc.agent = some call ∧ s'.Made rc rm call := by
  cases hs with
  | reserve a ht hm hc =>
    rename_i call rm
    obtain rfl | hrc := List.mem_cons.1 hrc
    · obtain ⟨-, -, hle⟩ := h.main.ledger.isReady a rm (Qp.readyRange_of_phase hm)
      obtain ⟨call', hcall', hrm⟩ := h.called a _ rm hm rfl
      obtain rfl : call = call' := Option.some.inj (hc.symm.trans hcall')
      refine .inr ⟨rfl, rm, call, hc, ⟨(s.comp.posts a).length, ?_, ?_⟩, hle,
        congrArg Rsv.wqes hrm, rfl⟩
      · -- the newest on the main QP, one more than those on the companion
        have hlen := (hp a).between (hm ▸ Option.some_ne_none _) (turn_eq_reserve ht).2
        have hlast := (hp a).newest _ rm hm rfl
        rw [List.getLast?_eq_getElem?, hlen, Nat.add_sub_cancel] at hlast
        exact hlast
      · have hposts := Qp.posts_post (call.compRsv a rm.base s.comp.sqRsvdIndex) s.comp
        exact (congrArg (·[(s.comp.posts a).length]?) hposts).trans
          (List.getElem?_concat_length ..)
    · exact .inl hrc
  | comp a ht hs => exact .inl ((h.comp.exec_mono hs).1 ▸ hrc)
  | compNic hs => cases hs; exact .inl hrc
  | begin | main | mainNic => exact .inl hrc

end Pair

namespace NicPair

variable {M : Type*} {s s' : NicPair A cfg M} {effect : Wqe → M → M}
  {env : HostEnv} {m₀ : M} {calls : Set (CounterCall cfg)} {rc : Rsv A cfg.comp}

/-- A companion reservation is executed, as far as it has been, after what it was made for. -/
def Served (s : NicPair A cfg M) (rc : Rsv A cfg.comp) (rm : Rsv A cfg.main)
    (call : CounterCall cfg) : Prop :=
  s.pair.Made rc rm call ∧ (rc.base < s.onComp.executed → rm.last < s.pair.main.cq.produced)

/-- **The invariant**: the pair is one as before, and all companion reservations are served. -/
structure Inv (env : HostEnv) (calls : Set (CounterCall cfg)) (s : NicPair A cfg M) : Prop where
  pair : Reachable (Pair.Init env) (fun p p' : Pair A cfg => ∃ l, Pair.Step l p p') s.pair
  served : ∀ rc ∈ s.pair.comp.rsvs, ∃ rm, ∃ call ∈ calls, s.Served rc rm call

omit [DecidableEq A] in
/-- A WAIT is executed only after the WQE it names has been completed. -/
theorem lt_of_released (hinv : s.pair.Inv) {w : Wqe} (hw : s.Released w) {rm : Rsv A cfg.main}
    (hready : rm.stop ≤ s.pair.main.sqReadyIndex)
    (hwait : waitIndex w = some (cfg.mainQp.cqNum, rm.last % 2 ^ 32)) :
    rm.last < s.pair.main.cq.produced := by
  refine lt_of_reached (hw _ _ hwait).2 ?_
  -- a reservation that is ready is within the ring
  obtain ⟨a, ha, hpow⟩ := cfg.main.pow
  have hring : cfg.main.sqWqeNum ≤ 2 ^ 15 := hpow ▸ Nat.pow_le_pow_right (by decide) ha
  have hle := hinv.main.ready_le
  have hci := hinv.main.cq.ci_le
  have := rm.last_add_one
  omega

/-- A companion WQE is completed only when its WAIT, if it is one, is over. -/
theorem released (hi : Inv env calls s) (hr : s.pair.comp.Rung s.pair.comp.cq.produced)
    (hx : s.pair.comp.cq.produced < s.onComp.executed) : s.pair.Released := by
  obtain ⟨rc, rm, hlink, ⟨hle, hrc⟩, hwait⟩ := (Pair.reachable_inv hi.pair).waitIndex_nextWqe hr
  obtain ⟨rm', call, -, hmade, hserved⟩ := hi.served rc hrc
  intro cqNum idx hidx
  obtain ⟨rfl, rfl⟩ := hwait cqNum idx hidx
  have hsame : rm.last % 2 ^ 32 = rm'.last % 2 ^ 32 := by
    have heq := hlink.wait.symm.trans hmade.wait
    exact (Prod.mk.inj (Option.some.inj heq)).2
  exact ⟨rfl, rm'.last, hserved (hle.trans_lt hx), hsame.symm⟩

/-- What a step of the pair keeps, if it executes nothing on the companion QP. -/
theorem Inv.pairStep (h : Inv env calls s) {p : Pair A cfg} {l : Option A}
    (hs : Pair.Step l s.pair p) (hc : ∀ a call, s.pair.call a = some call → call ∈ calls)
    (hle : s.onComp.executed ≤ s.pair.comp.sqRsvdIndex) :
    Inv env calls { s with pair := p } := by
  have hinv := Pair.reachable_inv h.pair
  obtain ⟨hm, hc', hready, hprod⟩ := hinv.step_mono hs
  refine ⟨h.pair.next ⟨l, hs⟩, fun rc hrc => ?_⟩
  obtain hold | ⟨hbase, rm, call, hcall, hmade⟩ :=
    hinv.step_made (Pair.reachable_paced h.pair) hs hrc
  · obtain ⟨rm, call, hin, hmade, hserved⟩ := h.served rc hold
    exact ⟨rm, call, hin, hmade.mono hm hc' hready, fun hx => (hserved hx).trans_le hprod⟩
  · exact ⟨rm, call, hc _ _ hcall, hmade, fun hx => absurd hle (Nat.not_le.2 (hbase ▸ hx))⟩

/-- **Every step keeps the invariant.** -/
theorem Inv.step (h : Inv env calls s) (hr : Reachable (Init env m₀ calls) (Step effect) s)
    (hs : Step effect s s') : Inv env calls s' := by
  have hinv := Pair.reachable_inv h.pair
  have hcomp := onComp_inv hr
  have hc := (calls_of_programs hr).1
  have hle : s.onComp.executed ≤ s.pair.comp.sqRsvdIndex := by
    have h₁ := s.onComp.executed_le.trans hcomp.fetched_le
    have h₂ := hinv.comp.ledger.submitted_le
    have h₃ := hinv.comp.ledger.ready_le
    exact (h₁.trans h₂).trans h₃
  cases hs with
  | thread a hs => exact h.pairStep hs hc hle
  | completeMain hs hx => exact h.pairStep (.mainNic hs) hc hle
  | completeComp hs hx =>
    have hrung : s.pair.comp.Rung s.pair.comp.cq.produced := by
      cases hs with
      | complete e hr => exact hr
    exact h.pairStep (.compNic hs (released h hrung hx)) hc hle
  | fetchMain | executeMain => exact ⟨h.pair, h.served⟩
  | fetchComp hf =>
    refine ⟨h.pair, fun rc hrc => ?_⟩
    obtain ⟨rm, call, hin, hmade, hserved⟩ := h.served rc hrc
    exact ⟨rm, call, hin, hmade, fun hx => hserved (hx.trans_eq (s.onComp.executed_fetch _))⟩
  | executeComp w rest hp hw =>
    refine ⟨h.pair, fun rc hrc => ?_⟩
    obtain ⟨rm, call, hin, hmade, hserved⟩ := h.served rc hrc
    refine ⟨rm, call, hin, hmade, fun hx => ?_⟩
    have hnext : rc.base < s.onComp.executed + 1 := hx.trans_eq (hcomp.executed_execute hp)
    obtain hlt | heq := Nat.lt_succ_iff_lt_or_eq.1 hnext
    · exact hserved hlt
    · -- the WQE executed is the WAIT of `rc`
      have hlog := comp_next hr hp
      rw [← heq, hinv.comp.getElem?_log hrc le_rfl rc.lt_stop, Nat.sub_self,
        ← List.head?_eq_getElem?] at hlog
      have hwait := hmade.wait
      rw [hlog, Option.bind_some] at hwait
      exact lt_of_released hinv hw hmade.ready hwait

theorem reachable_inv (h : Reachable (Init env m₀ calls) (Step effect) s) : Inv env calls s := by
  refine h.strengthen (fun s h₀ => ⟨.start h₀.pair, fun rc hrc => ?_⟩)
    fun _ _ hr hi hs => hi.step hr hs
  rw [h₀.pair.comp.rsvs] at hrc
  cases hrc

/-- **Without its memory** the system is a pair as before. -/
theorem reachable_pair (h : Reachable (Init env m₀ calls) (Step effect) s) :
    Reachable (Pair.Init env) (fun p p' : Pair A cfg => ∃ l, Pair.Step l p p') s.pair :=
  (reachable_inv h).pair

/-- **The counter comes after the operation.** In every reachable state each reservation on the
companion QP has been made for a call of the programs and for one on the main QP, and no other; and
if the NIC has executed any of it, it has executed and completed all WQEs of that one before. -/
theorem counter_after_main (h : Reachable (Init env m₀ calls) (Step effect) s)
    (hrc : rc ∈ s.pair.comp.rsvs) :
    ∃ rm, ∃ call ∈ calls, s.pair.Made rc rm call ∧
      (∀ rm' call', s.pair.Made rc rm' call' → rm' = rm) ∧
      (rc.base < s.onComp.executed →
        rm.stop ≤ s.pair.main.cq.produced ∧ rm.stop ≤ s.onMain.executed) := by
  obtain ⟨rm, call, hin, hmade, hserved⟩ := (reachable_inv h).served rc hrc
  have hone : ∀ rm' call', s.pair.Made rc rm' call' → rm' = rm := fun rm' call' hmade' =>
    hmade'.unique (Pair.reachable_inv (reachable_pair h)) hmade
  refine ⟨rm, call, hin, hmade, hone, fun hx => ?_⟩
  have hprod : rm.stop ≤ s.pair.main.cq.produced := by
    rw [← rm.last_add_one]
    exact hserved hx
  exact ⟨hprod, hprod.trans (onMain_inv h).produced_le⟩

/-- A put of one byte with a counter. -/
def countedPut : CounterCall Pair.fourFour :=
  ⟨.putCounter ⟨0x100#64, 1#32⟩ ⟨0x200#64, 2#32⟩ 1#64,
    ⟨⟨0x300#64, 1#32⟩, ⟨0x400#64, 2#32⟩, 1#64⟩, by decide⟩

/-- One thread that has still to begin the put. -/
def fresh (m₀ : M) : NicPair Unit Pair.fourFour M :=
  ⟨⟨Qp.fresh Unit, Qp.fresh Unit, fun _ => none, fun _ => [countedPut]⟩, 0, [], 0, [], m₀⟩

theorem init_fresh (m₀ : M) : Init ⟨4096, 4194303⟩ m₀ {countedPut} (fresh m₀) where
  pair := ⟨Qp.init_fresh Unit, Qp.init_fresh Unit⟩
  call := fun _ => rfl
  prog := by
    intro a call hc
    obtain rfl := List.mem_singleton.1 hc
    exact ⟨rfl, fun _ _ hop => by cases hop⟩
  mainFetched := rfl
  mainPending := rfl
  compFetched := rfl
  compPending := rfl
  mem := rfl

/-- The WAIT is over once the write has been completed. -/
theorem released_wait {s : NicPair Unit Pair.fourFour M} {w : Wqe}
    (hp : s.pair.main.cq.produced = 1) (hw : (countedPut.compRsv () 0 0).wqes[0]? = some w) :
    s.Released w := by
  intro cqNum idx hidx
  have hwait := waitIndex_wqePrepareWait Pair.fourFour.compQp 0 ctrlCqUpdate 0
    Pair.fourFour.mainQp.cqNum
  obtain rfl :
      wqePrepareWait Pair.fourFour.compQp 0 ctrlCqUpdate 0 Pair.fourFour.mainQp.cqNum = w :=
    Option.some.inj hw
  obtain ⟨rfl, rfl⟩ := Prod.mk.inj (Option.some.inj (hwait.symm.trans hidx))
  refine ⟨rfl, ?_⟩
  unfold Reached
  rw [hp]
  decide

theorem released_fa {s : NicPair Unit Pair.fourFour M} {w : Wqe}
    (hw : (countedPut.compRsv () 0 0).wqes[1]? = some w) : s.Released w := by
  intro cqNum idx hidx
  obtain rfl : faWqe Pair.fourFour.compQp 1 countedPut.args.counterRaddr
      countedPut.args.counterLaddr countedPut.args.counterVal = w := Option.some.inj hw
  cases hidx

/-- The thread posts the put with its counter, and the NIC executes both. -/
theorem fresh_run (effect : Wqe → M → M) (m₀ : M) : ∃ s : NicPair Unit Pair.fourFour M,
    Reachable (Init ⟨4096, 4194303⟩ m₀ {countedPut}) (Step effect) s ∧
      s.pair.main.rsvs = [countedPut.mainRsv () 0] ∧
      s.pair.comp.rsvs = [countedPut.compRsv () 0 0] ∧ s.onComp.executed = 2 := by
  have h : Reachable (Init ⟨4096, 4194303⟩ m₀ {countedPut}) (Step effect) (fresh m₀) :=
    .start (init_fresh m₀)
  -- the main QP: three segments, and the baton
  have h := h.next (.thread () (.begin () rfl rfl))
  have h := ((h.next (.thread () (.main () rfl (.store rfl)))).next
    (.thread () (.main () rfl (.store rfl)))).next (.thread () (.main () rfl (.store rfl)))
  have h := (h.next (.thread () (.main () rfl (.stored rfl)))).next
    (.thread () (.main () rfl (.markCas rfl rfl rfl)))
  -- the companion QP: six
  have h := h.next (.thread () (.reserve () rfl rfl rfl))
  have h := ((h.next (.thread () (.comp () rfl (.store rfl)))).next
    (.thread () (.comp () rfl (.store rfl)))).next (.thread () (.comp () rfl (.store rfl)))
  have h := ((h.next (.thread () (.comp () rfl (.store rfl)))).next
    (.thread () (.comp () rfl (.store rfl)))).next (.thread () (.comp () rfl (.store rfl)))
  have h := (h.next (.thread () (.comp () rfl (.stored rfl)))).next
    (.thread () (.comp () rfl (.markCas rfl rfl rfl)))
  -- the doorbells of both
  have h := ((h.next (.thread () (.main () rfl (.lock rfl rfl)))).next
    (.thread () (.main () rfl (.stage rfl)))).next (.thread () (.main () rfl (.stage rfl)))
  have h := ((h.next (.thread () (.comp () rfl (.lock rfl rfl)))).next
    (.thread () (.comp () rfl (.stage rfl)))).next (.thread () (.comp () rfl (.stage rfl)))
  -- the NIC executes and completes the write
  have hcqe : IsCqe Qp.fourSlots.cqeNum 0 ⟨0#16, 0#8, 0#8⟩ := by
    unfold IsCqe
    decide
  have h := (h.next (.fetchMain ⟨1, .inl List.mem_cons_self, Nat.one_pos⟩)).next
    (.executeMain _ [] rfl)
  have h := h.next (.completeMain (.complete _ ⟨1, .inl List.mem_cons_self, Nat.one_pos⟩ hcqe
    (by decide)) Nat.one_pos)
  -- then the WAIT and the fetch-and-add
  have h := (h.next (.fetchComp ⟨2, .inl List.mem_cons_self, Nat.two_pos⟩)).next
    (.fetchComp ⟨2, .inl List.mem_cons_self, Nat.one_lt_two⟩)
  have hw : (countedPut.compRsv () 0 0).wqes[0]? = some _ := comp_next h rfl
  have h := h.next (.executeComp _ [_] rfl (released_wait rfl hw))
  have hw : (countedPut.compRsv () 0 0).wqes[1]? = some _ := comp_next h rfl
  have h := h.next (.executeComp _ [] rfl (released_fa hw))
  exact ⟨_, h, rfl, rfl, rfl⟩

/-- The counter of the put has been raised, and its write executed before. -/
theorem countedPut_ordered : ∃ s : NicPair Unit Pair.fourFour ℕ,
    s.pair.Made (countedPut.compRsv () 0 0) (countedPut.mainRsv () 0) countedPut ∧
      s.onComp.executed = 2 ∧ 1 ≤ s.pair.main.cq.produced ∧ 1 ≤ s.onMain.executed := by
  obtain ⟨s, h, hmain, hcomp, hx⟩ := fresh_run (fun _ n => n + 1) 0
  obtain ⟨rm, call, rfl, hmade, -, hserved⟩ := counter_after_main h (hcomp ▸ List.mem_cons_self)
  obtain rfl := List.mem_singleton.1 (hmain ▸ hmade.mem)
  exact ⟨s, hmade, hx, hserved (hx ▸ Nat.two_pos)⟩

end NicPair

end Gpunetio
