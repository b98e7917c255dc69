import Gpunetio.Pair.Model

/-!
# The invariant of a pair

Each of the two QPs keeps its own invariant. Across the two, a thread stands only at places its
operation can bring it to, and every reservation on the companion QP belongs to one that has been
marked ready on the main QP, whose last CQE its WAIT names.

* `Coupled`: the places of a thread on the two QPs;
* `Pair.Linked`: a companion reservation and its main reservation; the main one has been submitted
  unless the thread has still to take the companion's lock;
* `Pair.Inv`, `Pair.Inv.step`, **`Pair.reachable_inv`**.
-/

namespace Gpunetio

open Transition

variable {A : Type*} {cfg : PairConfig}

namespace Phase

variable {c : QpConfig}

/-- The reservation of a thread that does not hold the lock yet. -/
def held : Phase A c → Option (Rsv A c)
  | lock r => some r
  | ph => ph.openRsv

/-- The reservation of a thread in front of the lock or within it. -/
def atLock : Phase A c → Option (Rsv A c)
  | lock r => some r
  | submit r _ => some r
  | _ => none

theorem held_of_openRsv {ph : Phase A c} {r : Rsv A c} (h : ph.openRsv = some r) :
    ph.held = some r := by
  cases ph <;> first | exact h | cases h

end Phase

/-- Where a thread can be on the two QPs. -/
def Coupled : Option (Phase A cfg.main) → Option (Phase A cfg.comp) → Prop
  | none, none => True
  | none, some (.submit _ _) => True
  | some (.lock _), none => True
  | some (.lock _), some (.lock _) => True
  | some (.lock _), some c => c.openRsv ≠ none
  | some (.submit _ _), some (.lock _) => True
  | some (.submit _ _), some (.submit _ _) => True
  | some m, none => m.openRsv ≠ none
  | _, _ => False

section Places

variable {m : Phase A cfg.main} {c : Phase A cfg.comp} {om : Option (Phase A cfg.main)}
  {oc : Option (Phase A cfg.comp)}

theorem turn_eq_none : turn om oc = none ↔ om = none ∧ oc = none := by
  constructor
  · intro h
    rcases om with _ | (_ | _ | _ | _ | _ | _) <;> rcases oc with _ | (_ | _ | _ | _ | _ | _) <;>
      first | exact ⟨rfl, rfl⟩ | cases h
  · rintro ⟨rfl, rfl⟩
    rfl

theorem turn_eq_main (h : turn om oc = some .main) : ∃ m, om = some m := by
  rcases om with _ | m
  · cases oc <;> cases h
  · exact ⟨m, rfl⟩

theorem turn_eq_comp (h : turn om oc = some .comp) : ∃ c, oc = some c := by
  rcases oc with _ | c
  · rcases om with _ | (_ | _ | _ | _ | _ | _) <;> cases h
  · exact ⟨c, rfl⟩

/-- A thread reserves on the companion in front of the main lock. -/
theorem turn_eq_reserve (h : turn om oc = some .reserve) :
    (∃ r, om = some (.lock r)) ∧ oc = none := by
  rcases om with _ | (_ | _ | _ | _ | r | ⟨r, st⟩) <;>
    rcases oc with _ | (_ | _ | _ | _ | _ | ⟨rc, st'⟩)
  case some.lock.none => exact ⟨⟨r, rfl⟩, rfl⟩
  case some.submit.some.lock => cases hst : st.isFirst <;> simp [turn, hst] at h
  case some.submit.some.submit => cases hst : st'.isFirst <;> simp [turn, hst] at h
  all_goals cases h

/-- With an open main reservation a thread has not begun on the companion. -/
theorem coupled_main_open {r : Rsv A cfg.main} (h : m.openRsv = some r) :
    Coupled (some m) oc ↔ oc = none := by
  have hm : m.openRsv ≠ none := h ▸ Option.some_ne_none r
  cases m with
  | poll | write | mark | markStore => cases oc <;> simp [Coupled, hm]
  | lock | submit => cases h

/-- With an open companion reservation a thread stands in front of the main lock. -/
theorem coupled_comp_open {r : Rsv A cfg.comp} (h : c.openRsv = some r) :
    Coupled om (some c) ↔ ∃ r, om = some (.lock r) := by
  have hc : c.openRsv ≠ none := h ▸ Option.some_ne_none r
  cases c with
  | poll | write | mark | markStore =>
    rcases om with _ | (_ | _ | _ | _ | _ | _) <;> simp [Coupled, hc]
  | lock | submit => cases h

/-- Within the main lock a thread is in front of the companion's, or within it. -/
theorem coupled_main_submit {r : Rsv A cfg.main} {st : Stage} :
    Coupled (some (.submit r st)) oc ↔
      (∃ rc, oc = some (.lock rc)) ∨ ∃ rc st', oc = some (.submit rc st') := by
  rcases oc with _ | (_ | _ | _ | _ | _ | _) <;> simp [Coupled, Phase.openRsv]

/-- In front of the companion's lock a thread is in front of the main one, or within it. -/
theorem coupled_comp_lock {r : Rsv A cfg.comp} :
    Coupled om (some (.lock r)) ↔
      (∃ rm, om = some (.lock rm)) ∨ ∃ rm st, om = some (.submit rm st) := by
  rcases om with _ | (_ | _ | _ | _ | _ | _) <;> simp [Coupled]

/-- Within the companion's lock a thread is within the main one, or has released it. -/
theorem coupled_comp_submit {r : Rsv A cfg.comp} {st : Stage} :
    Coupled om (some (.submit r st)) ↔ om = none ∨ ∃ rm st', om = some (.submit rm st') := by
  rcases om with _ | (_ | _ | _ | _ | _ | _) <;> simp [Coupled, Phase.openRsv]

theorem Stage.next_isFirst {st : Stage} (h : st.isFirst = true) (w : Bool) :
    ∃ st', st.next w = some st' := by
  cases st <;> first | exact ⟨_, rfl⟩ | cases h

/-- An access on the main QP at the thread's turn keeps the places coupled. -/
theorem Coupled.main {m' : Option (Phase A cfg.main)} (h : Coupled (some m) oc)
    (ht : turn (some m) oc = some .main) (hn : m.Next m') : Coupled m' oc := by
  cases hn with
  | keep ho ho' => exact (coupled_main_open ho').2 ((coupled_main_open ho).1 h)
  | mark ho =>
    obtain rfl := (coupled_main_open ho).1 h
    trivial
  | ticket => cases oc <;> first | exact (h rfl).elim | exact h.elim
  | lock =>
    rcases oc with _ | (_ | _ | _ | _ | _ | _) <;> first | trivial | cases ht
  | @stage r st w =>
    obtain ⟨rc, rfl⟩ | ⟨rc, st', rfl⟩ := coupled_main_submit.1 h
    · cases hst : st.isFirst with
      | true =>
        obtain ⟨st', hst'⟩ := Stage.next_isFirst hst w
        rw [hst']
        trivial
      | false => simp [turn, hst] at ht
    · cases st.next w <;> trivial

/-- An access on the main QP does not change the reservation a thread works on. -/
theorem Coupled.rsv_eq {m' : Phase A cfg.main} {r : Rsv A cfg.main} (h : Coupled (some m) oc)
    (hn : m.Next (some m')) (hr : m'.rsv = some r) : m.rsv = some r := by
  generalize hq : some m' = o at hn
  cases hn with
  | keep ho ho' =>
    cases hq
    exact (Phase.rsv_of_openRsv ho).trans ((Phase.rsv_of_openRsv ho').symm.trans hr)
  | mark ho =>
    cases hq
    exact (Phase.rsv_of_openRsv ho).trans hr
  | ticket =>
    rcases oc with _ | c
    · exact (h rfl).elim
    · exact h.elim
  | lock => cases hq; exact hr
  | stage w =>
    obtain ⟨st', -, rfl⟩ := Option.map_eq_some_iff.1 hq.symm
    exact hr

/-- An access on the companion QP at the thread's turn keeps the places coupled. -/
theorem Coupled.comp {c' : Option (Phase A cfg.comp)} (h : Coupled om (some c))
    (ht : turn om (some c) = some .comp) (hn : c.Next c') : Coupled om c' := by
  cases hn with
  | keep ho ho' => exact (coupled_comp_open ho').2 ((coupled_comp_open ho).1 h)
  | mark ho =>
    obtain ⟨r, rfl⟩ := (coupled_comp_open ho).1 h
    trivial
  | ticket =>
    rcases om with _ | (_ | _ | _ | _ | _ | _) <;> first | exact (h rfl).elim | exact h.elim
  | lock =>
    obtain ⟨rm, rfl⟩ | ⟨rm, st, rfl⟩ := coupled_comp_lock.1 h
    · cases ht
    · trivial
  | @stage r st w =>
    obtain rfl | ⟨rm, st', rfl⟩ := coupled_comp_submit.1 h
    · cases st.next w <;> trivial
    · cases hst : st.isFirst with
      | true =>
        obtain ⟨st', hst'⟩ := Stage.next_isFirst hst w
        rw [hst']
        trivial
      | false => simp [turn, hst] at ht

end Places

namespace Pair

/-- A companion reservation and the main reservation it was made for. -/
structure Linked (s : Pair A cfg) (rc : Rsv A cfg.comp) (rm : Rsv A cfg.main) : Prop where
  mem : rm ∈ s.main.rsvs
  agent : rm.agent = rc.agent
  ready : rm.stop ≤ s.main.sqReadyIndex
  wqes : ∃ call : CounterCall cfg, call.op.lastWqeIdx rm.base = rm.last ∧
    rc.wqes = call.op.companionWqes cfg.mainQp cfg.compQp call.args rm.base rc.base
  rung : rm.stop ≤ s.main.door.sqWqePi ∨
    (∃ c, s.comp.phase rc.agent = some c ∧ c.held = some rc) ∧
      ∃ m, s.main.phase rc.agent = some m ∧ m.atLock = some rm

/-- **The invariant of a pair.** -/
structure Inv (s : Pair A cfg) : Prop where
  main : s.main.Inv
  comp : s.comp.Inv
  coupled : ∀ a, Coupled (s.main.phase a) (s.comp.phase a)
  called : ∀ a m r, s.main.phase a = some m → m.rsv = some r →
    ∃ call, s.call a = some call ∧ r = call.mainRsv a r.base
  link : ∀ rc ∈ s.comp.rsvs, ∃ rm, s.Linked rc rm

variable {s s' : Pair A cfg} {rc : Rsv A cfg.comp} {rm : Rsv A cfg.main}

theorem Init.inv {env : HostEnv} (h : Init env s) : s.Inv where
  main := h.main.inv
  comp := h.comp.inv
  coupled := by simp [h.main.phase, h.comp.phase, Coupled]
  called := by simp [h.main.phase]
  link := by simp [h.comp.rsvs]

theorem Linked.frame (h : s.Linked rc rm) (hr : s.main.rsvs ⊆ s'.main.rsvs)
    (hready : s.main.sqReadyIndex ≤ s'.main.sqReadyIndex)
    (hpi : s.main.door.sqWqePi ≤ s'.main.door.sqWqePi)
    (hrung : (∃ c, s.comp.phase rc.agent = some c ∧ c.held = some rc) →
      (∃ m, s.main.phase rc.agent = some m ∧ m.atLock = some rm) →
      rm.stop ≤ s'.main.door.sqWqePi ∨
        (∃ c, s'.comp.phase rc.agent = some c ∧ c.held = some rc) ∧
          ∃ m, s'.main.phase rc.agent = some m ∧ m.atLock = some rm) : s'.Linked rc rm where
  mem := hr h.mem
  agent := h.agent
  ready := h.ready.trans hready
  wqes := h.wqes
  rung := by
    obtain hle | ⟨hc, hm⟩ := h.rung
    · exact .inl (hle.trans hpi)
    · exact hrung hc hm

variable [DecidableEq A] {a : A}

theorem Inv.begin (h : s.Inv) {call : CounterCall cfg} {rest : List (CounterCall cfg)}
    (ht : s.turn a = none) :
    Inv
      { main := s.main.post (call.mainRsv a s.main.sqRsvdIndex)
        comp := s.comp
        call := Function.update s.call a (some call)
        prog := Function.update s.prog a rest } := by
  obtain ⟨hm, hc⟩ := turn_eq_none.1 ht
  have hself : (s.main.post (call.mainRsv a s.main.sqRsvdIndex)).phase a =
      some (Qp.reserved (call.mainRsv a s.main.sqRsvdIndex)) := Function.update_self ..
  have hother : ∀ b, b ≠ a →
      (s.main.post (call.mainRsv a s.main.sqRsvdIndex)).phase b = s.main.phase b :=
    fun b hb => Function.update_of_ne hb ..
  refine ⟨h.main.post hm rfl, h.comp, fun b => ?_, fun b m r hb hr => ?_, fun rc hrc => ?_⟩
  · rcases eq_or_ne b a with rfl | hba
    · simp only [hself, hc]
      exact (coupled_main_open (Qp.openRsv_reserved _)).2 rfl
    · simp only [hother b hba]
      exact h.coupled b
  · rcases eq_or_ne b a with rfl | hba
    · rw [hself] at hb
      cases hb
      rw [Phase.rsv_of_openRsv (Qp.openRsv_reserved _)] at hr
      cases hr
      exact ⟨call, Function.update_self .., rfl⟩
    · rw [hother b hba] at hb
      simp only [Function.update_of_ne hba]
      exact h.called b m r hb hr
  · obtain ⟨rm, hlink⟩ := h.link rc hrc
    refine ⟨rm, hlink.frame (List.subset_cons_self ..) le_rfl le_rfl fun hcomp hmain => ?_⟩
    obtain ⟨m, hm', hat⟩ := hmain
    rcases eq_or_ne rc.agent a with heq | hne
    · rw [heq, hm] at hm'
      cases hm'
    · exact .inr ⟨hcomp, m, (hother _ hne).trans hm', hat⟩

omit [DecidableEq A] in
theorem held_reserved (r : Rsv A cfg.comp) : (Qp.reserved r).held = some r :=
  Phase.held_of_openRsv (Qp.openRsv_reserved r)

theorem Inv.reserve (h : s.Inv) {call : CounterCall cfg} {rm : Rsv A cfg.main}
    (ht : s.turn a = some .reserve) (hm : s.main.phase a = some (.lock rm))
    (hc : s.call a = some call) :
    Inv { s with comp := s.comp.post (call.compRsv a rm.base s.comp.sqRsvdIndex) } := by
  have hnone : s.comp.phase a = none := (turn_eq_reserve ht).2
  have hself : (s.comp.post (call.compRsv a rm.base s.comp.sqRsvdIndex)).phase a =
      some (Qp.reserved (call.compRsv a rm.base s.comp.sqRsvdIndex)) := Function.update_self ..
  have hother : ∀ b, b ≠ a →
      (s.comp.post (call.compRsv a rm.base s.comp.sqRsvdIndex)).phase b = s.comp.phase b :=
    fun b hb => Function.update_of_ne hb ..
  refine ⟨h.main, h.comp.post hnone rfl, fun b => ?_, h.called, fun rc hrc => ?_⟩
  · rcases eq_or_ne b a with rfl | hba
    · simp only [hself, hm]
      exact (coupled_comp_open (Qp.openRsv_reserved _)).2 ⟨rm, rfl⟩
    · simp only [hother b hba]
      exact h.coupled b
  · obtain rfl | hrc := List.mem_cons.1 hrc
    · obtain ⟨hmem, hag, hle⟩ := h.main.ledger.isReady a rm (Qp.readyRange_of_phase hm)
      obtain ⟨call', hcall', hrm⟩ := h.called a _ rm hm rfl
      obtain rfl : call = call' := Option.some.inj (hc.symm.trans hcall')
      refine ⟨rm, hmem, hag, hle, ⟨call, ?_, rfl⟩, .inr ⟨⟨_, hself, held_reserved _⟩, _, hm, rfl⟩⟩
      have hlast := call.op.lastWqeIdx_add_one rm.base
      have hlen : rm.wqes.length = call.op.mainCount := by
        rw [hrm]
        exact call.op.length_mainWqes _ _
      have := rm.last_add_one
      simp only [Rsv.stop] at this
      omega
    · obtain ⟨rm', hlink⟩ := h.link rc hrc
      refine ⟨rm', hlink.frame (List.Subset.refl _) le_rfl le_rfl fun hcomp hmain => ?_⟩
      obtain ⟨c, hc', hheld⟩ := hcomp
      rcases eq_or_ne rc.agent a with heq | hne
      · rw [heq, hnone] at hc'
        cases hc'
      · exact .inr ⟨⟨c, (hother _ hne).trans hc', hheld⟩, hmain⟩

theorem Inv.mainExec (h : s.Inv) {q : Qp A cfg.main} (ht : s.turn a = some .main)
    (hs : Qp.Exec a s.main q) : Inv { s with main := q } := by
  obtain ⟨⟨m, hm, hnext⟩, hother⟩ := hs.next
  obtain ⟨hrsvs, hready, hpi⟩ := h.main.exec_mono hs
  rw [turn, hm] at ht
  have hcoup := h.coupled a
  rw [hm] at hcoup
  refine ⟨h.main.exec hs, h.comp, fun b => ?_, fun b m' r hb hr => ?_, fun rc hrc => ?_⟩
  · rcases eq_or_ne b a with rfl | hba
    · exact hcoup.main ht hnext
    · simp only [hother b hba]
      exact h.coupled b
  · rcases eq_or_ne b a with rfl | hba
    · rw [hb] at hnext
      exact h.called b m r hm (hcoup.rsv_eq hnext hr)
    · exact h.called b m' r ((hother b hba).symm.trans hb) hr
  · obtain ⟨rm, hlink⟩ := h.link rc hrc
    refine ⟨rm, hlink.frame (hrsvs ▸ List.Subset.refl _) hready hpi fun hcomp hmain => ?_⟩
    obtain ⟨m', hm', hat⟩ := hmain
    rcases eq_or_ne rc.agent a with rfl | hne
    · obtain rfl : m = m' := Option.some.inj (hm.symm.trans hm')
      obtain ⟨c, hc, hheld⟩ := hcomp
      rw [hc] at ht hcoup
      refine .inr ⟨⟨c, hc, hheld⟩, ?_⟩
      generalize q.phase rc.agent = o at hnext ⊢
      cases hnext with
      | keep ho => cases (coupled_main_open ho).1 hcoup
      | mark ho => cases (coupled_main_open ho).1 hcoup
      | ticket => exact hcoup.elim
      | lock => exact ⟨_, rfl, hat⟩
      | @stage r' st w =>
        -- with the companion's lock still to be taken, the first loop is not done with the main QP
        have hfirst : st.isFirst = true := by
          cases c with
          | lock r => by_contra hst; simp [Gpunetio.turn, hst] at ht
          | submit r st' => cases hheld
          | poll | write | mark | markStore => exact hcoup.elim
        obtain ⟨st', hst'⟩ := Stage.next_isFirst hfirst w
        rw [hst']
        exact ⟨_, rfl, hat⟩
    · exact .inr ⟨hcomp, m', (hother _ hne).trans hm', hat⟩

omit [DecidableEq A] in
/-- A main reservation whose thread has executed `atomic_max` is submitted. -/
theorem Inv.rung_of_submit (h : s.Inv) (hlink : s.Linked rc rm) {r : Rsv A cfg.main} {st : Stage}
    (hm : s.main.phase rc.agent = some (.submit r st)) (hst : st ≠ .atomicMax) :
    rm.stop ≤ s.main.door.sqWqePi := by
  refine (h.main.ledger.rung rm hlink.mem hlink.ready).resolve_right ?_
  rw [hlink.agent, Qp.readyRange_of_phase hm]
  cases st <;> first | exact (hst rfl).elim | exact (Option.some_ne_none _).symm

theorem Inv.compExec (h : s.Inv) {q : Qp A cfg.comp} (ht : s.turn a = some .comp)
    (hs : Qp.Exec a s.comp q) : Inv { s with comp := q } := by
  obtain ⟨⟨c, hc, hnext⟩, hother⟩ := hs.next
  obtain ⟨hrsvs, -, -⟩ := h.comp.exec_mono hs
  rw [turn, hc] at ht
  have hcoup := h.coupled a
  rw [hc] at hcoup
  refine ⟨h.main, h.comp.exec hs, fun b => ?_, h.called, fun rc hrc => ?_⟩
  · rcases eq_or_ne b a with rfl | hba
    · exact hcoup.comp ht hnext
    · simp only [hother b hba]
      exact h.coupled b
  · obtain ⟨rm, hlink⟩ := h.link rc (hrsvs ▸ hrc)
    refine ⟨rm, hlink.frame (List.Subset.refl _) le_rfl le_rfl fun hcomp hmain => ?_⟩
    obtain ⟨c', hc', hheld⟩ := hcomp
    rcases eq_or_ne rc.agent a with rfl | hne
    · obtain rfl : c = c' := Option.some.inj (hc.symm.trans hc')
      obtain ⟨m, hm, hat⟩ := hmain
      generalize q.phase rc.agent = o at hnext ⊢
      cases hnext with
      | keep ho ho' =>
        obtain rfl := Option.some.inj ((Phase.held_of_openRsv ho).symm.trans hheld)
        exact .inr ⟨⟨_, rfl, Phase.held_of_openRsv ho'⟩, m, hm, hat⟩
      | mark ho =>
        obtain rfl := Option.some.inj ((Phase.held_of_openRsv ho).symm.trans hheld)
        exact .inr ⟨⟨_, rfl, rfl⟩, m, hm, hat⟩
      | ticket => cases hheld
      | lock =>
        -- the companion's lock is taken after `atomic_max` of the main QP
        cases m with
        | submit r st =>
          refine .inl (h.rung_of_submit hlink hm ?_)
          rintro rfl
          rw [hm] at ht
          cases ht
        | lock r => rw [hm] at ht; cases ht
        | poll | write | mark | markStore => cases hat
      | stage => cases hheld
    · exact .inr ⟨⟨c', (hother _ hne).trans hc', hheld⟩, hmain⟩

/-- **Every step keeps the invariant.** -/
theorem Inv.step (h : s.Inv) {l : Option A} (hs : Step l s s') : s'.Inv := by
  cases hs with
  | begin a ht hp => exact h.begin ht
  | reserve a ht hm hc => exact h.reserve ht hm hc
  | main a ht hs => exact h.mainExec ht hs
  | comp a ht hs => exact h.compExec ht hs
  | mainNic hs =>
    have hmain := h.main.step (.nic hs)
    cases hs
    refine ⟨hmain, h.comp, h.coupled, h.called, fun rc hrc => ?_⟩
    obtain ⟨rm, hlink⟩ := h.link rc hrc
    exact ⟨rm, hlink.frame (List.Subset.refl _) le_rfl le_rfl fun hc hm => .inr ⟨hc, hm⟩⟩
  | compNic hs =>
    have hcomp := h.comp.step (.nic hs)
    cases hs
    refine ⟨h.main, hcomp, h.coupled, h.called, fun rc hrc => ?_⟩
    obtain ⟨rm, hlink⟩ := h.link rc hrc
    exact ⟨rm, hlink.frame (List.Subset.refl _) le_rfl le_rfl fun hc hm => .inr ⟨hc, hm⟩⟩

theorem reachable_inv {env : HostEnv}
    (h : Reachable (Init env) (fun s s' : Pair A cfg => ∃ l, Step l s s') s) : s.Inv :=
  h.invariant (fun _ => Init.inv) fun _ _ ih ⟨_, hs⟩ => ih.step hs

end Pair

end Gpunetio
