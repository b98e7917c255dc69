import Gpunetio.Lib.Transition
import Gpunetio.Proxy.Refine
import Gpunetio.Service.Model

/-!
# The service keeps to its QPs

The thread and the callers exclude each other, so the set does not change under the thread; each QP
sees the service as one proxy of its own, whatever the others do; and nothing of the service is
touched after it has been freed.

* `ProxyQp.During`, `ProxyQp.During.step`: what holds of a QP during a progress call;
* `Service.Inv`, `Service.Inv.step`, `Service.reachable_inv`;
* `Service.project`, **`Service.refines_submission`**: each QP is served as by direct submission;
* **`Service.exclusive`**.
-/

namespace Gpunetio

open Transition Relation

/-! ## One QP -/

namespace ProxyQp

variable {qp : ProxyQp} {m : ProxyMem} {v : ℕ} {op : ProxyOp} {todo : List ProxyOp}

/-- The stores of a call: either the host rings first, or the device rings, too. -/
theorem ops_cases (qp : ProxyQp) :
    ¬ qp.Assisted ∧ (qp.ops = [.ringDb, .storeDbrec, .ringDb, .setLast] ∨
        qp.ops = [.ringDb, .setLast]) ∨
      qp.Assisted ∧ qp.ops = [.storeDbrec, .ringDb, .setLast] := by
  unfold ops progressOps Assisted fullAssisted dbrAssisted
  by_cases ha : qp.sendDbrModeExt = .noDbrSwEmulated ∧ qp.nicHandler ≠ .cpuProxy
  · exact .inr ⟨ha, if_pos ha⟩
  · refine .inl ⟨ha, ?_⟩
    rw [if_neg ha]
    by_cases hm : qp.sendDbrModeExt ≠ .noDbrHw
    · exact .inl (if_pos hm)
    · exact .inr (if_neg hm)

@[simp] theorem served_exec_setLast (qp : ProxyQp) (m : ProxyMem) (v : ℕ) :
    qp.served (m.exec qp.sqNumShift8Be v .setLast) = qp.served m := rfl

theorem served_exec_ringDb : qp.served (m.exec qp.sqNumShift8Be v .ringDb) =
    if qp.Assisted then qp.served m else v := by
  unfold served
  split <;> rfl

theorem served_exec_storeDbrec : qp.served (m.exec qp.sqNumShift8Be v .storeDbrec) =
    if qp.Assisted then v else qp.served m := by
  unfold served
  split <;> rfl

/-- The first store of a call tells the NIC. -/
theorem served_exec_first (h : qp.ops = op :: todo) :
    qp.served (m.exec qp.sqNumShift8Be v op) = v := by
  obtain ⟨ha, hops | hops⟩ | ⟨ha, hops⟩ := qp.ops_cases
  · obtain ⟨rfl, -⟩ := List.cons.inj (h.symm.trans hops)
    rw [served_exec_ringDb, if_neg ha]
  · obtain ⟨rfl, -⟩ := List.cons.inj (h.symm.trans hops)
    rw [served_exec_ringDb, if_neg ha]
  · obtain ⟨rfl, -⟩ := List.cons.inj (h.symm.trans hops)
    rw [served_exec_storeDbrec, if_pos ha]

/-- The further stores change nothing about that. -/
theorem served_exec_same (h : qp.served m = v) :
    qp.served (m.exec qp.sqNumShift8Be v op) = v := by
  cases op with
  | ringDb => rw [served_exec_ringDb, h, ite_self]
  | storeDbrec => rw [served_exec_storeDbrec, h, ite_self]
  | setLast => exact h

/-- The last store of a call is the one to `sq_wqe_pi_last`. -/
theorem last_of_suffix (h : [op] <:+ qp.ops) : op = .setLast := by
  have hlast : qp.ops.getLast? = some .setLast := by
    obtain ⟨-, hops | hops⟩ | ⟨-, hops⟩ := qp.ops_cases <;> rw [hops] <;> rfl
  obtain ⟨l, hl⟩ := h
  rw [← hl, List.getLast?_concat] at hlast
  exact Option.some.inj hlast

/-- What holds of a QP between two progress calls, or in one: `sq_wqe_pi_last` is how far the host
has got, and a call has an index that the device has published. -/
def During (qp : ProxyQp) (m : ProxyMem) : Option ProxyCall → Prop
  | none => m.sqWqePiLast = qp.served m % 2 ^ 32
  | some (.loaded v) => m.sqWqePiLast = qp.served m % 2 ^ 32 ∧ qp.served m ≤ v ∧ v ≤ m.cpuDb
  | some (.storing v todo) => v ≤ m.cpuDb ∧ todo <:+ qp.ops ∧
      (todo = qp.ops ∧ qp.served m < v ∨
        qp.served m = v ∧ todo ≠ qp.ops ∧ (todo = [] → m.sqWqePiLast = v % 2 ^ 32))

/-- A QP: the host is not ahead of the device, nor too far behind. -/
structure Good (qp : ProxyQp) (m : ProxyMem) (c : Option ProxyCall) : Prop where
  le : qp.served m ≤ m.cpuDb
  lt : m.cpuDb < qp.served m + 2 ^ 32
  during : qp.During m c

variable {c : Option ProxyCall}

/-- The device changes nothing but `cpu_db` and the doorbell. -/
theorem Good.device {m' : ProxyMem} (h : qp.Good m c) (hs : qp.served m' = qp.served m)
    (hl : m'.sqWqePiLast = m.sqWqePiLast) (hle : m.cpuDb ≤ m'.cpuDb)
    (hlt : m'.cpuDb < qp.served m + 2 ^ 32) : qp.Good m' c where
  le := by rw [hs]; exact h.le.trans hle
  lt := by rw [hs]; exact hlt
  during := by
    have hd := h.during
    rcases c with _ | (v | ⟨v, todo⟩)
    · exact hl.trans (hd.trans (by rw [hs]))
    · obtain ⟨hd₁, hd₂, hd₃⟩ := hd
      exact ⟨hl.trans (hd₁.trans (by rw [hs])), by rw [hs]; exact hd₂, hd₃.trans hle⟩
    · obtain ⟨hd₁, hd₂, hd₃⟩ := hd
      refine ⟨hd₁.trans hle, hd₂, ?_⟩
      rw [hs, hl]
      exact hd₃

/-- The call compares the index with the last one. -/
theorem Good.behind_iff (h : qp.Good m (some (.loaded v))) :
    m.behind v = true ↔ qp.served m < v := by
  obtain ⟨hl, hle, hv⟩ := h.during
  exact ProxySys.behind_iff hl hle (hv.trans_lt h.lt)

/-- **A step of the call keeps the QP good**, and the host never falls back. -/
theorem Good.step (h : qp.Good m c) :
    qp.Good (m.proxyStep qp.sqNumShift8Be qp.ops c).1 (m.proxyStep qp.sqNumShift8Be qp.ops c).2 ∧
      qp.served m ≤ qp.served (m.proxyStep qp.sqNumShift8Be qp.ops c).1 := by
  rcases c with _ | (v | ⟨v, _ | ⟨op, todo⟩⟩)
  · exact ⟨⟨h.le, h.lt, h.during, h.le, le_rfl⟩, le_rfl⟩
  · obtain ⟨hl, hle, hv⟩ := h.during
    refine ⟨⟨h.le, h.lt, ?_⟩, le_rfl⟩
    show qp.During m (if m.behind v then some (.storing v qp.ops) else none)
    by_cases hb : m.behind v = true
    · rw [if_pos hb]
      exact ⟨hv, List.suffix_rfl, .inl ⟨rfl, h.behind_iff.1 hb⟩⟩
    · rw [if_neg hb]
      exact hl
  · obtain ⟨-, -, ⟨hops, -⟩ | ⟨hs, -, hlast⟩⟩ := h.during
    · obtain ⟨-, hops' | hops'⟩ | ⟨-, hops'⟩ := qp.ops_cases <;> rw [hops'] at hops <;> cases hops
    · exact ⟨⟨h.le, h.lt, (hlast rfl).trans (congrArg (· % 2 ^ 32) hs.symm)⟩, le_rfl⟩
  · obtain ⟨hv, hsuf, hwhen⟩ := h.during
    have hserved : qp.served (m.exec qp.sqNumShift8Be v op) = v :=
      hwhen.elim (fun hw => served_exec_first hw.1.symm) fun hw => served_exec_same hw.1
    have hle : qp.served m ≤ v := hwhen.elim (fun hw => hw.2.le) fun hw => hw.1.le
    have hlt := h.lt
    refine ⟨⟨?_, ?_, ?_, (List.suffix_cons op todo).trans hsuf, .inr ⟨hserved, ?_, ?_⟩⟩, ?_⟩
    · show qp.served (m.exec qp.sqNumShift8Be v op) ≤ (m.exec qp.sqNumShift8Be v op).cpuDb
      rw [hserved, ProxyMem.exec_cpuDb]
      exact hv
    · show (m.exec qp.sqNumShift8Be v op).cpuDb < qp.served (m.exec qp.sqNumShift8Be v op) + 2 ^ 32
      rw [hserved, ProxyMem.exec_cpuDb]
      omega
    · exact hv.trans ProxyMem.exec_cpuDb.ge
    · rintro rfl
      exact absurd hsuf.length_le (by simp)
    · rintro rfl
      obtain rfl := last_of_suffix hsuf
      exact BitVec.toNat_ofNat v 32
    · show qp.served m ≤ qp.served (m.exec qp.sqNumShift8Be v op)
      rw [hserved]
      exact hle

end ProxyQp

/-! ## The service -/

/-- The thread is in its loop, from the lock to the unlock. -/
def ServicePc.Holds {Q : Type*} : ServicePc Q → Prop
  | visit _ _ | progress _ _ _ _ | unlock => True
  | test | rdlock | ended => False

/-- The QPs that the pass has still to begin with. -/
def ServicePc.left {Q : Type*} : ServicePc Q → List Q
  | visit _ todo | progress _ _ _ todo => todo
  | _ => []

/-- The progress call under way for `q`. -/
def ServicePc.callOn {Q : Type*} [DecidableEq Q] (q : Q) : ServicePc Q → Option ProxyCall
  | progress _ q' c _ => if q = q' then some c else none
  | _ => none

namespace Service

variable {Q C : Type*} [LinearOrder Q] {cfg : Q → ProxyQp} {s s' : Service Q C}

/-- The steps of the thread, by the place in the loop. -/
inductive Next (cfg : Q → ProxyQp) (s : Service Q C) : Service Q C → Prop
  | test (h : s.thread = .test) :
      Next cfg s { s with thread := if s.running then .rdlock else .ended }
  | rdlock (h : s.thread = .rdlock) (hl : s.serviceLock = none) :
      Next cfg s { s with serviceLock := some .service, thread := .visit false s.qps.sort }
  | skip {progressed q todo} (h : s.thread = .visit progressed (q :: todo))
      (hq : (cfg q).cpuProxy = false) : Next cfg s { s with thread := .visit progressed todo }
  | call {progressed q todo} (h : s.thread = .visit progressed (q :: todo))
      (hq : (cfg q).cpuProxy = true) : Next cfg s (s.advance cfg progressed q none todo)
  | step {progressed q c todo} (h : s.thread = .progress progressed q c todo) :
      Next cfg s (s.advance cfg progressed q (some c) todo)
  | again (h : s.thread = .visit true []) :
      Next cfg s { s with thread := .visit false s.qps.sort }
  | leave (h : s.thread = .visit false []) : Next cfg s { s with thread := .unlock }
  | unlock (h : s.thread = .unlock) : Next cfg s { s with serviceLock := none, thread := .test }

/-- Every step of the thread is one of these. -/
theorem Next.of_next (h : s.next cfg = some s') : Next cfg s s' := by
  unfold next at h
  split at h
  case h_1 ht =>
    obtain rfl := Option.some.inj h
    exact .test ht
  case h_2 ht =>
    split at h
    · obtain rfl := Option.some.inj h
      exact .rdlock ht ‹_›
    · cases h
  case h_3 progressed q todo ht =>
    split at h
    · obtain rfl := Option.some.inj h
      exact .call ht ‹_›
    · obtain rfl := Option.some.inj h
      exact .skip ht (Bool.not_eq_true _ ▸ ‹¬ _›)
  case h_4 ht =>
    obtain rfl := Option.some.inj h
    exact .again ht
  case h_5 ht =>
    obtain rfl := Option.some.inj h
    exact .leave ht
  case h_6 progressed q call todo ht =>
    obtain rfl := Option.some.inj h
    exact .step ht
  case h_7 ht =>
    obtain rfl := Option.some.inj h
    exact .unlock ht
  case h_8 ht => cases h

theorem Next.next_eq (h : Next cfg s s') : s.next cfg = some s' := by
  cases h with
  | test h | step h | again h | leave h | unlock h => simp only [next, h]
  | rdlock h hl => simp only [next, h, hl]
  | skip h hq => simp [next, h, hq]
  | call h hq => simp [next, h, hq]

variable {q q' : Q} {progressed : Bool} {call : Option ProxyCall} {todo : List Q}

theorem advance_callOn (cfg : Q → ProxyQp) (s : Service Q C) (progressed : Bool) (q : Q)
    (call : Option ProxyCall) (todo : List Q) (q' : Q) :
    (s.advance cfg progressed q call todo).thread.callOn q' =
    if q' = q then ((s.mem q).proxyStep (cfg q).sqNumShift8Be (cfg q).ops call).2 else none := by
  unfold advance
  dsimp only
  split
  · rename_i hc
    rw [hc]
    rfl
  · rename_i hc
    rw [hc, ite_self]
    rfl

theorem advance_left : (s.advance cfg progressed q call todo).thread.left = todo := by
  unfold advance
  dsimp only
  split <;> rfl

theorem advance_holds : (s.advance cfg progressed q call todo).thread.Holds := by
  unfold advance
  dsimp only
  split <;> trivial

/-- The host has written nothing to a QP. -/
structure Untouched (qp : ProxyQp) (m : ProxyMem) : Prop where
  records : m.records = []
  trace : ¬ qp.Assisted → m.trace = []

/-- **The invariant.** -/
structure Inv (cfg : Q → ProxyQp) (s : Service Q C) : Prop where
  good : ∀ q, (cfg q).Good (s.mem q) (s.thread.callOn q)
  holds : s.thread.Holds ↔ s.serviceLock = some .service
  caller : ∀ c, s.serviceLock = some (.caller c) ↔
    ∃ q stage, s.caller c = some (q, stage) ∧ stage ≠ .wrlock
  left : ∀ q ∈ s.thread.left, q ∈ s.qps
  calling : ∀ q, s.thread.callOn q ≠ none → q ∈ s.qps ∧ (cfg q).cpuProxy = true
  untouched : ∀ q, q ∉ s.qps ∨ (cfg q).cpuProxy = false → Untouched (cfg q) (s.mem q)
  stopped : s.running = false → ∀ c, s.caller c = none
  ended : s.thread = .ended → s.running = false
  freed : s.freed = true → s.thread = .ended

theorem Init.inv (h : Init s) : s.Inv cfg where
  good := fun q => by
    have hserved : (cfg q).served (s.mem q) = 0 := by
      simp [ProxyQp.served, ProxyMem.records, ProxyMem.rung, ProxyMem.doorbells, h.trace q]
    have hcpu := h.cpuDb q
    refine ⟨by omega, by omega, ?_⟩
    rw [h.thread]
    exact (h.last q).trans (by rw [hserved]; rfl)
  holds := by rw [h.thread, h.serviceLock]; exact ⟨False.elim, fun h => by cases h⟩
  caller := fun c => by simp [h.serviceLock, h.caller c]
  left := by simp [h.thread, ServicePc.left]
  calling := by simp [h.thread, ServicePc.callOn]
  untouched := fun q _ => ⟨by simp [ProxyMem.records, h.trace q], fun _ => h.trace q⟩
  stopped := fun hr => by rw [h.running] at hr; cases hr
  ended := fun ht => by rw [h.thread] at ht; cases ht
  freed := fun hf => by rw [h.freed] at hf; cases hf

/-- The thread goes on in its loop, without a progress call. -/
theorem Inv.move (h : s.Inv cfg) {pc : ServicePc Q} (hs : s.thread.Holds) (hpc : pc.Holds)
    (hfrom : ∀ q, s.thread.callOn q = none) (hto : ∀ q, pc.callOn q = none)
    (hleft : ∀ q ∈ pc.left, q ∈ s.qps) : Inv cfg { s with thread := pc } where
  good := fun q => by rw [hto q, ← hfrom q]; exact h.good q
  holds := ⟨fun _ => h.holds.1 hs, fun _ => hpc⟩
  caller := h.caller
  left := hleft
  calling := fun q hq => absurd (hto q) hq
  untouched := h.untouched
  stopped := h.stopped
  ended := by rintro rfl; exact hpc.elim
  freed := fun hf => by rw [h.freed hf] at hs; exact hs.elim

/-- The thread moves where it does not hold the lock. -/
theorem Inv.outside (h : s.Inv cfg) {pc : ServicePc Q} {lock : Option (Holder C)}
    (hfrom : ∀ q, s.thread.callOn q = none) (hto : ∀ q, pc.callOn q = none)
    (hleft : ∀ q ∈ pc.left, q ∈ s.qps) (hholds : pc.Holds ↔ lock = some .service)
    (hlock : ∀ c, lock = some (.caller c) ↔ s.serviceLock = some (.caller c))
    (hended : pc = .ended → s.running = false) (hfreed : s.thread ≠ .ended) :
    Inv cfg { s with serviceLock := lock, thread := pc } where
  good := fun q => by rw [hto q, ← hfrom q]; exact h.good q
  holds := hholds
  caller := fun c => (hlock c).trans (h.caller c)
  left := hleft
  calling := fun q hq => absurd (hto q) hq
  untouched := h.untouched
  stopped := h.stopped
  ended := hended
  freed := fun hf => absurd (h.freed hf) hfreed

/-- **A step of a progress call.** -/
theorem Inv.advance (h : s.Inv cfg) (hs : s.thread.Holds)
    (hcall : ∀ q', s.thread.callOn q' = if q' = q then call else none) (hq : q ∈ s.qps)
    (hp : (cfg q).cpuProxy = true) (hleft : ∀ q' ∈ todo, q' ∈ s.qps) :
    Inv cfg (s.advance cfg progressed q call todo) where
  good := fun q' => by
    rw [advance_callOn]
    have hgood := h.good q'
    rw [hcall q'] at hgood
    unfold Service.advance
    dsimp only
    by_cases heq : q' = q
    · subst heq
      rw [if_pos rfl] at hgood
      rw [if_pos rfl, Function.update_self]
      exact hgood.step.1
    · rw [if_neg heq] at hgood
      rw [if_neg heq, Function.update_of_ne heq]
      exact hgood
  holds := ⟨fun _ => h.holds.1 hs, fun _ => advance_holds⟩
  caller := h.caller
  left := fun q' hq' => by rw [advance_left] at hq'; exact hleft q' hq'
  calling := fun q' hq' => by
    rw [advance_callOn] at hq'
    by_cases heq : q' = q
    · subst heq; exact ⟨hq, hp⟩
    · exact absurd (if_neg heq) hq'
  untouched := fun q' hq' => by
    have hne : q' ≠ q := by
      rintro rfl
      obtain hn | hn := hq'
      · exact hn hq
      · rw [hp] at hn; cases hn
    unfold Service.advance
    dsimp only
    rw [Function.update_of_ne hne]
    exact h.untouched q' hq'
  stopped := h.stopped
  ended := fun ht => by
    have hholds : (s.advance cfg progressed q call todo).thread.Holds := advance_holds
    rw [ht] at hholds
    exact hholds.elim
  freed := fun hf => by rw [h.freed hf] at hs; exact hs.elim

theorem Inv.next (h : s.Inv cfg) (hs : Next cfg s s') : s'.Inv cfg := by
  cases hs with
  | test ht =>
    refine h.outside (by simp [ht, ServicePc.callOn]) ?_ ?_ ?_ (fun _ => Iff.rfl) ?_ (by simp [ht])
    · intro q; split <;> rfl
    · split <;> simp [ServicePc.left]
    · rw [← h.holds, ht]
      split <;> exact Iff.rfl
    · split
      · exact fun hc => by cases hc
      · exact fun _ => Bool.not_eq_true _ ▸ ‹¬ _›
  | rdlock ht hl =>
    refine h.outside (by simp [ht, ServicePc.callOn]) (fun _ => rfl) ?_
      ⟨fun _ => rfl, fun _ => trivial⟩
      (fun c => by simp [hl]) (fun hc => by cases hc) (by simp [ht])
    exact fun q hq => (Finset.mem_sort _).1 hq
  | skip ht hq =>
    refine h.move (by rw [ht]; trivial) trivial (by simp [ht, ServicePc.callOn]) (fun _ => rfl) ?_
    exact fun q hq => h.left q (by rw [ht]; exact List.mem_cons_of_mem _ hq)
  | call ht hq =>
    refine h.advance (by rw [ht]; trivial) (fun q' => ?_) ?_ hq ?_
    · rw [ht, ite_self]; rfl
    · exact h.left _ (by rw [ht]; exact List.mem_cons_self)
    · exact fun q hq => h.left q (by rw [ht]; exact List.mem_cons_of_mem _ hq)
  | @step progressed q c todo ht =>
    have hcall : s.thread.callOn q = some c := by rw [ht]; exact if_pos rfl
    obtain ⟨hq, hp⟩ := h.calling q (by rw [hcall]; exact Option.some_ne_none c)
    refine h.advance (by rw [ht]; trivial) (fun q' => ?_) hq hp ?_
    · rw [ht]; rfl
    · exact fun q hq => h.left q (by rw [ht]; exact hq)
  | again ht =>
    refine h.move (by rw [ht]; trivial) trivial (by simp [ht, ServicePc.callOn]) (fun _ => rfl) ?_
    exact fun q hq => (Finset.mem_sort _).1 hq
  | leave ht =>
    exact h.move (by rw [ht]; trivial) trivial (by simp [ht, ServicePc.callOn]) (fun _ => rfl)
      (by simp [ServicePc.left])
  | unlock ht =>
    have hl : s.serviceLock = some .service := h.holds.1 (by rw [ht]; trivial)
    exact h.outside (by simp [ht, ServicePc.callOn]) (fun _ => rfl) (by simp [ServicePc.left])
      ⟨False.elim, fun hc => by cases hc⟩ (fun c => by simp [hl]) (fun hc => by cases hc)
      (by simp [ht])

/-- The device moves at a QP. -/
theorem Inv.device (h : s.Inv cfg) {m : ProxyMem}
    (hs : (cfg q).served m = (cfg q).served (s.mem q))
    (hl : m.sqWqePiLast = (s.mem q).sqWqePiLast) (hle : (s.mem q).cpuDb ≤ m.cpuDb)
    (hlt : m.cpuDb < (cfg q).served (s.mem q) + 2 ^ 32)
    (hu : Untouched (cfg q) (s.mem q) → Untouched (cfg q) m) :
    Inv cfg { s with mem := Function.update s.mem q m } := by
  refine ⟨fun q' => ?_, h.holds, h.caller, h.left, h.calling, fun q' hq' => ?_, h.stopped, h.ended,
    h.freed⟩
  · by_cases heq : q' = q
    · subst heq
      dsimp only
      rw [Function.update_self]
      exact (h.good q').device hs hl hle hlt
    · dsimp only
      rw [Function.update_of_ne heq]
      exact h.good q'
  · have hu' := h.untouched q' hq'
    by_cases heq : q' = q
    · subst heq
      dsimp only
      rw [Function.update_self]
      exact hu hu'
    · dsimp only
      rw [Function.update_of_ne heq]
      exact hu'

/-- A caller who has got the lock holds it. -/
theorem Inv.lock_of_caller (h : s.Inv cfg) {c : C} {stage : MonitorStage}
    (hc : s.caller c = some (q, stage)) (hs : stage ≠ .wrlock) :
    s.serviceLock = some (.caller c) := (h.caller c).2 ⟨q, stage, hc, hs⟩

/-- What a caller does, and what it leaves in the lock. -/
theorem Inv.callers [DecidableEq C] (h : s.Inv cfg) {c : C} {o : Option (Q × MonitorStage)}
    {lock : Option (Holder C)} {qps : Finset Q} (hr : s.running = true) (hsub : s.qps ⊆ qps)
    (hfrom : s.serviceLock = lock ∨
      s.serviceLock ≠ some .service ∧ lock ≠ some .service ∧
        (∀ c', c' ≠ c → s.serviceLock ≠ some (.caller c') ∧ lock ≠ some (.caller c')))
    (hto : lock = some (.caller c) ↔ ∃ q stage, o = some (q, stage) ∧ stage ≠ .wrlock) :
    Inv cfg { s with
      caller := Function.update s.caller c o
      serviceLock := lock
      qps := qps } where
  good := h.good
  holds := by
    obtain rfl | ⟨hs, hl, -⟩ := hfrom
    · exact h.holds
    · exact h.holds.trans (iff_of_false hs hl)
  caller := fun c' => by
    by_cases heq : c' = c
    · subst heq
      dsimp only
      rw [Function.update_self]
      exact hto
    · dsimp only
      rw [Function.update_of_ne heq, ← h.caller c']
      obtain rfl | ⟨-, -, hothers⟩ := hfrom
      · exact Iff.rfl
      · exact iff_of_false (hothers c' heq).2 (hothers c' heq).1
  left := fun q hq => hsub (h.left q hq)
  calling := fun q hq => ⟨hsub (h.calling q hq).1, (h.calling q hq).2⟩
  untouched := fun q hq => h.untouched q (hq.imp_left fun hn hmem => hn (hsub hmem))
  stopped := fun hstop => by rw [hr] at hstop; cases hstop
  ended := h.ended
  freed := h.freed

/-- A caller is under way only while the service runs. -/
theorem Inv.running (h : s.Inv cfg) {c : C} {x : Q × MonitorStage} (hc : s.caller c = some x) :
    s.running = true := by
  by_contra hr
  rw [h.stopped (Bool.not_eq_true _ ▸ hr) c] at hc
  cases hc

/-- **Every step keeps the invariant.** -/
theorem Inv.step [DecidableEq C] (h : s.Inv cfg) (hs : Step cfg s s') : s'.Inv cfg := by
  cases hs with
  | thread hn => exact h.next (.of_next hn)
  | monitor c q hc hr =>
    refine h.callers hr subset_rfl (.inl rfl) ⟨fun hl => ?_, ?_⟩
    · obtain ⟨q', stage, hc', -⟩ := (h.caller c).1 hl
      rw [hc] at hc'
      cases hc'
    · rintro ⟨q', stage, ⟨⟩, hstage⟩
      exact (hstage rfl).elim
  | @wrlock c q hc hl =>
    refine h.callers (h.running hc) subset_rfl (.inr ⟨by simp [hl], by simp, fun c' hne => ?_⟩) ?_
    · exact ⟨by simp [hl], by simpa using Ne.symm hne⟩
    · exact iff_of_true rfl ⟨q, .insert, rfl, by decide⟩
  | @insert c q hc =>
    refine h.callers (h.running hc) (Finset.subset_insert q s.qps) (.inl rfl) ?_
    exact iff_of_true (h.lock_of_caller hc (by decide)) ⟨q, .unlock, rfl, by decide⟩
  | @unlock c q hc =>
    have hl := h.lock_of_caller hc (by decide)
    refine h.callers (h.running hc) subset_rfl (.inr ⟨by simp [hl], by simp, fun c' hne => ?_⟩) ?_
    · exact ⟨by simpa [hl] using Ne.symm hne, by simp⟩
    · exact iff_of_false (by simp) (by simp)
  | stop hc =>
    exact ⟨h.good, h.holds, h.caller, h.left, h.calling, h.untouched, fun _ => hc, fun _ => rfl,
      h.freed⟩
  | free hr ht =>
    exact ⟨h.good, h.holds, h.caller, h.left, h.calling, h.untouched, h.stopped, h.ended,
      fun _ => ht⟩
  | publish q p hp =>
    exact h.device rfl rfl (le_max_left _ _) (max_lt (h.good q).lt hp)
      fun hu => ⟨hu.records, hu.trace⟩
  | ring q device p ha hp =>
    refine h.device ?_ rfl le_rfl (h.good q).lt fun hu => ⟨hu.records, fun hn => (hn ha).elim⟩
    unfold ProxyQp.served
    rw [if_pos ha, if_pos ha]
    rfl

theorem reachable_inv [DecidableEq C] (h : Reachable Init (Step cfg) s) : s.Inv cfg :=
  h.invariant (fun _ => Init.inv) fun _ _ => Inv.step

/-! ## Each QP has a proxy of its own -/

/-- What a QP sees of the service. -/
def project (s : Service Q C) (q : Q) : ProxySys := ⟨s.mem q, s.thread.callOn q⟩

/-- The QP whose call it is sees a step of its proxy, the others see none. -/
theorem project_advance (hcall : ∀ q', s.thread.callOn q' = if q' = q then call else none) :
    ReflTransGen (ProxySys.Step (cfg q').sqNumShift8Be (cfg q').ops) (s.project q')
      ((s.advance cfg progressed q call todo).project q') := by
  have hto := advance_callOn cfg s progressed q call todo q'
  by_cases heq : q' = q
  · subst heq
    have hfrom : s.project q' = ⟨s.mem q', call⟩ := by rw [project, hcall q', if_pos rfl]
    rw [hfrom, project, hto, if_pos rfl]
    unfold Service.advance
    dsimp only
    rw [Function.update_self]
    exact .single (.proxy (s := ⟨s.mem q', call⟩))
  · have hsame : (s.advance cfg progressed q call todo).project q' = s.project q' := by
      rw [project, project, hto, if_neg heq, hcall q', if_neg heq]
      unfold Service.advance
      dsimp only
      rw [Function.update_of_ne heq]
    rw [hsame]

/-- A step that leaves the memory and the progress calls alone. -/
theorem project_same {t : Service Q C} (hm : t.mem q = s.mem q)
    (hc : t.thread.callOn q = s.thread.callOn q) : t.project q = s.project q := by
  rw [project, project, hm, hc]

/-- **A step of the service is a step of the proxy of each QP, or none.** -/
theorem project_step [DecidableEq C] (hs : Step cfg s s')
    (ha : ¬ (cfg q).Assisted) :
    ReflTransGen (ProxySys.Step (cfg q).sqNumShift8Be (cfg q).ops)
      (s.project q) (s'.project q) := by
  have hnone : s'.project q = s.project q → ReflTransGen
      (ProxySys.Step (cfg q).sqNumShift8Be (cfg q).ops) (s.project q) (s'.project q) :=
    fun heq => by rw [heq]
  cases hs with
  | thread hn =>
    cases Next.of_next hn with
    | test ht =>
      refine hnone (project_same rfl ?_)
      rw [ht]
      dsimp only
      split <;> rfl
    | rdlock ht | skip ht | again ht | leave ht | unlock ht =>
      exact hnone (project_same rfl (by rw [ht]; rfl))
    | call ht hq => exact project_advance fun q' => by rw [ht, ite_self]; rfl
    | step ht => exact project_advance fun q' => by rw [ht]; rfl
  | monitor | wrlock | insert | unlock | stop | free => exact hnone rfl
  | publish q' p hp =>
    by_cases heq : q = q'
    · subst heq
      have hp' : p < (s.mem q).rung + 2 ^ 32 := by rwa [ProxyQp.served, if_neg ha] at hp
      have hto : project { s with
          mem := Function.update s.mem q { s.mem q with cpuDb := max (s.mem q).cpuDb p } } q =
          ⟨{ s.mem q with cpuDb := max (s.mem q).cpuDb p }, s.thread.callOn q⟩ := by
        unfold project
        dsimp only
        rw [Function.update_self]
      rw [hto]
      exact .single (.ringProxy (s := s.project q) p hp')
    · exact hnone (project_same (Function.update_of_ne heq _ _) rfl)
  | ring q' device p ha' hp =>
    have hne : q ≠ q' := by
      rintro rfl
      exact ha ha'
    exact hnone (project_same (Function.update_of_ne hne _ _) rfl)

theorem Init.project (h : Init s) (q : Q) : ProxySys.Init (s.project q) :=
  ⟨h.cpuDb q, h.last q, h.sqDbrec q, h.trace q, by rw [Service.project, h.thread]; rfl⟩

theorem reachable_project [DecidableEq C] (h : Reachable Init (Step cfg) s)
    (ha : ¬ (cfg q).Assisted) :
    Reachable ProxySys.Init (ProxySys.Step (cfg q).sqNumShift8Be (cfg q).ops) (s.project q) :=
  h.simulate (Service.project · q) (fun _ h₀ => h₀.project q) fun _ _ _ _ hs => project_step hs ha

/-- **Each QP is served as by direct submission.** Whatever the other QPs, the callers and the one
who destroys the service do, the writes of the service to a QP are those of a run of `submit_db`,
each has the bits for an index published before, and the indices never go back. -/
theorem refines_submission [DecidableEq C] (h : Reachable Init (Step cfg) s)
    (hm : (cfg q).sendDbrModeExt = .validDbr) :
    (∃ t : SubmitSys Unit, Reachable SubmitSys.Init (SubmitSys.Step (cfg q).sqNumShift8Be) t ∧
      (s.mem q).sqDb = t.door.sqDb ∧ (s.mem q).sqDbrec = t.door.sqDbrec ∧
      t.door.trace.filter (· ≠ .unlock) = (s.mem q).trace.map ProxyWrite.event) ∧
    (∀ w ∈ (s.mem q).trace, w.Direct (cfg q).sqNumShift8Be ∧ w.index ≤ (s.mem q).cpuDb) ∧
    ((s.mem q).trace.map ProxyWrite.index).Pairwise (· ≥ ·) := by
  have ha : ¬ (cfg q).Assisted := fun ha => by cases hm.symm.trans ha.1
  have hops : (cfg q).ops = fullAssisted .validDbr := by rw [ProxyQp.ops, hm]; rfl
  have hr := reachable_project h ha
  rw [hops] at hr
  obtain ⟨⟨t, ht, hrel⟩, hw⟩ := ProxySys.reachable_rel hr
  refine ⟨⟨t, ht, hrel.sqDb, hrel.sqDbrec, hrel.trace⟩, fun w hmem => ⟨hw.direct w hmem, ?_⟩,
    hw.ordered⟩
  exact (hrel.index_le (SubmitSys.reachable_inv ht) hmem).trans hrel.le

/-- No step of anybody changes the set while the thread is in its loop. -/
theorem Inv.qps_eq [DecidableEq C] (h : s.Inv cfg) (hs : Step cfg s s') (ht : s.thread.Holds) :
    s'.qps = s.qps := by
  have hl := h.holds.1 ht
  cases hs with
  | thread hn => cases Next.of_next hn <;> rfl
  | @insert c q hc =>
    rw [h.lock_of_caller hc (by decide)] at hl
    cases hl
  | monitor | wrlock | unlock | stop | free | publish | ring => rfl

/-- After the service has been freed nobody touches it. -/
theorem Inv.freed_step [DecidableEq C] (h : s.Inv cfg) (hs : Step cfg s s') (hf : s.freed = true) :
    s'.qps = s.qps ∧ s'.serviceLock = s.serviceLock ∧ s'.running = s.running ∧
      s'.thread = .ended ∧ s'.freed = true := by
  have ht := h.freed hf
  have hr := h.ended ht
  have hidle := h.stopped hr
  cases hs with
  | thread hn => rw [Service.next, ht] at hn; cases hn
  | monitor c q hc hrun => rw [hr] at hrun; cases hrun
  | wrlock c hc | insert c hc | unlock c hc => rw [hidle c] at hc; cases hc
  | stop => exact ⟨rfl, rfl, hr.symm, ht, hf⟩
  | free => exact ⟨rfl, rfl, rfl, ht, rfl⟩
  | publish | ring => exact ⟨rfl, rfl, rfl, ht, hf⟩

/-- **The thread and the callers exclude each other.** In every reachable state: while the thread is
in its loop no caller inserts and no step changes the set; at most one caller inserts; the thread
makes calls for QPs of the set that have a CPU proxy, and to all others the host has written
nothing. Once the service has been freed, nobody touches it in any run from there. -/
theorem exclusive [DecidableEq C] (h : Reachable Init (Step cfg) s) :
    (s.thread.Holds → (∀ c q stage, s.caller c = some (q, stage) → stage = .wrlock) ∧
      ∀ s', Step cfg s s' → s'.qps = s.qps) ∧
    (∀ c c' q q', s.caller c = some (q, .insert) → s.caller c' = some (q', .insert) → c = c') ∧
    (∀ q c, s.thread.callOn q = some c → q ∈ s.qps ∧ (cfg q).cpuProxy = true) ∧
    (∀ q, q ∉ s.qps ∨ (cfg q).cpuProxy = false → Untouched (cfg q) (s.mem q)) ∧
    (s.freed = true → ∀ s', ReflTransGen (Step cfg) s s' →
      s'.qps = s.qps ∧ s'.serviceLock = s.serviceLock ∧ s'.running = s.running ∧
        s'.thread = .ended) := by
  have hi := reachable_inv h
  refine ⟨fun ht => ⟨fun c q stage hc => ?_, fun s' hs => hi.qps_eq hs ht⟩, ?_, ?_, hi.untouched,
    fun hf s' hrun => ?_⟩
  · by_contra hne
    have hl := hi.lock_of_caller hc hne
    rw [hi.holds.1 ht] at hl
    cases hl
  · intro c c' q q' hc hc'
    have hl := hi.lock_of_caller hc (by decide)
    rw [hi.lock_of_caller hc' (by decide), Option.some.injEq, Holder.caller.injEq] at hl
    exact hl.symm
  · exact fun q c hc => hi.calling q (by rw [hc]; exact Option.some_ne_none c)
  · suffices hall : s'.qps = s.qps ∧ s'.serviceLock = s.serviceLock ∧ s'.running = s.running ∧
        s'.thread = .ended ∧ s'.freed = true from
      ⟨hall.1, hall.2.1, hall.2.2.1, hall.2.2.2.1⟩
    induction hrun with
    | refl => exact ⟨rfl, rfl, rfl, hi.freed hf, hf⟩
    | tail hr hs ih =>
      obtain ⟨hq, hl, hrun, -, hfreed⟩ := ih
      obtain ⟨hq', hl', hrun', ht', hf'⟩ := (reachable_inv (h.run hr)).freed_step hs hfreed
      exact ⟨hq'.trans hq, hl'.trans hl, hrun'.trans hrun, ht', hf'⟩

/-- The service of one QP in CPU-proxy mode, just created. -/
def fresh : Service Unit Unit where
  running := true
  serviceLock := none
  qps := ∅
  thread := .test
  caller := fun _ => none
  mem := fun _ => ⟨0, 0, 0, 0, []⟩
  freed := false

/-- A QP of number one. -/
def proxied : Unit → ProxyQp := fun _ => ⟨true, .validDbr, .cpuProxy, 0x10000#32⟩

theorem init_fresh : Init fresh :=
  ⟨rfl, rfl, rfl, rfl, fun _ => rfl, fun _ => rfl, fun _ => rfl, fun _ => rfl, fun _ => rfl, rfl⟩

/-- The QP is monitored, and the thread is about to visit it. -/
theorem visiting_fresh : ∃ s : Service Unit Unit,
    Reachable Init (Step proxied) s ∧ s.running = true ∧ s.qps = {()} ∧
    s.thread = .visit false [()] ∧ s.mem = fresh.mem ∧ ∀ c, s.caller c = none := by
  have h₀ : Reachable Init (Step proxied) fresh := .start init_fresh
  have h₁ := (h₀.next (.monitor () () rfl rfl)).next (.wrlock (q := ()) () rfl rfl)
  have h₂ := (h₁.next (.insert (q := ()) () rfl)).next
    (.unlock (q := ()) () rfl)
  have h₃ := (h₂.next (.thread rfl)).next (.thread rfl)
  exact ⟨_, h₃, rfl, rfl, congrArg (ServicePc.visit false) (Finset.sort_singleton _ ()), rfl,
    fun _ => rfl⟩

/-- One index is published, and the thread makes the progress call. -/
theorem visited_fresh : ∃ s : Service Unit Unit, Reachable Init (Step proxied) s ∧
    (s.mem ()).trace.map ProxyWrite.index = [1, 1, 1] ∧
    s.thread = .progress false () (.storing 1 []) [] := by
  obtain ⟨s, hs, hr, hq, ht, hm, -⟩ := visiting_fresh
  obtain ⟨running, lock, qps, thread, caller, mem, freed⟩ := s
  obtain rfl : thread = .visit false [()] := ht
  obtain rfl : mem = fresh.mem := hm
  have h₁ := (hs.next (.publish () 1 (Nat.lt_add_left _ (by decide)))).next (.thread rfl)
  have h₂ := (((h₁.next (.thread rfl)).next (.thread rfl)).next (.thread rfl)).next (.thread rfl)
  exact ⟨_, h₂.next (.thread rfl), rfl, rfl⟩

/-- The three writes of the call are those of direct submission. -/
theorem visited_refines : ∃ s : Service Unit Unit, (s.mem ()).trace.length = 3 ∧
    ∀ w ∈ (s.mem ()).trace, w.Direct 0x10000#32 ∧ w.index ≤ (s.mem ()).cpuDb := by
  obtain ⟨s, hs, htrace, -⟩ := visited_fresh
  have hlen := congrArg List.length htrace
  rw [List.length_map] at hlen
  exact ⟨s, hlen, (refines_submission (q := ()) hs rfl).2.1⟩

/-- The thread is in its loop, so no step changes the set. -/
theorem visiting_exclusive : ∃ s : Service Unit Unit,
    s.thread.Holds ∧ ∀ s', Step proxied s s' → s'.qps = s.qps := by
  obtain ⟨s, hs, -, -, ht, -⟩ := visiting_fresh
  have hholds : s.thread.Holds := by rw [ht]; trivial
  exact ⟨s, hholds, ((exclusive hs).1 hholds).2⟩

end Service

end Gpunetio
