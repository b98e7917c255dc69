import Gpunetio.Proxy.Assisted
import Mathlib.Data.Finset.Sort

/-!
# The service thread

`doca_gpu_verbs_service`: one thread makes progress calls for all the QPs it monitors. It goes over
the set again as long as some call has reported progress, holding the lock, and lets go of it
between. Callers insert QPs under the same lock, the device publishes indices, and one caller stops
the thread, joins it and frees the service.

* `ProxyQp`, `ProxyQp.served`: a QP as a progress call finds it, and how far the host has got;
* `ServicePc`, `MonitorStage`, `Service`: where the thread and the callers are;
* `Service.next`: the next step of `priv_service_mainloop`, `none` where it is blocked or has ended;
* **`Service.Step`**.
-/

namespace Gpunetio

/-- The fields of `doca_gpu_verbs_qp` by which a progress call decides what to do. -/
structure ProxyQp where
  cpuProxy : Bool
  sendDbrModeExt : DbrModeExt
  nicHandler : NicHandler
  sqNumShift8Be : BitVec 32
deriving DecidableEq, Repr

namespace ProxyQp

/-- The device rings the doorbell itself, and the host writes the record. -/
def Assisted (qp : ProxyQp) : Prop :=
  qp.sendDbrModeExt = .noDbrSwEmulated ∧ qp.nicHandler ≠ .cpuProxy

instance (qp : ProxyQp) : Decidable qp.Assisted := by unfold Assisted; infer_instance

/-- The stores of a progress call. -/
def ops (qp : ProxyQp) : List ProxyOp := progressOps qp.sendDbrModeExt qp.nicHandler

/-- How far the host has told the NIC: by doorbell, or by record where the device rings, too. -/
def served (qp : ProxyQp) (m : ProxyMem) : ℕ :=
  if qp.Assisted then m.records.head?.getD 0 else m.rung

/-- What a call reports in `out_progressed` when it returns from `c`. -/
def reports (qp : ProxyQp) : ProxyCall → Bool
  | .loaded _ => false
  | .storing _ _ => ¬ qp.Assisted

end ProxyQp

/-- Where `priv_service_mainloop` is: before the test of `running`; before the lock; at a pass, with
`progressed` and the QPs left; in the progress call of a QP; at the end of the loop; returned. -/
inductive ServicePc (Q : Type*)
  | test
  | rdlock
  | visit (progressed : Bool) (todo : List Q)
  | progress (progressed : Bool) (qp : Q) (call : ProxyCall) (todo : List Q)
  | unlock
  | ended
deriving DecidableEq, Repr

/-- Where `doca_gpu_verbs_service_monitor_qp` is. -/
inductive MonitorStage
  | wrlock
  | insert
  | unlock
deriving DecidableEq, Repr

/-- Who holds `service_lock`. -/
inductive Holder (C : Type*)
  | service
  | caller (c : C)
deriving DecidableEq, Repr

/-- The service, the QPs of the process and the callers. `freed` is set when the service has been
freed. -/
structure Service (Q C : Type*) where
  running : Bool
  serviceLock : Option (Holder C)
  qps : Finset Q
  thread : ServicePc Q
  caller : C → Option (Q × MonitorStage)
  mem : Q → ProxyMem
  freed : Bool

namespace Service

variable {Q C : Type*} [LinearOrder Q]

/-- The service as `doca_gpu_verbs_create_service` leaves it, and QPs as exported. -/
structure Init (s : Service Q C) : Prop where
  running : s.running = true
  serviceLock : s.serviceLock = none
  qps : s.qps = ∅
  thread : s.thread = .test
  caller : ∀ c, s.caller c = none
  cpuDb : ∀ q, (s.mem q).cpuDb = 0
  last : ∀ q, (s.mem q).sqWqePiLast = 0
  sqDbrec : ∀ q, (s.mem q).sqDbrec = 0
  trace : ∀ q, (s.mem q).trace = []
  freed : s.freed = false

/-- The progress call of `q` takes its next step; its first one is the check of `cpu_proxy` and the
load. A `std::set` is visited in its order. -/
def advance (cfg : Q → ProxyQp) (s : Service Q C) (progressed : Bool) (q : Q)
    (call : Option ProxyCall) (todo : List Q) : Service Q C :=
  let r := (s.mem q).proxyStep (cfg q).sqNumShift8Be (cfg q).ops call
  { s with
    mem := Function.update s.mem q r.1
    thread := match r.2 with
      | some c => .progress progressed q c todo
      | none => .visit (progressed || (call.map (cfg q).reports).getD false) todo }

/-- **The next step of `priv_service_mainloop`.** -/
def next (cfg : Q → ProxyQp) (s : Service Q C) : Option (Service Q C) :=
  match s.thread with
  | .test => some { s with thread := if s.running then .rdlock else .ended }
  | .rdlock =>
    match s.serviceLock with
    | none => some { s with serviceLock := some .service, thread := .visit false s.qps.sort }
    | some _ => none
  | .visit progressed (q :: todo) =>
    if (cfg q).cpuProxy then some (s.advance cfg progressed q none todo)
    else some { s with thread := .visit progressed todo }
  | .visit true [] => some { s with thread := .visit false s.qps.sort }
  | .visit false [] => some { s with thread := .unlock }
  | .progress progressed q call todo => some (s.advance cfg progressed q (some call) todo)
  | .unlock => some { s with serviceLock := none, thread := .test }
  | .ended => none

/-- **One step**: of the thread; of a caller, who monitors a QP while the service is not being
destroyed; of the one who destroys it, when no other call is under way; of the device, which
publishes an index, fewer than `2 ^ 32` ahead of what the host has told, and rings itself where the
host writes the record. -/
inductive Step [DecidableEq C] (cfg : Q → ProxyQp) : Service Q C → Service Q C → Prop
  | thread {s s'} (h : s.next cfg = some s') : Step cfg s s'
  | monitor {s} (c : C) (q : Q) (h : s.caller c = none) (hr : s.running = true) :
      Step cfg s { s with caller := Function.update s.caller c (some (q, .wrlock)) }
  | wrlock {s} (c : C) {q} (h : s.caller c = some (q, .wrlock)) (hl : s.serviceLock = none) :
      Step cfg s { s with
        caller := Function.update s.caller c (some (q, .insert))
        serviceLock := some (.caller c) }
  | insert {s} (c : C) {q} (h : s.caller c = some (q, .insert)) :
      Step cfg s { s with
        caller := Function.update s.caller c (some (q, .unlock))
        qps := insert q s.qps }
  | unlock {s} (c : C) {q} (h : s.caller c = some (q, .unlock)) :
      Step cfg s { s with
        caller := Function.update s.caller c none
        serviceLock := none }
  | stop {s} (h : ∀ c, s.caller c = none) : Step cfg s { s with running := false }
  | free {s} (hr : s.running = false) (h : s.thread = .ended) : Step cfg s { s with freed := true }
  | publish {s} (q : Q) (p : ℕ) (hp : p < (cfg q).served (s.mem q) + 2 ^ 32) :
      Step cfg s { s with
        mem := Function.update s.mem q { s.mem q with cpuDb := max (s.mem q).cpuDb p } }
  | ring {s} (q : Q) (device : BitVec 32) (p : ℕ) (ha : (cfg q).Assisted)
      (hp : p ≤ (s.mem q).cpuDb) :
      Step cfg s { s with mem := Function.update s.mem q (AssistSys.ring device p (s.mem q)) }

end Service

end Gpunetio
