import Gpunetio.Cq.Session
import Gpunetio.Door.Submit
import Gpunetio.Lib.Ledger
import Gpunetio.Wqe

/-!
# One queue pair

Any number of threads post on one QP and wait for completions, in a shared mode and with the
availability check on, while the NIC executes what the doorbell announces. A thread that posts
reserves slots by fetch-and-add on `sq_rsvd_index`, waits until the slots are free, stores its WQEs
segment by segment, passes the baton `sq_ready_index` and submits. One step is one access to shared
memory.

* `QpConfig`, `Rsv`: a QP's constants and a reservation, with what holds of them as fields;
* `Phase`: where a thread stands within its operation;
* `Qp`: the shared memory of a QP, its threads, and the history of reservations and stores;
* `Qp.Exec`, `Qp.Nic`, **`Qp.Step`**.
-/

namespace Gpunetio

open Transition

/-- `doca_gpu_dev_verbs_qp_ready_mode`: how a thread waits for its turn to pass the baton. -/
inductive ReadyMode
  | atomicCas
  | ldSt
deriving DecidableEq, Repr

/-- The constants of a QP and of its CQ; `qpnDs` is the constant half of its doorbell word. -/
structure QpConfig where
  arch : Arch
  readyMode : ReadyMode
  sqWqeNum : ℕ
  cqeNum : ℕ
  qpnDs : BitVec 32
  pow : ∃ a ≤ 15, sqWqeNum = 2 ^ a
  geom : CqGeom cqeNum
  le : sqWqeNum ≤ cqeNum

/-- The slot `doca_gpu_dev_verbs_get_wqe_ptr` finds; the index is a 16-bit parameter. -/
def QpConfig.slot (cfg : QpConfig) (wqeIdx : ℕ) : ℕ := wqeIdx % 2 ^ 16 &&& (cfg.sqWqeNum - 1)

theorem QpConfig.slot_eq (cfg : QpConfig) (wqeIdx : ℕ) :
    cfg.slot wqeIdx = wqeIdx % cfg.sqWqeNum := by
  obtain ⟨a, ha, hpow⟩ := cfg.pow
  rw [slot, hpow, slot_eq_mod, Nat.mod_mod_of_dvd _ (Nat.pow_dvd_pow 2 (by omega))]

/-- A reservation of an agent: its first index and the WQEs it is for, at most `sqWqeNum`. -/
structure Rsv (A : Type*) (cfg : QpConfig) where
  agent : A
  base : ℕ
  wqes : List Wqe
  pos : 0 < wqes.length
  le : wqes.length ≤ cfg.sqWqeNum

namespace Rsv

variable {A : Type*} {cfg : QpConfig}

/-- The producer index to submit, one past the last index reserved. -/
def stop (r : Rsv A cfg) : ℕ := r.base + r.wqes.length

/-- `wqe_idx + count - 1`. -/
def last (r : Rsv A cfg) : ℕ := r.base + r.wqes.length - 1

/-- The stores of its segments in order: WQE index, number of the segment, segment. -/
def stores (r : Rsv A cfg) : List (ℕ × ℕ × Seg) :=
  (r.wqes.zipIdx r.base).flatMap fun w => w.1.zipIdx.map fun g => (w.2, g.2, g.1)

theorem lt_stop (r : Rsv A cfg) : r.base < r.stop := Nat.lt_add_of_pos_right r.pos

theorem last_add_one (r : Rsv A cfg) : r.last + 1 = r.stop :=
  Nat.sub_add_cancel (by have := r.pos; omega)

theorem stop_le (r : Rsv A cfg) : r.stop ≤ r.base + cfg.sqWqeNum := Nat.add_le_add_left r.le _

theorem mem_stores {r : Rsv A cfg} {i j : ℕ} {seg : Seg} :
    (i, j, seg) ∈ r.stores ↔
      r.base ≤ i ∧ ∃ w, r.wqes[i - r.base]? = some w ∧ w[j]? = some seg := by
  simp only [stores, List.mem_flatMap, List.mem_map, Prod.exists, Prod.mk.injEq,
    List.mk_mem_zipIdx_iff_le_and_getElem?_sub, Nat.zero_le, Nat.sub_zero, true_and]
  constructor
  · rintro ⟨w, i', ⟨hle, hw⟩, seg', j', hseg, rfl, rfl, rfl⟩
    exact ⟨hle, w, hw, hseg⟩
  · rintro ⟨hle, w, hw, hseg⟩
    exact ⟨w, i, ⟨hle, hw⟩, seg, j, hseg, rfl, rfl, rfl⟩

theorem stores_inj {r : Rsv A cfg} {i j : ℕ} {g g' : Seg} (h : (i, j, g) ∈ r.stores)
    (h' : (i, j, g') ∈ r.stores) : g = g' := by
  obtain ⟨-, w, hw, hg⟩ := mem_stores.1 h
  obtain ⟨-, w', hw', hg'⟩ := mem_stores.1 h'
  rw [hw, Option.some.injEq] at hw'
  rw [← hw', hg, Option.some.injEq] at hg'
  exact hg'

/-- A store goes to an index reserved. -/
theorem lt_of_mem_stores {r : Rsv A cfg} {x : ℕ × ℕ × Seg} (h : x ∈ r.stores) :
    r.base ≤ x.1 ∧ x.1 < r.stop := by
  obtain ⟨i, j, seg⟩ := x
  obtain ⟨hle, w, hw, -⟩ := mem_stores.1 h
  have := (List.getElem?_eq_some_iff.1 hw).1
  exact ⟨hle, by simp only [stop]; omega⟩

end Rsv

/-- Where a thread stands: it polls, for a slot or (`none`) for a ticket; it is about to store the
segments left of its WQEs; it waits for the baton, or has seen its turn and is about to store the
new `sq_ready_index`; it spins on `sq_lock`; or it holds the lock and is in front of a stage. -/
inductive Phase (A : Type*) (cfg : QpConfig)
  | poll (rsv : Option (Rsv A cfg)) (ph : PollPhase)
  | write (rsv : Rsv A cfg) (todo : List (ℕ × ℕ × Seg))
  | mark (rsv : Rsv A cfg)
  | markStore (rsv : Rsv A cfg)
  | lock (rsv : Rsv A cfg)
  | submit (rsv : Rsv A cfg) (st : Stage)

/-- A QP with its threads. `wq slot j` is segment `j` in a slot with the index of the WQE it
belongs to; `rsvs` are the reservations so far, newest first, and `written i j` is who last stored
segment `j` of WQE `i`, and what. -/
structure Qp (A : Type*) (cfg : QpConfig) where
  sqRsvdIndex : ℕ
  sqReadyIndex : ℕ
  door : Door
  cq : CqState
  wq : ℕ → ℕ → Option (ℕ × Seg)
  rsvs : List (Rsv A cfg)
  written : ℕ → ℕ → Option (A × Seg)
  phase : A → Option (Phase A cfg)

namespace Qp

variable {A : Type*} {cfg : QpConfig}

/-- A QP and its CQ as created, without a call begun. -/
structure Init (env : HostEnv) (s : Qp A cfg) : Prop where
  sqRsvdIndex : s.sqRsvdIndex = 0
  sqReadyIndex : s.sqReadyIndex = 0
  door : s.door.Fresh
  ring : createCq env cfg.cqeNum = some s.cq.ring
  cqeCi : s.cq.cqeCi = 0
  produced : s.cq.produced = 0
  wq : ∀ i j, s.wq i j = none
  rsvs : s.rsvs = []
  written : ∀ i j, s.written i j = none
  phase : ∀ a, s.phase a = none

/-- After the fetch-and-add: `doca_gpu_dev_verbs_wait_until_slot_available`. -/
def reserved (r : Rsv A cfg) : Phase A cfg :=
  if cfg.sqWqeNum ≤ r.last then .poll (some r) (.ci (r.last - cfg.sqWqeNum)) else .write r r.stores

/-- After an access of `doca_gpu_dev_verbs_poll_cq_at`. -/
def polled (rsv : Option (Rsv A cfg)) : PollOut → Option (Phase A cfg)
  | .goto ph => some (.poll rsv ph)
  | .ret _ => rsv.map fun r => .write r r.stores

/-- The NIC has been told of WQE `i`. -/
def Rung (s : Qp A cfg) (i : ℕ) : Prop := ∃ p, (p ∈ s.door.doorbells ∨ p ∈ s.door.records) ∧ i < p

variable [DecidableEq A]

/-- The thread goes on to `ph`, or returns. -/
def goto (a : A) (ph : Option (Phase A cfg)) (s : Qp A cfg) : Qp A cfg :=
  { s with phase := Function.update s.phase a ph }

/-- A store of one segment. -/
def store (a : A) (x : ℕ × ℕ × Seg) (s : Qp A cfg) : Qp A cfg :=
  { s with
    wq := Function.update s.wq (cfg.slot x.1)
      (Function.update (s.wq (cfg.slot x.1)) x.2.1 (some (x.1, x.2.2)))
    written := Function.update s.written x.1
      (Function.update (s.written x.1) x.2.1 (some (a, x.2.2))) }

/-- One access of thread `a` within its operation. -/
inductive Exec (a : A) : Qp A cfg → Qp A cfg → Prop
  | poll {s o ph} (h : s.phase a = some (.poll o ph)) :
      Exec a s (goto a (polled o (PollFn.at.next cfg.arch ⟨cfg.cqeNum, 0⟩ s.cq ph))
        { s with cq := ph.effect s.cq })
  | store {s r x todo} (h : s.phase a = some (.write r (x :: todo))) :
      Exec a s ((s.store a x).goto a (some (.write r todo)))
  | stored {s r} (h : s.phase a = some (.write r [])) : Exec a s (s.goto a (some (.mark r)))
  | markCas {s r} (h : s.phase a = some (.mark r)) (hm : cfg.readyMode = .atomicCas)
      (hr : s.sqReadyIndex = r.base) :
      Exec a s (goto a (some (.lock r)) { s with sqReadyIndex := r.stop })
  | markLoad {s r} (h : s.phase a = some (.mark r)) (hm : cfg.readyMode = .ldSt)
      (hr : s.sqReadyIndex = r.base) : Exec a s (s.goto a (some (.markStore r)))
  | markStore {s r} (h : s.phase a = some (.markStore r)) :
      Exec a s (goto a (some (.lock r)) { s with sqReadyIndex := r.stop })
  | lock {s r} (h : s.phase a = some (.lock r)) (hl : s.door.sqLock = false) :
      Exec a s (goto a (some (.submit r .atomicMax))
        { s with door := { s.door with sqLock := true } })
  | stage {s r st} (h : s.phase a = some (.submit r st)) :
      Exec a s (goto a ((st.next (s.door.won (.db r.stop))).map (.submit r))
        { s with door := s.door.exec cfg.qpnDs (.db r.stop) st })

omit [DecidableEq A] in
/-- The NIC completes, with success, the next WQE it has been told of. -/
inductive Nic : Qp A cfg → Qp A cfg → Prop
  | complete {s} (e : Cqe64) (hr : s.Rung s.cq.produced) (he : IsCqe cfg.cqeNum s.cq.produced e)
      (hok : opcode e.opOwn ≠ cqeReqErr) :
      Nic s { s with cq := s.cq.write cfg.cqeNum e }

/-- An idle thread reserves slots for `r`. -/
def post (r : Rsv A cfg) (s : Qp A cfg) : Qp A cfg :=
  goto r.agent (some (reserved r)) { s with sqRsvdIndex := r.stop, rsvs := r :: s.rsvs }

/-- An idle thread begins to wait for `ticket`. -/
def wait (a : A) (ticket : ℕ) (s : Qp A cfg) : Qp A cfg := s.goto a (some (.poll none (.ci ticket)))

/-- **One step**: an idle thread posts any WQEs or waits for any index that has been reserved, a
thread goes on with its operation, or the NIC completes a WQE. -/
inductive Step : Qp A cfg → Qp A cfg → Prop
  | post {s} (r : Rsv A cfg) (h : s.phase r.agent = none) (hb : r.base = s.sqRsvdIndex) :
      Step s (s.post r)
  | wait {s} (a : A) (ticket : ℕ) (h : s.phase a = none) (ht : ticket < s.sqRsvdIndex) :
      Step s (s.wait a ticket)
  | exec {s s'} (a : A) (h : Exec a s s') : Step s s'
  | nic {s s'} (h : Nic s s') : Step s s'

end Qp

end Gpunetio
