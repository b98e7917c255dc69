import Gpunetio.Cq.Init
import Gpunetio.Lib.Transition

/-!
# Resetting a queue pair

`doca_gpu_verbs_reset_tracking_and_memory` restarts the software indices of a QP and refills its
rings between two sessions. The NIC keeps counting CQEs where it is, so the poll functions need
`cqe_rsvd`, the CQEs of all earlier sessions, to find the slot and the owner bit of an index.

* `DevQp`, `GverbsQp`: the tracked fields of the device QP, and the host's view of it;
* `resetTrackingAndMemory`: the function, with a CUDA call that may fail at each point;
* `Posting`, `Posting.Step`: sessions that reserve WQEs, one CQE for each of them, and resets;
* `Tracks`: `cqe_rsvd` is the number of CQEs produced before the session;
* **`reset_tracks_iff`**: which resets keep it.
-/

namespace Gpunetio

open Transition

/-- The fields of `doca_gpu_dev_verbs_qp` that device code or a reset writes. -/
structure DevQp where
  sqRsvdIndex : ℕ
  sqReadyIndex : ℕ
  sqWqePi : ℕ
  sqLock : ℕ
  cqeCi : ℕ
  cqeRsvd : ℕ
deriving DecidableEq, Repr

/-- `doca_gpu_verbs_qp`: the copies of the QP on the device and the host, and the memory behind it.
-/
structure GverbsQp where
  qpGpu : DevQp
  qpCpu : DevQp
  sqWqePiLast : ℕ
  cpuProxy : Bool
  cpuDb : ℕ
  sqDbrec : BitVec 32
  cqeNum : ℕ
  cqRing : ℕ → Cqe64
  sqWqeNum : ℕ
  sqRing : ℕ → Fin 8 → BitVec 64

/-- `doca_error_t`, as far as a reset returns it. -/
inductive DocaError
  | success
  | driver
deriving DecidableEq, Repr

/-- The CUDA calls of a reset, in order. -/
inductive ResetCall
  | copyToHost
  | setDbrec
  | setCqRing
  | setSqRing
  | copyToDevice
  | synchronize
deriving DecidableEq, Repr

namespace GverbsQp

/-- The indices restart and `cqe_rsvd` is set from the device copy just read. -/
def resetIndices (q : GverbsQp) : GverbsQp :=
  { q with
    qpCpu :=
      { sqWqePi := 0, sqRsvdIndex := 0, sqReadyIndex := 0, sqLock := 0, cqeCi := 0
        cqeRsvd := q.qpGpu.sqRsvdIndex }
    sqWqePiLast := 0 }

/-- The doorbell record, and the proxy's doorbell word when there is a proxy. -/
def resetDbrec (q : GverbsQp) : GverbsQp :=
  if q.cpuProxy then { q with sqDbrec := 0, cpuDb := 0 } else { q with sqDbrec := 0 }

/-- The CQ ring. -/
def resetCqRing (q : GverbsQp) : GverbsQp := { q with cqRing := resetRing q.cqeNum q.cqRing }

/-- The send queue. -/
def resetSqRing (q : GverbsQp) : GverbsQp :=
  { q with sqRing := fun i => if i < q.sqWqeNum then fun _ => 0 else q.sqRing i }

/-- **`doca_gpu_verbs_reset_tracking_and_memory`** of a QP that is not null, when the call `fail`
fails. A call that fails changes nothing. With a CPU proxy the doorbell record is in host memory
and needs no CUDA call. -/
def resetTrackingAndMemory (fail : Option ResetCall) (q : GverbsQp) : DocaError × GverbsQp :=
  if fail = some .copyToHost then (.driver, q)
  else
    let q := q.resetIndices
    if fail = some .setDbrec ∧ q.cpuProxy = false then (.driver, q)
    else
      let q := q.resetDbrec
      if fail = some .setCqRing then (.driver, q)
      else
        let q := q.resetCqRing
        if fail = some .setSqRing then (.driver, q)
        else
          let q := q.resetSqRing
          if fail = some .copyToDevice then (.driver, q)
          else
            let q := { q with qpGpu := q.qpCpu }
            if fail = some .synchronize then (.driver, q) else (.success, q)

/-- The calls after whose failure the device copy is the old one. -/
def Stale (q : GverbsQp) (fail : Option ResetCall) : Prop :=
  fail = some .copyToHost ∨ (fail = some .setDbrec ∧ q.cpuProxy = false) ∨
    fail = some .setCqRing ∨ fail = some .setSqRing ∨ fail = some .copyToDevice

instance (q : GverbsQp) (fail : Option ResetCall) : Decidable (q.Stale fail) := by
  unfold Stale
  infer_instance

/-- What a reset does to the device copy. -/
theorem reset_qpGpu (fail : Option ResetCall) (q : GverbsQp) :
    (q.resetTrackingAndMemory fail).2.qpGpu =
      if q.Stale fail then q.qpGpu
      else ⟨0, 0, 0, 0, 0, q.qpGpu.sqRsvdIndex⟩ := by
  have hdb : ∀ q : GverbsQp, q.resetDbrec.qpGpu = q.qpGpu ∧ q.resetDbrec.qpCpu = q.qpCpu := by
    intro q
    unfold resetDbrec
    split_ifs <;> exact ⟨rfl, rfl⟩
  unfold resetTrackingAndMemory Stale
  rcases fail with _ | (_ | _ | _ | _ | _ | _) <;>
    simp [hdb, resetIndices, resetCqRing, resetSqRing]
  by_cases hp : q.cpuProxy <;> simp [hp]

end GverbsQp

/-! ## Sessions -/

/-- A QP over its sessions: how many CQEs the NIC has produced since the CQ was created, and how
many of them before the current session began. -/
structure Posting where
  qp : GverbsQp
  produced : ℕ
  before : ℕ

namespace Posting

/-- A QP as `doca_gpu_verbs_export_qp` leaves it. -/
structure Init (s : Posting) : Prop where
  qpGpu : s.qp.qpGpu = ⟨0, 0, 0, 0, 0, 0⟩
  produced : s.produced = 0
  before : s.before = 0

/-- Every WQE reserved in this session has produced its CQE. -/
def Finished (s : Posting) : Prop := s.produced = s.before + s.qp.qpGpu.sqRsvdIndex

/-- A reset. A session ends when the device copy is replaced. -/
def reset (fail : Option ResetCall) (s : Posting) : Posting where
  qp := (s.qp.resetTrackingAndMemory fail).2
  produced := s.produced
  before := if s.qp.Stale fail then s.before else s.produced

/-- **One step**: device code reserves WQEs or moves its other indices, the NIC produces the CQE of
a reserved WQE, or the QP is reset between two phases. `guard` restricts the resets taken. -/
inductive Step (guard : Posting → Option ResetCall → Prop) : Posting → Posting → Prop
  | reserve {s} (count : ℕ) :
      Step guard s { s with
        qp := { s.qp with
          qpGpu := { s.qp.qpGpu with sqRsvdIndex := s.qp.qpGpu.sqRsvdIndex + count } } }
  | post {s} (g : DevQp) (hr : g.sqRsvdIndex = s.qp.qpGpu.sqRsvdIndex)
      (hc : g.cqeRsvd = s.qp.qpGpu.cqeRsvd) :
      Step guard s { s with qp := { s.qp with qpGpu := g } }
  | produce {s} (e : Cqe64) (h : s.produced < s.before + s.qp.qpGpu.sqRsvdIndex) :
      Step guard s { s with
        qp := { s.qp with
          cqRing := Function.update s.qp.cqRing (s.produced % s.qp.cqeNum) e }
        produced := s.produced + 1 }
  | reset {s} (fail : Option ResetCall) (hg : guard s fail) (h : s.Finished) :
      Step guard s (s.reset fail)

/-- `cqe_rsvd` counts the CQEs of all earlier sessions. -/
def Tracks (s : Posting) : Prop := s.qp.qpGpu.cqeRsvd = s.before

theorem reset_tracks {s : Posting} (h : s.Finished) {fail : Option ResetCall}
    (hf : ¬ s.qp.Stale fail) :
    (s.reset fail).Tracks ↔ s.before = 0 := by
  rw [Tracks, reset, GverbsQp.reset_qpGpu, if_neg hf, if_neg hf]
  rw [Finished] at h
  show s.qp.qpGpu.sqRsvdIndex = s.produced ↔ s.before = 0
  omega

theorem reset_tracks_of_stale {s : Posting} {fail : Option ResetCall} (hf : s.qp.Stale fail) :
    (s.reset fail).Tracks ↔ s.Tracks := by
  rw [Tracks, reset, GverbsQp.reset_qpGpu, if_pos hf, if_pos hf, Tracks]

theorem Tracks.step {s s' : Posting} (h : s.Tracks)
    (hs : Step (fun s fail => s.qp.Stale fail ∨ s.before = 0) s s') : s'.Tracks := by
  cases hs with
  | reserve count => exact h
  | post g hr hc => exact hc.trans h
  | produce e he => exact h
  | reset fail hg hfin =>
    by_cases hf : s.qp.Stale fail
    · exact (reset_tracks_of_stale hf).mpr h
    · exact (reset_tracks hfin hf).mpr (hg.resolve_left hf)

/-- **A reset assigns `cqe_rsvd` and does not add to it.** In every run whose resets each end the
first session that produced anything, `cqe_rsvd` always counts the CQEs of the earlier sessions, and
the poll functions use the NIC's running index of every WQE; and a reset that replaces the device
copy in any run leaves it right only if nothing was produced before the session it ends. -/
theorem reset_tracks_iff (s : Posting) :
    (Reachable Init (Step fun s fail => s.qp.Stale fail ∨ s.before = 0) s →
      s.Tracks ∧ ∀ k, consIndexInCq ⟨s.qp.cqeNum, s.qp.qpGpu.cqeRsvd⟩ k = s.before + k) ∧
    (Reachable Init (Step fun _ _ => True) s → s.Finished → ∀ fail, ¬ s.qp.Stale fail →
      ((s.qp.resetTrackingAndMemory fail).2.qpGpu.cqeRsvd = s.produced ↔ s.before = 0)) := by
  refine ⟨fun h => ?_, fun _ hfin fail hf => ?_⟩
  · have ht : s.Tracks := by
      refine h.invariant (fun s hi => ?_) fun _ _ => Tracks.step
      rw [Tracks, hi.qpGpu, hi.before]
    exact ⟨ht, fun k => by rw [consIndexInCq, ht, Nat.add_comm]⟩
  · have hiff := reset_tracks hfin hf
    rwa [Tracks, reset, if_neg hf] at hiff

/-- A fresh QP on a ring of four. -/
def fresh : Posting where
  qp :=
    { qpGpu := ⟨0, 0, 0, 0, 0, 0⟩, qpCpu := ⟨0, 0, 0, 0, 0, 0⟩, sqWqePiLast := 0, cpuProxy := false
      cpuDb := 0, sqDbrec := 0, cqeNum := 4, cqRing := mlx5InitCqes 4 fun _ => zeroCqe
      sqWqeNum := 4, sqRing := fun _ _ => 0 }
  produced := 0
  before := 0

theorem init_fresh : Init fresh := ⟨rfl, rfl, rfl⟩

theorem first_reset_tracks :
    ∃ s, Reachable Init (Step fun _ _ => True) s ∧ s.produced = 1 ∧
      (s.qp.resetTrackingAndMemory none).2.qpGpu.cqeRsvd = 1 := by
  have h₀ : Reachable Init (Step fun _ _ => True) fresh := .start init_fresh
  have h₁ := (h₀.next (.reserve 1)).next (.produce zeroCqe (by decide))
  exact ⟨_, h₁, rfl, ((reset_tracks_iff _).2 h₁ rfl none (by decide)).mpr rfl⟩

/-- Two sessions of one WQE each: the second reset records one CQE, and the NIC has produced two. -/
theorem second_reset_forgets :
    ∃ s, Reachable Init (Step fun _ _ => True) s ∧ s.Finished ∧ s.produced = 2 ∧
      (s.qp.resetTrackingAndMemory none).1 = .success ∧
      (s.qp.resetTrackingAndMemory none).2.qpGpu.cqeRsvd = 1 := by
  have h₀ : Reachable Init (Step fun _ _ => True) fresh := .start init_fresh
  have h₁ := (h₀.next (.reserve 1)).next (.produce zeroCqe (by decide))
  have h₂ := h₁.next (.reset none trivial rfl)
  have h₃ := (h₂.next (.reserve 1)).next (.produce zeroCqe (by decide))
  exact ⟨_, h₃, rfl, rfl, rfl, rfl⟩

end Posting

end Gpunetio
