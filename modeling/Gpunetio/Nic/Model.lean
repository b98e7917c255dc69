import Gpunetio.Lib.InOrder
import Gpunetio.Qp.Safety

/-!
# The NIC behind a queue pair

A QP with the memory its WQEs work on. The NIC reads a WQE from its slot in the ring as soon as a
doorbell covers it, as far ahead as it likes; it executes what it has read in order, and reports a
WQE after it has executed it. What a WQE does to the memory is a parameter.

* `Wqe.segCount`, `Qp.fetch`: the WQE in a slot, as long as its control segment says;
* `Wqe.Counted`: the control segment counts the segments;
* `NicQp`, **`NicQp.Step`**, `NicQp.executed`;
* `Qp.log`: the WQEs reserved so far, in the order of their indices.
-/

namespace Gpunetio

open Transition

/-- The number of segments that a control segment tells. -/
def Seg.dsCount : Seg → ℕ
  | .ctrl _ qpnDs _ _ => (bswap32 qpnDs).toNat % 2 ^ 8
  | _ => 0

/-- The WQE begins with a control segment, and that counts its segments. -/
def Wqe.Counted (w : Wqe) : Prop := ∃ c, w[0]? = some c ∧ c.dsCount = w.length

/-- The segments of the WQE at index `i`, read from its slot. -/
def Qp.fetch {A : Type*} {cfg : QpConfig} (s : Qp A cfg) (i : ℕ) : Wqe :=
  let ds := ((s.wq (cfg.slot i) 0).map fun c => c.2.dsCount).getD 0
  (List.range ds).filterMap fun j => (s.wq (cfg.slot i) j).map Prod.snd

/-- The WQEs reserved so far, in the order of their indices. -/
def Qp.log {A : Type*} {cfg : QpConfig} (s : Qp A cfg) : List Wqe := s.rsvs.reverse.flatMap Rsv.wqes

/-- A QP with its NIC: the WQEs read so far, those of them not executed yet, oldest first, and the
memory they work on. -/
structure NicQp (A : Type*) (cfg : QpConfig) (M : Type*) where
  qp : Qp A cfg
  fetched : ℕ
  pending : List Wqe
  mem : M

namespace NicQp

variable {A M : Type*} {cfg : QpConfig}

/-- The number of WQEs executed. -/
def executed (s : NicQp A cfg M) : ℕ := s.fetched - s.pending.length

/-- A QP as created, with a memory. -/
structure Init (env : HostEnv) (m₀ : M) (s : NicQp A cfg M) : Prop where
  qp : Qp.Init env s.qp
  fetched : s.fetched = 0
  pending : s.pending = []
  mem : s.mem = m₀

variable [DecidableEq A]

/-- **One step**: those of the threads as before, with WQEs that are counted; the NIC reads the next
WQE it has been told of, executes the oldest one read, or completes one that it has executed. -/
inductive Step (effect : Wqe → M → M) : NicQp A cfg M → NicQp A cfg M → Prop
  | post {s} (r : Rsv A cfg) (h : s.qp.phase r.agent = none) (hb : r.base = s.qp.sqRsvdIndex)
      (hw : ∀ w ∈ r.wqes, w.Counted) : Step effect s { s with qp := s.qp.post r }
  | wait {s} (a : A) (ticket : ℕ) (h : s.qp.phase a = none) (ht : ticket < s.qp.sqRsvdIndex) :
      Step effect s { s with qp := s.qp.wait a ticket }
  | exec {s q} (a : A) (h : Qp.Exec a s.qp q) : Step effect s { s with qp := q }
  | fetch {s} (h : s.qp.Rung s.fetched) :
      Step effect s
        { s with fetched := s.fetched + 1, pending := s.pending ++ [s.qp.fetch s.fetched] }
  | execute {s} (w : Wqe) (rest : List Wqe) (h : s.pending = w :: rest) :
      Step effect s { s with pending := rest, mem := effect w s.mem }
  | complete {s q} (h : Qp.Nic s.qp q) (hx : s.qp.cq.produced < s.executed) :
      Step effect s { s with qp := q }

end NicQp

end Gpunetio
