import Gpunetio.Counter
import Gpunetio.Door.Multi
import Gpunetio.Qp.Progress

/-!
# A queue pair and its companion

Any number of threads run counter operations on one pair of QPs. An operation reserves, writes and
marks its WQEs on the main QP, does the same with a WAIT and a fetch-and-add on the companion QP,
and then submits both with `submit_db_multi_qps`: it takes both locks in turn before it releases
the first. The NIC executes each QP in order and holds a WAIT until the main CQ has produced the
CQE named.

* `PairConfig`, `CounterCall`: the two QPs, an operation with its arguments;
* `turn`: on which QP a thread is, from where it stands on the two; `turn_running`: while it
  submits, it follows the loops of `submit_db_multi_qps`;
* `Pair`, **`Pair.Step`**.
-/

namespace Gpunetio

open Transition

/-- The two QPs. The companion has room for a WAIT and a fetch-and-add. -/
structure PairConfig where
  main : QpConfig
  comp : QpConfig
  mainQp : QpConst
  compQp : QpConst
  two_le : 2 ≤ comp.sqWqeNum

/-- An operation that fits the main QP, so that its count fits the 32-bit parameter, and its remote
counter. -/
structure CounterCall (cfg : PairConfig) where
  op : CounterOp
  args : CounterArgs
  fits : op.mainCount ≤ cfg.main.sqWqeNum

theorem CounterOp.mainCount_pos (op : CounterOp) : 0 < op.mainCount := by
  have := op.lastWqeIdx_add_one 0
  omega

variable {A : Type*} {cfg : PairConfig}

namespace CounterCall

/-- The reservation on the main QP. -/
def mainRsv (call : CounterCall cfg) (a : A) (base : ℕ) : Rsv A cfg.main where
  agent := a
  base := base
  wqes := call.op.mainWqes cfg.mainQp base
  pos := by rw [CounterOp.length_mainWqes]; exact call.op.mainCount_pos
  le := by rw [CounterOp.length_mainWqes]; exact call.fits

/-- The reservation on the companion QP, once the main QP's from `mainBase` on is marked. -/
def compRsv (call : CounterCall cfg) (a : A) (mainBase base : ℕ) : Rsv A cfg.comp where
  agent := a
  base := base
  wqes := call.op.companionWqes cfg.mainQp cfg.compQp call.args mainBase base
  pos := Nat.two_pos
  le := cfg.two_le

end CounterCall

/-- A stage of the first loop of `submit_db_multi_qps`. -/
def Stage.isFirst : Stage → Bool
  | atomicMax => true
  | ringFirst => true
  | _ => false

@[simp] theorem Stage.isFirst_atomicMax : atomicMax.isFirst = true := rfl

@[simp] theorem Stage.isFirst_ringFirst : ringFirst.isFirst = true := rfl

@[simp] theorem Running.isFirst_second (won : Bool) : (second won).isFirst = false := by
  cases won <;> rfl

/-- What a thread does next: an access on one of the QPs, or the fetch-and-add on the companion. -/
inductive Turn
  | main
  | reserve
  | comp
deriving DecidableEq, Repr

/-- **Control flow of an operation**, from where the thread stands on the two QPs. In front of both
locks it takes the main one first; it goes on to the companion's when its first loop is done with
the main QP, and back when it is done with both. -/
def turn : Option (Phase A cfg.main) → Option (Phase A cfg.comp) → Option Turn
  | none, none => none
  | none, some _ => some .comp
  | some (.lock _), none => some .reserve
  | some (.lock _), some (.lock _) => some .main
  | some (.lock _), some _ => some .comp
  | some (.submit _ st), some (.lock _) => some (if st.isFirst then .main else .comp)
  | some (.submit _ _), some (.submit _ st) => some (if st.isFirst then .comp else .main)
  | some _, _ => some .main

/-- The place of an entry of `submit_db_multi_qps` as a phase on its QP. -/
def entryPhase {c : QpConfig} (r : Rsv A c) : Option (Option Stage) → Option (Phase A c)
  | none => none
  | some none => some (.lock r)
  | some (some st) => some (.submit r st)

/-- **A submission follows the two loops of `submit_db_multi_qps`** with the main QP as its first
and the companion as its second entry. -/
theorem turn_running (rm : Rsv A cfg.main) (rc : Rsv A cfg.comp) {r : Running Bool} (h : r.Ok)
    (hlen : r.entries.length = 2) :
    turn (entryPhase rm (r.stage 0)) (entryPhase rc (r.stage 1)) =
      some (if r.i = 0 then .main else .comp) := by
  have hi : r.i = 0 ∨ r.i = 1 := by
    have := h.lt
    omega
  obtain hi | hi := hi <;> rcases hat : r.at? with _ | (_ | _ | _ | _ | _) <;>
    simp [Running.stage, Running.inFirst, hi, hat, entryPhase, turn]

/-- The two QPs with their threads; `call a` is the operation a thread is in, or was in last, and
`prog a` what it has still to begin. -/
structure Pair (A : Type*) (cfg : PairConfig) where
  main : Qp A cfg.main
  comp : Qp A cfg.comp
  call : A → Option (CounterCall cfg)
  prog : A → List (CounterCall cfg)

namespace Pair

/-- Two QPs as created, and any programs. -/
structure Init (env : HostEnv) (s : Pair A cfg) : Prop where
  main : s.main.Init env
  comp : s.comp.Init env

/-- The turn of a thread. -/
def turn (s : Pair A cfg) (a : A) : Option Turn := Gpunetio.turn (s.main.phase a) (s.comp.phase a)

/-- The segments the NIC reads to tell a WAIT, of the next WQE of the companion QP. -/
def nextWqe (s : Pair A cfg) : Wqe :=
  [0, 1].filterMap fun j =>
    (s.comp.wq (cfg.comp.slot s.comp.cq.produced) j).map Prod.snd

/-- The next WQE of the companion QP is not a WAIT, or the main CQ has produced the CQE it names. -/
def Released (s : Pair A cfg) : Prop :=
  ∀ cqNum idx, waitIndex s.nextWqe = some (cqNum, idx) →
    cqNum = cfg.mainQp.cqNum ∧ ∃ k < s.main.cq.produced, k % 2 ^ 32 = idx

variable [DecidableEq A]

/-- **One step** of a thread, or (`none`) of the NIC. -/
inductive Step : Option A → Pair A cfg → Pair A cfg → Prop
  | begin {s : Pair A cfg} (a : A) {call rest} (ht : s.turn a = none)
      (hp : s.prog a = call :: rest) :
      Step (some a) s
        { main := s.main.post (call.mainRsv a s.main.sqRsvdIndex)
          comp := s.comp
          call := Function.update s.call a (some call)
          prog := Function.update s.prog a rest }
  | reserve {s : Pair A cfg} (a : A) {call rm} (ht : s.turn a = some .reserve)
      (hm : s.main.phase a = some (.lock rm)) (hc : s.call a = some call) :
      Step (some a) s { s with comp := s.comp.post (call.compRsv a rm.base s.comp.sqRsvdIndex) }
  | main {s : Pair A cfg} (a : A) {q} (ht : s.turn a = some .main) (h : Qp.Exec a s.main q) :
      Step (some a) s { s with main := q }
  | comp {s : Pair A cfg} (a : A) {q} (ht : s.turn a = some .comp) (h : Qp.Exec a s.comp q) :
      Step (some a) s { s with comp := q }
  | mainNic {s : Pair A cfg} {q} (h : Qp.Nic s.main q) : Step none s { s with main := q }
  | compNic {s : Pair A cfg} {q} (h : Qp.Nic s.comp q) (hw : s.Released) :
      Step none s { s with comp := q }

omit [DecidableEq A] in
/-- The thread is within an operation or has still some to begin. -/
def Unfinished (s : Pair A cfg) (a : A) : Prop := s.turn a ≠ none ∨ s.prog a ≠ []

omit [DecidableEq A] in
/-- The thread is not in a spin, or in one the memory lets it leave. -/
def Moves (s : Pair A cfg) (a : A) : Prop :=
  match s.turn a with
  | some .main => ∀ ph, s.main.phase a = some ph → ph.Moves s.main
  | some .comp => ∀ ph, s.comp.phase a = some ph → ph.Moves s.comp
  | _ => True

end Pair

end Gpunetio
