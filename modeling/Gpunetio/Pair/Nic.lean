import Gpunetio.Lib.Interleave
import Gpunetio.Nic.Memory
import Gpunetio.Nic.Replay
import Gpunetio.Pair.Progress

/-!
# A pair and its NIC

The two QPs of a pair with the memory that their WQEs work on. On each QP the NIC reads ahead and
executes what it has read in order. It holds a WAIT until the CQ named has come to the entry named,
as counters of 32 bits compare.

* `Reached`, `lt_of_reached`: how the counters compare;
* `NicPair`, **`NicPair.Step`**; `onMain`, `onComp`: the view of each QP with its NIC;
* `reachable_onMain`, `reachable_onComp`: each is a QP with a NIC as before;
* `reachable_interleave`: the memory is that of two executors.
-/

namespace Gpunetio

open Transition Relation

/-- A CQ that has produced so many CQEs has come to the entry of this index. -/
def Reached (produced idx : ℕ) : Prop := (produced + 2 ^ 32 - (idx + 1) % 2 ^ 32) % 2 ^ 32 < 2 ^ 31

/-- An entry less than `2 ^ 31` ahead is told from one that has been produced. -/
theorem lt_of_reached {produced k : ℕ} (h : Reached produced (k % 2 ^ 32))
    (hk : k < produced + 2 ^ 31) : k < produced := by
  unfold Reached at h
  omega

/-- A pair with its NIC: for each QP the WQEs read so far and those of them not executed yet, oldest
first; and the memory they work on. -/
structure NicPair (A : Type*) (cfg : PairConfig) (M : Type*) where
  pair : Pair A cfg
  mainFetched : ℕ
  mainPending : List Wqe
  compFetched : ℕ
  compPending : List Wqe
  mem : M

/-- The value put is in the first segments of its WQE. -/
def CounterCall.Small {cfg : PairConfig} (call : CounterCall cfg) : Prop :=
  ∀ raddr value, call.op = .pCounter raddr value → value.length ≤ 12

namespace NicPair

variable {A M : Type*} {cfg : PairConfig}

/-- The main QP and the NIC on it. -/
def onMain (s : NicPair A cfg M) : NicQp A cfg.main Unit :=
  ⟨s.pair.main, s.mainFetched, s.mainPending, ()⟩

/-- The companion QP and the NIC on it. -/
def onComp (s : NicPair A cfg M) : NicQp A cfg.comp Unit :=
  ⟨s.pair.comp, s.compFetched, s.compPending, ()⟩

/-- A WQE is not a WAIT, or the main CQ has come to the entry it names. -/
def Released (s : NicPair A cfg M) (w : Wqe) : Prop :=
  ∀ cqNum idx, waitIndex w = some (cqNum, idx) →
    cqNum = cfg.mainQp.cqNum ∧ Reached s.pair.main.cq.produced idx

/-- Two QPs as created with programs of such calls, and a memory. -/
structure Init (env : HostEnv) (m₀ : M) (calls : Set (CounterCall cfg)) (s : NicPair A cfg M) :
    Prop where
  pair : s.pair.Init env
  call : ∀ a, s.pair.call a = none
  prog : ∀ a, ∀ call ∈ s.pair.prog a, call ∈ calls ∧ call.Small
  mainFetched : s.mainFetched = 0
  mainPending : s.mainPending = []
  compFetched : s.compFetched = 0
  compPending : s.compPending = []
  mem : s.mem = m₀

variable [DecidableEq A]

/-- **One step**: of a thread; or the NIC reads the next WQE of a QP, executes the oldest one read,
or completes one that it has executed. -/
inductive Step (effect : Wqe → M → M) : NicPair A cfg M → NicPair A cfg M → Prop
  | thread {s} (a : A) {p} (h : Pair.Step (some a) s.pair p) : Step effect s { s with pair := p }
  | fetchMain {s} (h : s.pair.main.Rung s.mainFetched) :
      Step effect s
        { s with
          mainFetched := s.mainFetched + 1
          mainPending := s.mainPending ++ [s.pair.main.fetch s.mainFetched] }
  | fetchComp {s} (h : s.pair.comp.Rung s.compFetched) :
      Step effect s
        { s with
          compFetched := s.compFetched + 1
          compPending := s.compPending ++ [s.pair.comp.fetch s.compFetched] }
  | executeMain {s} (w : Wqe) (rest : List Wqe) (h : s.mainPending = w :: rest) :
      Step effect s { s with mainPending := rest, mem := effect w s.mem }
  | executeComp {s} (w : Wqe) (rest : List Wqe) (h : s.compPending = w :: rest)
      (hw : s.Released w) : Step effect s { s with compPending := rest, mem := effect w s.mem }
  | completeMain {s q} (h : Qp.Nic s.pair.main q)
      (hx : s.pair.main.cq.produced < s.onMain.executed) :
      Step effect s { s with pair := { s.pair with main := q } }
  | completeComp {s q} (h : Qp.Nic s.pair.comp q)
      (hx : s.pair.comp.cq.produced < s.onComp.executed) :
      Step effect s { s with pair := { s.pair with comp := q } }

end NicPair

/-! ## The WQEs are counted -/

theorem CounterCall.counted_main {cfg : PairConfig} {call : CounterCall cfg} (h : call.Small)
    (base : ℕ) : ∀ w ∈ call.op.mainWqes cfg.mainQp base, w.Counted := by
  intro w hw
  have hput : ∀ raddr laddr size, ∀ w ∈ putWqes cfg.mainQp raddr laddr size base, w.Counted :=
    fun _ _ _ => counted_chunkWqes (fun _ _ _ => counted_cons _ (by decide) rfl) base _ 0 _
  cases hop : call.op with
  | putCounter raddr laddr size =>
    rw [hop] at hw
    exact hput _ _ _ w hw
  | pCounter raddr value =>
    rw [hop] at hw
    obtain rfl := List.mem_singleton.1 hw
    have hle := h raddr value hop
    unfold prepareInlRdmaWriteWqe
    rw [if_neg (by omega)]
    exact counted_cons _ (by decide) rfl
  | putSignalCounter raddr laddr size =>
    rw [hop] at hw
    obtain hw | hw := List.mem_append.1 hw
    · exact hput _ _ _ w hw
    · obtain rfl := List.mem_singleton.1 hw
      exact counted_faWqe _ _ _ _
  | signalCounter =>
    rw [hop] at hw
    obtain rfl := List.mem_singleton.1 hw
    exact counted_faWqe _ _ _ _
  | getCounter raddr laddr size =>
    rw [hop] at hw
    exact counted_chunkWqes (fun _ _ _ => counted_cons _ (by decide) rfl) base _ 0 _ w hw

theorem CounterOp.counted_companion (qp companion : QpConst) (args : CounterArgs)
    (base companionBase : ℕ) (op : CounterOp) :
    ∀ w ∈ op.companionWqes qp companion args base companionBase, w.Counted := by
  intro w hw
  obtain rfl | hw := List.mem_cons.1 hw
  · exact counted_cons _ (by decide) rfl
  · obtain rfl := List.mem_singleton.1 hw
    exact counted_faWqe _ _ _ _

/-! ## The views of a pair -/

namespace NicPair

variable {A M : Type*} [DecidableEq A] {cfg : PairConfig} {s s' : NicPair A cfg M}
  {effect : Wqe → M → M} {env : HostEnv} {m₀ : M} {calls : Set (CounterCall cfg)}

/-- The calls that threads are in, and those still to begin, are of the programs. -/
theorem calls_of_programs (h : Reachable (Init env m₀ calls) (Step effect) s) :
    (∀ a call, s.pair.call a = some call → call ∈ calls) ∧
      ∀ a, ∀ call ∈ s.pair.prog a, call ∈ calls ∧ call.Small := by
  refine h.invariant (P := fun s => (∀ a call, s.pair.call a = some call → call ∈ calls) ∧
    ∀ a, ∀ call ∈ s.pair.prog a, call ∈ calls ∧ call.Small)
    (fun s h₀ => ⟨fun a call hc => ?_, h₀.prog⟩) fun s s' ih hs => ?_
  · rw [h₀.call a] at hc
    cases hc
  · cases hs with
    | thread a h =>
      cases h with
      | begin a ht hp =>
        refine ⟨fun b call hc => ?_, fun b call hmem => ?_⟩
        · obtain ⟨rfl, heq⟩ | ⟨-, hc⟩ := update_eq_some.1 hc
          · exact (ih.2 b call (hp ▸ Option.some.inj heq ▸ List.mem_cons_self)).1
          · exact ih.1 b call hc
        · rcases eq_or_ne b a with rfl | hne
          · simp only [Function.update_self] at hmem
            exact ih.2 b call (hp ▸ List.mem_cons_of_mem _ hmem)
          · simp only [Function.update_of_ne hne] at hmem
            exact ih.2 b call hmem
      | reserve | main | comp => exact ih
    | fetchMain | fetchComp | executeMain | executeComp | completeMain | completeComp => exact ih

/-- The main QP, seen alone, is a QP with a NIC. -/
theorem reachable_onMain (h : Reachable (Init env m₀ calls) (Step effect) s) :
    Reachable (NicQp.Init env ()) (NicQp.Step fun _ m => m) s.onMain := by
  refine h.simulate onMain (fun s h₀ => ⟨h₀.pair.main, h₀.mainFetched, h₀.mainPending, rfl⟩)
    fun s s' hr _ hs => ?_
  cases hs with
  | thread a h =>
    cases h with
    | begin a ht hp =>
      have hsmall := ((calls_of_programs hr).2 a _ (hp ▸ List.mem_cons_self)).2
      exact .single (.post _ (turn_eq_none.1 ht).1 rfl (CounterCall.counted_main hsmall _))
    | main a ht h => exact .single (.exec a h)
    | reserve | comp => exact .refl
  | fetchMain h => exact .single (.fetch h)
  | executeMain w rest h => exact .single (.execute w rest h)
  | completeMain h hx => exact .single (.complete h hx)
  | fetchComp | executeComp | completeComp => exact .refl

/-- The companion QP, seen alone, is a QP with a NIC. -/
theorem reachable_onComp (h : Reachable (Init env m₀ calls) (Step effect) s) :
    Reachable (NicQp.Init env ()) (NicQp.Step fun _ m => m) s.onComp := by
  refine h.simulate onComp (fun s h₀ => ⟨h₀.pair.comp, h₀.compFetched, h₀.compPending, rfl⟩)
    fun s s' _ _ hs => ?_
  cases hs with
  | thread a h =>
    cases h with
    | reserve a ht hm hc =>
      exact .single (.post _ (turn_eq_reserve ht).2 rfl
        (CounterOp.counted_companion cfg.mainQp cfg.compQp _ _ _ _))
    | comp a ht h => exact .single (.exec a h)
    | begin | main => exact .refl
  | fetchComp h => exact .single (.fetch h)
  | executeComp w rest h => exact .single (.execute w rest h)
  | completeComp h hx => exact .single (.complete h hx)
  | fetchMain | executeMain | completeMain => exact .refl

theorem onMain_inv (h : Reachable (Init env m₀ calls) (Step effect) s) : s.onMain.Inv :=
  NicQp.reachable_inv (reachable_onMain h)

theorem onComp_inv (h : Reachable (Init env m₀ calls) (Step effect) s) : s.onComp.Inv :=
  NicQp.reachable_inv (reachable_onComp h)

/-- The next WQE to execute on the main QP is that of its log. -/
theorem main_next (h : Reachable (Init env m₀ calls) (Step effect) s) {w : Wqe} {rest : List Wqe}
    (hp : s.mainPending = w :: rest) : s.pair.main.log[s.onMain.executed]? = some w :=
  ((InOrder.reachable_inv (NicQp.reachable_inOrder (reachable_onMain h))).getElem?_executed hp).2

/-- The next WQE to execute on the companion QP is that of its log. -/
theorem comp_next (h : Reachable (Init env m₀ calls) (Step effect) s) {w : Wqe} {rest : List Wqe}
    (hp : s.compPending = w :: rest) : s.pair.comp.log[s.onComp.executed]? = some w :=
  ((InOrder.reachable_inv (NicQp.reachable_inOrder (reachable_onComp h))).getElem?_executed hp).2

/-! ## Two executors on one memory -/

end NicPair

/-- The QPs of a pair. -/
inductive Side
  | main
  | comp
deriving DecidableEq, Repr

namespace NicPair

variable {A M : Type*} [DecidableEq A] {cfg : PairConfig} {s s' : NicPair A cfg M}
  {effect : Wqe → M → M} {env : HostEnv} {m₀ : M} {calls : Set (CounterCall cfg)}

/-- The NIC as two executors. -/
def interleave (s : NicPair A cfg M) : Interleave Side Wqe M where
  log
    | .main => s.pair.main.log
    | .comp => s.pair.comp.log
  executed
    | .main => s.onMain.executed
    | .comp => s.onComp.executed
  mem := s.mem

omit [DecidableEq A]

/-- A step that neither reserves nor executes is none of the executors. -/
theorem interleave_same (hm : s'.pair.main.log = s.pair.main.log)
    (hc : s'.pair.comp.log = s.pair.comp.log) (hxm : s'.onMain.executed = s.onMain.executed)
    (hxc : s'.onComp.executed = s.onComp.executed) (hmem : s'.mem = s.mem) :
    ReflTransGen (Interleave.Step effect) s.interleave s'.interleave := by
  have hto : s'.interleave = s.interleave := by
    ext1
    · funext side
      cases side with
      | main => exact hm
      | comp => exact hc
    · funext side
      cases side with
      | main => exact hxm
      | comp => exact hxc
    · exact hmem
  rw [hto]

/-- A reservation is more of a log. -/
theorem interleave_append (side : Side) (l : List Wqe)
    (hlog : ∀ j, s'.interleave.log j =
      Function.update s.interleave.log side (s.interleave.log side ++ l) j)
    (hx : s'.interleave.executed = s.interleave.executed) (hmem : s'.mem = s.mem) :
    Interleave.Step effect s.interleave s'.interleave := by
  have hto : s'.interleave =
      { s.interleave with
        log := Function.update s.interleave.log side (s.interleave.log side ++ l) } :=
    Interleave.ext (funext hlog) hx hmem
  rw [hto]
  exact .append side l

/-- An execution is one of an executor. -/
theorem interleave_execute (side : Side) (w : Wqe)
    (hi : (s.interleave.log side)[s.interleave.executed side]? = some w)
    (hlog : s'.interleave.log = s.interleave.log)
    (hx : ∀ j, s'.interleave.executed j =
      Function.update s.interleave.executed side (s.interleave.executed side + 1) j)
    (hmem : s'.mem = effect w s.mem) : Interleave.Step effect s.interleave s'.interleave := by
  have hto : s'.interleave =
      { s.interleave with
        executed := Function.update s.interleave.executed side (s.interleave.executed side + 1)
        mem := effect w s.interleave.mem } :=
    Interleave.ext hlog (funext hx) hmem
  rw [hto]
  exact .execute side w hi

variable [DecidableEq A]

/-- A step of the pair is one of the executors, or none. -/
theorem interleave_step (h : Reachable (Init env m₀ calls) (Step effect) s)
    (hs : Step effect s s') :
    ReflTransGen (Interleave.Step effect) s.interleave s'.interleave := by
  have hmain := onMain_inv h
  have hcomp := onComp_inv h
  cases hs with
  | thread a hs =>
    cases hs with
    | begin a ht hp =>
      rename_i call rest
      refine .single (interleave_append .main (call.mainRsv a s.pair.main.sqRsvdIndex).wqes
        (fun j => ?_) rfl rfl)
      cases j with
      | main => exact Qp.log_cons ..
      | comp => rfl
    | reserve a ht hm hc =>
      rename_i call rm
      refine .single (interleave_append .comp (call.compRsv a rm.base s.pair.comp.sqRsvdIndex).wqes
        (fun j => ?_) rfl rfl)
      cases j with
      | main => rfl
      | comp => exact Qp.log_cons ..
    | main a ht hs =>
      have hlog := congrArg (fun rs => (List.reverse rs).flatMap Rsv.wqes)
        (hmain.qp.exec_mono hs).1
      exact interleave_same hlog rfl rfl rfl rfl
    | comp a ht hs =>
      have hlog := congrArg (fun rs => (List.reverse rs).flatMap Rsv.wqes)
        (hcomp.qp.exec_mono hs).1
      exact interleave_same rfl hlog rfl rfl rfl
  | fetchMain hr => exact interleave_same rfl rfl (s.onMain.executed_fetch _) rfl rfl
  | fetchComp hr => exact interleave_same rfl rfl rfl (s.onComp.executed_fetch _) rfl
  | executeMain w rest hp =>
    refine .single (interleave_execute .main w (main_next h hp) rfl (fun j => ?_) rfl)
    cases j with
    | main => exact hmain.executed_execute hp
    | comp => rfl
  | executeComp w rest hp hw =>
    refine .single (interleave_execute .comp w (comp_next h hp) rfl (fun j => ?_) rfl)
    cases j with
    | main => rfl
    | comp => exact hcomp.executed_execute hp
  | completeMain hs hx => cases hs; exact .refl
  | completeComp hs hx => cases hs; exact .refl

/-- **The NIC of a pair is two executors on one memory**: the system refines them. -/
theorem reachable_interleave (h : Reachable (Init env m₀ calls) (Step effect) s) :
    Reachable (Interleave.Init m₀) (Interleave.Step effect) s.interleave := by
  refine h.simulate interleave (fun s h₀ => ⟨fun side => ?_, h₀.mem⟩)
    fun _ _ hr _ hs => interleave_step hr hs
  cases side with
  | main => exact Nat.sub_eq_zero_of_le (h₀.mainFetched.trans_le (Nat.zero_le _))
  | comp => exact Nat.sub_eq_zero_of_le (h₀.compFetched.trans_le (Nat.zero_le _))

end NicPair

end Gpunetio
