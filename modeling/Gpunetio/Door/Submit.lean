import Gpunetio.Word
import Gpunetio.Lib.Transition
import Mathlib.Data.Set.Lattice
import Mathlib.Order.Bounds.Basic

/-!
# Ringing the doorbell of one queue pair

The submit functions that update the doorbell record take `sq_lock`, raise `sq_wqe_pi`, and if they
raised it ring the doorbell, store the record, ring the doorbell again, and release the lock. The
steps of a call are the same whether it is alone (`submit_db`, `submit_bf`) or one entry of
`submit_db_multi_qps`, which interleaves the steps of its entries. A `SubmitSys` is one QP under any
number of such calls, taken as agents of their own.

* `Door`, `DoorEvent`: the words of a QP that submission writes, and the history of writes;
* `Stage`, `Door.exec`: the steps of a call between lock and unlock;
* `Door.Ordered`, `Door.Settled`, `Door.At`: what holds of the words always, outside a call, and in
  front of each stage; `Door.exec_ordered`, `Door.exec_at`: what one stage does;
* `SubmitSys.Step`, `SubmitSys.Inv`, `SubmitSys.Inv.step`;
* **`SubmitSys.Inv.greatest`**: when the calls have finished, all words name the greatest index.
-/

namespace Gpunetio

open Transition

/-- A write to the doorbell register (a doorbell or a BlueFlame WQE) or to the doorbell record, on
behalf of a producer index; or the release of `sq_lock`. -/
inductive DoorEvent
  | db (prodIndex : ℕ)
  | bf (prodIndex : ℕ)
  | dbr (prodIndex : ℕ)
  | unlock
deriving DecidableEq, Repr

/-- The producer index written to the doorbell register, if it is written. -/
def DoorEvent.doorbell : DoorEvent → Option ℕ
  | db p => some p
  | bf p => some p
  | _ => none

/-- The producer index written to the doorbell record, if it is written. -/
def DoorEvent.record : DoorEvent → Option ℕ
  | dbr p => some p
  | _ => none

/-- The fields and the doorbell of a QP that submission works on; `trace` is newest first. -/
structure Door where
  sqLock : Bool
  sqWqePi : ℕ
  sqDb : BitVec 64
  sqDbrec : BitVec 32
  trace : List DoorEvent

/-- `submit_db` and `submit_bf`; a BlueFlame submission copies a WQE, whose first eight bytes land
in the doorbell register. -/
inductive SubmitCall
  | db (prodIndex : ℕ)
  | bf (prodIndex : ℕ) (smemWqe : BitVec 64)
deriving DecidableEq, Repr

/-- `prod_index`. -/
def SubmitCall.prodIndex : SubmitCall → ℕ
  | db p => p
  | bf p _ => p

/-- What a call that holds the lock does next. -/
inductive Stage
  | atomicMax
  | ringFirst
  | updateDbr
  | ringSecond
  | unlock
deriving DecidableEq, Repr

/-- The stage after this one, of a call that raised `sq_wqe_pi` or not. -/
def Stage.next (won : Bool) : Stage → Option Stage
  | atomicMax => some (if won then ringFirst else unlock)
  | ringFirst => some updateDbr
  | updateDbr => some ringSecond
  | ringSecond => some unlock
  | unlock => none

namespace Door

/-- `doca_gpu_dev_verbs_ring_db`. -/
def ringDb (qpnDs : BitVec 32) (p : ℕ) (d : Door) : Door :=
  { d with sqDb := prepareDb qpnDs p, trace := .db p :: d.trace }

/-- `doca_gpu_dev_verbs_ring_bf`. -/
def ringBf (p : ℕ) (smemWqe : BitVec 64) (d : Door) : Door :=
  { d with sqDb := smemWqe, trace := .bf p :: d.trace }

/-- `doca_priv_gpu_dev_verbs_update_dbr`. -/
def updateDbr (p : ℕ) (d : Door) : Door :=
  { d with sqDbrec := prepareDbr p, trace := .dbr p :: d.trace }

/-- The first ring of a call. -/
def ringFirst (qpnDs : BitVec 32) : SubmitCall → Door → Door
  | .db p => ringDb qpnDs p
  | .bf p w => ringBf p w

/-- **One stage of a call.** -/
def exec (qpnDs : BitVec 32) (c : SubmitCall) : Stage → Door → Door
  | .atomicMax, d => { d with sqWqePi := max d.sqWqePi c.prodIndex }
  | .ringFirst, d => d.ringFirst qpnDs c
  | .updateDbr, d => d.updateDbr c.prodIndex
  | .ringSecond, d => d.ringDb qpnDs c.prodIndex
  | .unlock, d => { d with sqLock := false, trace := .unlock :: d.trace }

/-- `old_prod_index < prod_index`. -/
def won (c : SubmitCall) (d : Door) : Bool := d.sqWqePi < c.prodIndex

/-- The producer indices written to the doorbell register, newest first. -/
def doorbells (d : Door) : List ℕ := d.trace.filterMap DoorEvent.doorbell

/-- The producer indices written to the doorbell record, newest first. -/
def records (d : Door) : List ℕ := d.trace.filterMap DoorEvent.record

/-- The doorbell of a QP on export. -/
structure Fresh (d : Door) : Prop where
  sqLock : d.sqLock = false
  sqWqePi : d.sqWqePi = 0
  sqDbrec : d.sqDbrec = 0
  trace : d.trace = []

end Door

/-- Every write of the doorbell record is directly followed by a doorbell with the same index; in
particular before the lock is released. The newest event may be a record still to be followed. -/
def Followed : List DoorEvent → Prop
  | [] => True
  | e :: tr => (∀ p, tr.head? = some (.dbr p) → e = .db p) ∧ Followed tr

namespace Door

/-- What holds of the words at all times: no write names an index above `sq_wqe_pi`, the writes
never go back, and every record is followed by its doorbell. -/
structure Ordered (d : Door) : Prop where
  doorbells_le : ∀ p ∈ d.doorbells, p ≤ d.sqWqePi
  records_le : ∀ p ∈ d.records, p ≤ d.sqWqePi
  doorbells : d.doorbells.Pairwise (· ≥ ·)
  records : d.records.Pairwise (· ≥ ·)
  followed : Followed d.trace

/-- No record is waiting for its doorbell. -/
def Clean (d : Door) : Prop := ∀ p, d.trace.head? ≠ some (.dbr p)

/-- The words all name `sq_wqe_pi`. -/
structure Settled (qpnDs : BitVec 32) (d : Door) : Prop where
  sqDbrec : d.sqDbrec = prepareDbr d.sqWqePi
  sqDb : d.sqWqePi = 0 ∨ d.sqDb = prepareDb qpnDs d.sqWqePi
  last : d.doorbells.head?.getD 0 = d.sqWqePi
  clean : d.Clean

/-- What holds in front of each stage of a call. -/
def At (qpnDs : BitVec 32) (c : SubmitCall) (d : Door) : Stage → Prop
  | .atomicMax => d.Settled qpnDs
  | .ringFirst => d.sqWqePi = c.prodIndex ∧ d.Clean
  | .updateDbr => d.sqWqePi = c.prodIndex ∧ d.Clean
  | .ringSecond => d.sqWqePi = c.prodIndex ∧ d.sqDbrec = prepareDbr c.prodIndex ∧
      d.trace.head? = some (.dbr c.prodIndex)
  | .unlock => d.Settled qpnDs

variable {qpnDs : BitVec 32} {c : SubmitCall} {st : Stage} {d : Door}

theorem Fresh.ordered (h : d.Fresh) : d.Ordered := by
  constructor <;> simp [Door.doorbells, Door.records, h.trace, Followed]

theorem Fresh.settled (h : d.Fresh) : d.Settled qpnDs where
  sqDbrec := by rw [h.sqDbrec, h.sqWqePi]; decide
  sqDb := .inl h.sqWqePi
  last := by simp [Door.doorbells, h.trace, h.sqWqePi]
  clean := by simp [Clean, h.trace]

/-- A write of the current `sq_wqe_pi` keeps the order of the writes. -/
theorem Ordered.push {e : DoorEvent} {d' : Door} (h : d.Ordered) (hpi : d'.sqWqePi = d.sqWqePi)
    (ht : d'.trace = e :: d.trace) (hdb : ∀ p, e.doorbell = some p → p = d.sqWqePi)
    (hdbr : ∀ p, e.record = some p → p = d.sqWqePi)
    (hf : ∀ p, d.trace.head? = some (.dbr p) → e = .db p) : d'.Ordered := by
  obtain ⟨h₁, h₂, h₃, h₄, h₅⟩ := h
  refine ⟨?_, ?_, ?_, ?_, by rw [ht]; exact ⟨hf, h₅⟩⟩ <;>
    simp only [Door.doorbells, Door.records, ht, hpi, List.filterMap_cons] at h₁ h₂ h₃ h₄ ⊢
  · cases he : e.doorbell with
    | none => exact h₁
    | some p => simpa [hdb p he] using h₁
  · cases he : e.record with
    | none => exact h₂
    | some p => simpa [hdbr p he] using h₂
  · cases he : e.doorbell with
    | none => exact h₃
    | some p => exact List.pairwise_cons.2 ⟨fun q hq => hdb p he ▸ h₁ q hq, h₃⟩
  · cases he : e.record with
    | none => exact h₄
    | some p => exact List.pairwise_cons.2 ⟨fun q hq => hdbr p he ▸ h₂ q hq, h₄⟩

/-- Raising `sq_wqe_pi` writes nothing. -/
theorem Ordered.raise {p : ℕ} (h : d.Ordered) (hp : d.sqWqePi ≤ p) :
    ({ d with sqWqePi := p } : Door).Ordered where
  doorbells_le := fun q hq => (h.doorbells_le q hq).trans hp
  records_le := fun q hq => (h.records_le q hq).trans hp
  doorbells := h.doorbells
  records := h.records
  followed := h.followed

theorem exec_ordered (h : d.Ordered) (hat : d.At qpnDs c st) : (d.exec qpnDs c st).Ordered := by
  cases st with
  | atomicMax => exact h.raise (le_max_left _ _)
  | ringFirst =>
    have hc : ∀ q, d.trace.head? = some (.dbr q) → False := hat.2
    cases c with
    | db p =>
      refine @Ordered.push d (.db p) (d.ringDb qpnDs p) h rfl rfl ?_ ?_ fun q hq => (hc q hq).elim
      · simp [DoorEvent.doorbell, hat.1, SubmitCall.prodIndex]
      · simp [DoorEvent.record]
    | bf p w =>
      refine @Ordered.push d (.bf p) (d.ringBf p w) h rfl rfl ?_ ?_ fun q hq => (hc q hq).elim
      · simp [DoorEvent.doorbell, hat.1, SubmitCall.prodIndex]
      · simp [DoorEvent.record]
  | updateDbr =>
    refine @Ordered.push d (.dbr _) (d.updateDbr c.prodIndex) h rfl rfl ?_ ?_
      fun q hq => absurd hq (hat.2 q)
    · simp [DoorEvent.doorbell]
    · simp [DoorEvent.record, hat.1]
  | ringSecond =>
    refine @Ordered.push d (.db _) (d.ringDb qpnDs c.prodIndex) h rfl rfl ?_ ?_ ?_
    · simp [DoorEvent.doorbell, hat.1]
    · simp [DoorEvent.record]
    · simp [hat.2.2]
  | unlock =>
    refine @Ordered.push d .unlock (d.exec qpnDs c .unlock) h rfl rfl ?_ ?_
      fun q hq => absurd hq (hat.clean q)
    · simp [DoorEvent.doorbell]
    · simp [DoorEvent.record]

/-- Each stage sets up the next, and the last one leaves the words settled. -/
theorem exec_at (hat : d.At qpnDs c st) :
    match st.next (d.won c) with
    | some st' => (d.exec qpnDs c st).At qpnDs c st'
    | none => (d.exec qpnDs c st).Settled qpnDs := by
  cases st with
  | atomicMax =>
    by_cases hw : d.sqWqePi < c.prodIndex
    · simp only [Stage.next, won, hw, decide_true, if_true]
      exact ⟨max_eq_right hw.le, hat.clean⟩
    · have hpi : max d.sqWqePi c.prodIndex = d.sqWqePi := max_eq_left (not_lt.1 hw)
      simp only [Stage.next, won, hw, decide_false, Bool.false_eq_true, if_false, exec, hpi]
      exact hat
  | ringFirst => cases c <;> exact ⟨hat.1, by simp [Clean, exec, ringFirst, ringDb, ringBf]⟩
  | updateDbr => exact ⟨hat.1, rfl, rfl⟩
  | ringSecond =>
    exact
      { sqDbrec := hat.2.1.trans (congrArg prepareDbr hat.1.symm)
        sqDb := .inr (congrArg (prepareDb qpnDs) hat.1.symm)
        last := hat.1.symm
        clean := by simp [Clean, exec, ringDb] }
  | unlock =>
    exact
      { sqDbrec := hat.sqDbrec
        sqDb := hat.sqDb
        last := hat.last
        clean := by simp [Clean, exec] }

/-- No stage lowers `sq_wqe_pi`. -/
theorem sqWqePi_le_exec : d.sqWqePi ≤ (d.exec qpnDs c st).sqWqePi := by
  cases st with
  | atomicMax => exact le_max_left _ _
  | ringFirst => cases c <;> exact le_rfl
  | updateDbr | ringSecond | unlock => exact le_rfl

end Door

/-- One QP under any number of submissions. An agent with a call but no stage spins on the lock;
`calls` collects the indices of all calls begun. -/
structure SubmitSys (A : Type*) where
  door : Door
  call : A → Option (SubmitCall × Option Stage)
  calls : Set ℕ

namespace SubmitSys

variable {A : Type*}

/-- No call has begun. -/
structure Init (s : SubmitSys A) : Prop where
  door : s.door.Fresh
  call : ∀ a, s.call a = none
  calls : s.calls = ∅

/-- Idle agents begin calls, any number at once. -/
def begin (new : A → Option SubmitCall) (s : SubmitSys A) : SubmitSys A where
  door := s.door
  call := fun a => match new a with
    | some c => some (c, none)
    | none => s.call a
  calls := s.calls ∪ {p | ∃ a c, new a = some c ∧ c.prodIndex = p}

variable [DecidableEq A]

/-- **One step**: calls begin, an agent takes the free lock, or the holder executes a stage. -/
inductive Step (qpnDs : BitVec 32) : SubmitSys A → SubmitSys A → Prop
  | call {s} (new : A → Option SubmitCall) (h : ∀ a c, new a = some c → s.call a = none) :
      Step qpnDs s (s.begin new)
  | acquire {s} (a : A) {c} (h : s.call a = some (c, none)) (hl : s.door.sqLock = false) :
      Step qpnDs s { s with
        door := { s.door with sqLock := true }
        call := Function.update s.call a (some (c, some .atomicMax)) }
  | exec {s} (a : A) {c st} (h : s.call a = some (c, some st)) :
      Step qpnDs s { s with
        door := s.door.exec qpnDs c st
        call := Function.update s.call a
          ((st.next (s.door.won c)).map fun st' => (c, some st')) }

/-- The lock has at most one holder, whose stage the words match; without a holder they are settled.
Every call begun has raised `sq_wqe_pi` to its index or is still to do so. -/
structure Inv (qpnDs : BitVec 32) (s : SubmitSys A) : Prop where
  ordered : s.door.Ordered
  holder : ∀ a c st, s.call a = some (c, some st) →
    s.door.sqLock = true ∧ s.door.At qpnDs c st ∧
      ∀ b c' st', s.call b = some (c', some st') → b = a
  free : s.door.sqLock = false → s.door.Settled qpnDs
  locked : s.door.sqLock = true → ∃ a c st, s.call a = some (c, some st)
  pending : ∀ p ∈ s.calls, p ≤ s.door.sqWqePi ∨
    ∃ a c o, s.call a = some (c, o) ∧ c.prodIndex = p ∧ (o = none ∨ o = some .atomicMax)
  top : s.door.sqWqePi = 0 ∨ s.door.sqWqePi ∈ s.calls
  called : ∀ a c o, s.call a = some (c, o) → c.prodIndex ∈ s.calls

variable {qpnDs : BitVec 32} {s s' : SubmitSys A}

omit [DecidableEq A] in
theorem Inv.init (h : Init s) : s.Inv qpnDs where
  ordered := h.door.ordered
  holder := by simp [h.call]
  free := fun _ => h.door.settled
  locked := by simp [h.door.sqLock]
  pending := by simp [h.calls]
  top := .inl h.door.sqWqePi
  called := by simp [h.call]

omit [DecidableEq A] in
theorem begin_call {new : A → Option SubmitCall} {a : A} {c : SubmitCall} {st : Stage} :
    (s.begin new).call a = some (c, some st) ↔ new a = none ∧ s.call a = some (c, some st) := by
  simp only [begin]
  cases new a <;> simp

omit [DecidableEq A] in
theorem Inv.call (h : s.Inv qpnDs) {new : A → Option SubmitCall}
    (hnew : ∀ a c, new a = some c → s.call a = none) : (s.begin new).Inv qpnDs where
  ordered := h.ordered
  holder := by
    intro a c st hc
    obtain ⟨hl, hat, huniq⟩ := h.holder a c st (begin_call.1 hc).2
    exact ⟨hl, hat, fun b c' st' hb => huniq b c' st' (begin_call.1 hb).2⟩
  free := h.free
  locked := by
    intro hl
    obtain ⟨a, c, st, hc⟩ := h.locked hl
    refine ⟨a, c, st, begin_call.2 ⟨?_, hc⟩⟩
    cases hn : new a with
    | none => rfl
    | some c' => rw [hnew a c' hn] at hc; cases hc
  pending := by
    rintro p (hp | ⟨a, c, hn, rfl⟩)
    · obtain hle | ⟨a, c, o, hc, rfl, ho⟩ := h.pending p hp
      · exact .inl hle
      · refine .inr ⟨a, c, o, ?_, rfl, ho⟩
        cases hn : new a with
        | none => simpa [begin, hn] using hc
        | some c' => rw [hnew a c' hn] at hc; cases hc
    · exact .inr ⟨a, c, none, by simp [begin, hn], rfl, .inl rfl⟩
  top := h.top.imp_right .inl
  called := by
    intro a c o hc
    simp only [begin] at hc
    cases hn : new a with
    | none => rw [hn] at hc; exact .inl (h.called a c o hc)
    | some c' =>
      rw [hn] at hc
      cases hc
      exact .inr ⟨a, c, hn, rfl⟩

theorem Inv.acquire (h : s.Inv qpnDs) {a : A} {c : SubmitCall} (hc : s.call a = some (c, none))
    (hl : s.door.sqLock = false) :
    Inv qpnDs { s with
      door := { s.door with sqLock := true }
      call := Function.update s.call a (some (c, some .atomicMax)) } := by
  -- the lock is free, so no call is at a stage
  have hno : ∀ b c' st, s.call b ≠ some (c', some st) := fun b c' st hb => by
    rw [(h.holder b c' st hb).1] at hl; cases hl
  have hset := h.free hl
  have hupd : ∀ {b c' st}, Function.update s.call a (some (c, some .atomicMax)) b =
      some (c', some st) → b = a ∧ c' = c ∧ st = .atomicMax := fun {b c' st} hb => by
    obtain ⟨rfl, hb'⟩ | ⟨-, hb⟩ := update_eq_some.1 hb
    · cases hb'; exact ⟨rfl, rfl, rfl⟩
    · exact (hno b c' st hb).elim
  refine
    { ordered := ⟨h.ordered.1, h.ordered.2, h.ordered.3, h.ordered.4, h.ordered.5⟩
      holder := ?_
      free := fun h => Bool.noConfusion h
      locked := fun _ => ⟨a, c, _, Function.update_self ..⟩
      pending := ?_
      top := h.top
      called := ?_ }
  · intro b c' st hb
    obtain ⟨rfl, rfl, rfl⟩ := hupd hb
    exact ⟨rfl, ⟨hset.1, hset.2, hset.3, hset.4⟩, fun b' c'' st' hb' => (hupd hb').1⟩
  · intro p hp
    obtain hle | ⟨b, c', o, hb, rfl, ho⟩ := h.pending p hp
    · exact .inl hle
    · rcases eq_or_ne b a with rfl | hba
      · rw [hb] at hc
        cases hc
        exact .inr ⟨b, c, _, Function.update_self .., rfl, .inr rfl⟩
      · exact .inr ⟨b, c', o, (Function.update_of_ne hba ..).trans hb, rfl, ho⟩
  · intro b c' o hb
    obtain ⟨rfl, hb'⟩ | ⟨-, hb⟩ := update_eq_some.1 hb
    · cases hb'; exact h.called b c _ hc
    · exact h.called b c' o hb

/-- Only `atomic_max` moves `sq_wqe_pi`. -/
theorem exec_sqWqePi {d : Door} {c : SubmitCall} {st : Stage} :
    (d.exec qpnDs c st).sqWqePi = d.sqWqePi ∨
      st = .atomicMax ∧ (d.exec qpnDs c st).sqWqePi = max d.sqWqePi c.prodIndex := by
  cases st with
  | atomicMax => exact .inr ⟨rfl, rfl⟩
  | ringFirst => cases c <;> exact .inl rfl
  | updateDbr | ringSecond | unlock => exact .inl rfl

theorem Inv.exec (h : s.Inv qpnDs) {a : A} {c : SubmitCall} {st : Stage}
    (hc : s.call a = some (c, some st)) :
    Inv qpnDs { s with
      door := s.door.exec qpnDs c st
      call := Function.update s.call a
        ((st.next (s.door.won c)).map fun st' => (c, some st')) } := by
  obtain ⟨hl, hat, huniq⟩ := h.holder a c st hc
  have hnext := Door.exec_at hat
  have hlock : (s.door.exec qpnDs c st).sqLock = (st.next (s.door.won c)).isSome := by
    cases st with
    | ringFirst => cases c <;> exact hl
    | unlock => rfl
    | atomicMax | updateDbr | ringSecond => exact hl
  -- after the step only `a` can be at a stage
  have hupd : ∀ {b c' st'}, Function.update s.call a
      ((st.next (s.door.won c)).map fun st' => (c, some st')) b = some (c', some st') →
      b = a ∧ c' = c ∧ st.next (s.door.won c) = some st' := fun {b c' st'} hb => by
    obtain ⟨rfl, hb'⟩ | ⟨hba, hb⟩ := update_eq_some.1 hb
    · cases hn : st.next (s.door.won c) with
      | none => rw [hn] at hb'; cases hb'
      | some st₁ => rw [hn] at hb'; cases hb'; exact ⟨rfl, rfl, rfl⟩
    · exact (hba (huniq b c' st' hb)).elim
  refine
    { ordered := Door.exec_ordered h.ordered hat
      holder := ?_
      free := ?_
      locked := ?_
      pending := ?_
      top := ?_
      called := ?_ }
  · intro b c' st' hb
    obtain ⟨rfl, rfl, hn⟩ := hupd hb
    rw [hn] at hnext hlock
    exact ⟨hlock, hnext, fun b' c'' st'' hb' => (hupd hb').1⟩
  · intro hf
    cases hn : st.next (s.door.won c) with
    | none => rw [hn] at hnext; exact hnext
    | some st' => rw [hlock, hn] at hf; cases hf
  · intro ht
    cases hn : st.next (s.door.won c) with
    | none => rw [hlock, hn] at ht; cases ht
    | some st' => exact ⟨a, c, st', by simp⟩
  · intro p hp
    obtain hle | ⟨b, c', o, hb, rfl, ho⟩ := h.pending p hp
    · exact .inl (hle.trans Door.sqWqePi_le_exec)
    · rcases eq_or_ne b a with rfl | hba
      · rw [hb] at hc
        cases hc
        obtain rfl : st = .atomicMax := by simpa using ho
        exact .inl (le_max_right _ _)
      · exact .inr ⟨b, c', o, (Function.update_of_ne hba ..).trans hb, rfl, ho⟩
  · obtain heq | ⟨rfl, heq⟩ := @exec_sqWqePi qpnDs s.door c st
    · rw [heq]; exact h.top
    · rw [heq]
      rcases le_total s.door.sqWqePi c.prodIndex with hle | hle
      · rw [max_eq_right hle]; exact .inr (h.called a c _ hc)
      · rw [max_eq_left hle]; exact h.top
  · intro b c' o hb
    obtain ⟨rfl, hb'⟩ | ⟨-, hb⟩ := update_eq_some.1 hb
    · cases hn : st.next (s.door.won c) with
      | none => rw [hn] at hb'; cases hb'
      | some st₁ => rw [hn] at hb'; cases hb'; exact h.called b c _ hc
    · exact h.called b c' o hb

/-- **Every step keeps the invariant.** -/
theorem Inv.step (h : s.Inv qpnDs) (hs : Step qpnDs s s') : s'.Inv qpnDs := by
  cases hs with
  | call new hnew => exact h.call hnew
  | acquire a hc hl => exact h.acquire hc hl
  | exec a hc => exact h.exec hc

theorem reachable_inv (h : Reachable Init (Step qpnDs) s) : s.Inv qpnDs :=
  h.invariant (fun _ => Inv.init) fun _ _ => Inv.step

omit [DecidableEq A] in
/-- **No submission is lost.** When no call is under way, `sq_wqe_pi` is the greatest index
submitted and the other words name it. -/
theorem Inv.greatest (h : s.Inv qpnDs) (hidle : ∀ a, s.call a = none) :
    s.door.sqLock = false ∧ s.door.Settled qpnDs ∧
      IsGreatest (insert 0 s.calls) s.door.sqWqePi := by
  have hl : s.door.sqLock = false := by
    rcases hb : s.door.sqLock with _ | _
    · rfl
    · obtain ⟨a, c, st, hc⟩ := h.locked hb
      rw [hidle a] at hc; cases hc
  refine ⟨hl, h.free hl, h.top, ?_⟩
  rintro p (rfl | hp)
  · exact Nat.zero_le _
  · obtain hle | ⟨a, c, o, hc, -⟩ := h.pending p hp
    · exact hle
    · rw [hidle a] at hc; cases hc

end SubmitSys

end Gpunetio
