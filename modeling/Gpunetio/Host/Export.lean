import Gpunetio.Lib.Loop
import Gpunetio.Lib.Trace
import Gpunetio.Proxy.Model

/-!
# Where the proxy's index lives

`doca_gpu_verbs_cpu_proxy_progress` and `doca_gpu_verbs_reset_tracking_and_memory` read and write
`*cpu_db` whenever `cpu_proxy` is set. With the CPU proxy that is a word of host memory allocated
on export; in the software-emulated mode it is a field of the device QP, which is allocated and
freed by other functions.

* `ExportedQp`, `Block`, `HostSys`: the exported QPs, and the memory allocated for them;
* `HostSys.exportQp`, `HostSys.getQpDev`, `HostSys.exportMultiQpsDev`,
  `HostSys.unexportMultiQpsDev`: the functions that set or invalidate `cpu_db`, for any outcome of
  the calls they make;
* `HostSys.CpuDbOk`: `cpu_db` points into memory allocated for its QP;
* `HostSys.Inv`, **`HostSys.cpuDb_iff`**: when it does; `HostSys.dangles_after_unexport`.
-/

namespace Gpunetio

open Trace

/-- A pointer: the block it points into, and the element of the block. -/
structure Ptr where
  block : ℕ
  slot : ℕ
deriving DecidableEq, Repr

/-- What a block was allocated for: the word of the CPU proxy, one device QP, or an array of them.
-/
inductive BlockKind (Q : Type*)
  | word (q : Q)
  | dev (q : Q)
  | array (qs : List Q)

/-- A block of memory; `inTable` says that `mem_free` will find it. -/
structure Block (Q : Type*) where
  kind : BlockKind Q
  inTable : Bool

/-- The element belongs to the QP. -/
def BlockKind.At {Q : Type*} (slot : ℕ) (q : Q) : BlockKind Q → Prop
  | word q' => slot = 0 ∧ q' = q
  | dev q' => slot = 0 ∧ q' = q
  | array qs => qs[slot]? = some q

/-- The outcome of `doca_gpu_mem_alloc`: it fails, or it writes its pointers and then fails to enter
the memory in its table, or it succeeds. -/
inductive AllocOutcome
  | fails
  | entryLost
  | ok
deriving DecidableEq, Repr

/-- `doca_verbs_qp_send_dbr_mode`. -/
inductive SendDbrMode
  | dbrValid
  | noDbrExt
deriving DecidableEq, Repr

/-- `doca_gpu_verbs_qp`, with the `nic_handler` of its `qp_cpu`. -/
structure ExportedQp where
  sendDbrModeExt : DbrModeExt
  nicHandler : NicHandler
  cpuProxy : Bool
  cpuDb : Option Ptr
  qpGpu : Option Ptr
  qpGpuH : Option Ptr
deriving DecidableEq, Repr

/-- The software-emulated mode without a CPU proxy: `cpu_db` is `sq_wqe_pi` of the device QP. -/
def ExportedQp.Assisted (e : ExportedQp) : Prop :=
  e.sendDbrModeExt = .noDbrSwEmulated ∧ e.nicHandler ≠ .cpuProxy

instance (e : ExportedQp) : Decidable e.Assisted := by
  unfold ExportedQp.Assisted
  infer_instance

/-- The arguments of an export, and the outcomes of its calls: `earlyFails` is any failure before
the doorbell is set up, `lateFails` any failure after it. -/
structure ExportArgs where
  nullArg : Bool
  nicHandler : NicHandler
  sendDbrModeExt : DbrModeExt
  supportGdrcopy : Bool
  sendDbrMode : SendDbrMode
  earlyFails : Bool
  uarFails : Bool
  alloc : AllocOutcome
  lateFails : Bool
deriving DecidableEq, Repr

/-- The exported QPs and the memory allocated for them. Blocks are numbered in the order of
allocation. `home` records the block in which the last successful placement put the device copy of a
QP, as long as it is allocated. -/
structure HostSys (Q : Type*) where
  qp : Q → Option ExportedQp
  block : ℕ → Option (Block Q)
  next : ℕ
  monitored : List Q
  home : Q → Option ℕ

namespace HostSys

variable {Q : Type*}

/-- `doca_gpu_mem_alloc`: the block, if there is one, is number `next`. -/
def alloc (kind : BlockKind Q) (o : AllocOutcome) (s : HostSys Q) : HostSys Q :=
  match o with
  | .fails => s
  | .entryLost =>
    { s with block := Function.update s.block s.next (some ⟨kind, false⟩), next := s.next + 1 }
  | .ok =>
    { s with block := Function.update s.block s.next (some ⟨kind, true⟩), next := s.next + 1 }

/-- The handler an export chooses when it needs no CPU proxy. -/
def chosenHandler (a : ExportArgs) : NicHandler :=
  if a.nicHandler = .auto then
    if a.sendDbrMode = .noDbrExt ∨ a.sendDbrModeExt = .noDbrSwEmulated then .gpuSmNoDbr
    else .gpuSmDb
  else a.nicHandler

/-- The checks of an export that come before anything is allocated. -/
def exportRefused (a : ExportArgs) : Bool :=
  a.nullArg || (a.nicHandler = .gpuSmNoDbr && a.sendDbrModeExt = .validDbr) ||
    (a.sendDbrModeExt = .noDbrSwEmulated && !a.supportGdrcopy) || a.earlyFails ||
    (a.sendDbrModeExt = .validDbr && a.sendDbrMode ≠ .dbrValid) ||
    (a.sendDbrModeExt = .noDbrHw && a.sendDbrMode ≠ .noDbrExt) ||
    (a.uarFails && a.nicHandler ≠ .auto && a.nicHandler ≠ .cpuProxy)

/-- The export falls back to the CPU proxy, or was asked for it. -/
def needsProxy (a : ExportArgs) : Bool :=
  a.nicHandler = .cpuProxy || (a.uarFails && a.nicHandler = .auto)

variable [DecidableEq Q]

/-- **`doca_gpu_verbs_export_qp`** of a QP not exported so far. -/
def exportQp (q : Q) (a : ExportArgs) (s : HostSys Q) : HostSys Q :=
  if (s.qp q).isSome || exportRefused a then s
  else if needsProxy a then
    let s' := s.alloc (.word q) a.alloc
    if a.alloc ≠ .ok || a.lateFails then s'
    else
      { s' with
        qp := Function.update s.qp q
          (some ⟨a.sendDbrModeExt, .cpuProxy, true, some ⟨s.next, 0⟩, none, none⟩)
        home := Function.update s.home q none }
  else if a.lateFails then s
  else
    { s with
      qp := Function.update s.qp q
        (some ⟨a.sendDbrModeExt, chosenHandler a, a.sendDbrModeExt = .noDbrSwEmulated, none, none,
          none⟩)
      home := Function.update s.home q none }

/-- **`doca_gpu_verbs_get_qp_dev`**; `memcpy` is the outcome of `cudaMemcpy`. -/
def getQpDev (q : Q) (o : AllocOutcome) (memcpy : Bool) (s : HostSys Q) : HostSys Q :=
  match s.qp q with
  | none => s
  | some e =>
    if e.qpGpu ≠ none then s
    else
      let p : Ptr := ⟨s.next, 0⟩
      let qpGpuH := if e.sendDbrModeExt = .noDbrSwEmulated then some p else none
      let s' := s.alloc (.dev q) o
      match o with
      | .fails => s
      | .entryLost =>
        { s' with qp := Function.update s.qp q (some { e with qpGpu := some p, qpGpuH := qpGpuH }) }
      | .ok =>
        if memcpy = false then
          { s' with
            block := Function.update s'.block s.next none
            qp := Function.update s.qp q (some { e with qpGpu := none, qpGpuH := none }) }
        else
          { s' with
            qp := Function.update s.qp q (some { e with
              qpGpu := some p
              qpGpuH := qpGpuH
              cpuDb := if e.Assisted then some p else e.cpuDb })
            home := Function.update s.home q (some s.next) }

/-- The loop body of `doca_gpu_verbs_export_multi_qps_dev`. -/
def place (b i : ℕ) (e : ExportedQp) : ExportedQp :=
  if e.Assisted then
    { e with qpGpu := some ⟨b, i⟩, qpGpuH := some ⟨b, i⟩, cpuDb := some ⟨b, i⟩ }
  else { e with qpGpu := some ⟨b, i⟩ }

/-- The loop of `doca_gpu_verbs_export_multi_qps_dev`. -/
def placeAll (b : ℕ) (qs : List Q) (qp : Q → Option ExportedQp) : Q → Option ExportedQp :=
  Loop.each Prod.fst (fun x d => d.map (place b x.2)) qs.zipIdx qp

/-- **`doca_gpu_verbs_export_multi_qps_dev`**; `calloc` and `memcpy` are the outcomes of the calls
after the allocation. A `calloc` that fails ends the call without an error. -/
def exportMultiQpsDev (qs : List Q) (o : AllocOutcome) (calloc memcpy : Bool) (s : HostSys Q) :
    HostSys Q :=
  if qs = [] then s
  else
    let s' := s.alloc (.array qs) o
    if o ≠ .ok || !calloc then s'
    else
      let s' := { s' with qp := placeAll s.next qs s.qp }
      if memcpy = false then
        { s' with
          block := Function.update s'.block s.next none
          home := fun q => if q ∈ qs then none else s.home q }
      else { s' with home := fun q => if q ∈ qs then some s.next else s.home q }

/-- `doca_gpu_mem_free` of a pointer to device QPs. -/
def free (p : Ptr) (s : HostSys Q) : HostSys Q :=
  match s.block p.block with
  | some ⟨.dev _, true⟩ | some ⟨.array _, true⟩ =>
    if p.slot = 0 then
      { s with
        block := Function.update s.block p.block none
        home := fun q => if s.home q = some p.block then none else s.home q }
    else s
  | _ => s

/-- **`doca_gpu_verbs_unexport_multi_qps_dev`**. -/
def unexportMultiQpsDev (qs : List Q) (qpGpus : Ptr) (s : HostSys Q) : HostSys Q :=
  if qs = [] then s
  else
    free qpGpus
      { s with qp := fun q =>
          if q ∈ qs then (s.qp q).map fun e => { e with qpGpu := none, qpGpuH := none }
          else s.qp q }

end HostSys

/-- A call on the host, or one round of the service thread. -/
inductive HostEvent (Q : Type*)
  | exportQp (q : Q) (a : ExportArgs)
  | getQpDev (q : Q) (o : AllocOutcome) (memcpy : Bool)
  | exportMultiQpsDev (qs : List Q) (o : AllocOutcome) (calloc memcpy : Bool)
  | unexportMultiQpsDev (qs : List Q) (qpGpus : Ptr)
  | monitorQp (q : Q)
  | progress (q : Q)
  | reset (q : Q)
  | serviceRound

namespace HostSys

variable {Q : Type*} [DecidableEq Q]

/-- **One event.** Progress and reset write to the memory behind the pointers and leave the pointers
as they are. -/
def step (s : HostSys Q) : HostEvent Q → HostSys Q
  | .exportQp q a => s.exportQp q a
  | .getQpDev q o memcpy => s.getQpDev q o memcpy
  | .exportMultiQpsDev qs o calloc memcpy => s.exportMultiQpsDev qs o calloc memcpy
  | .unexportMultiQpsDev qs qpGpus => s.unexportMultiQpsDev qs qpGpus
  | .monitorQp q => { s with monitored := q :: s.monitored }
  | .progress _ | .reset _ | .serviceRound => s

/-- Nothing has been exported. -/
def empty : HostSys Q := ⟨fun _ => none, fun _ => none, 0, [], fun _ => none⟩

/-- The pointer points into memory allocated for the QP. -/
def AllocatedFor (s : HostSys Q) (p : Ptr) (q : Q) : Prop :=
  ∃ blk, s.block p.block = some blk ∧ blk.kind.At p.slot q

/-- `cpu_db` is not null and points into memory allocated for the QP. -/
def CpuDbOk (s : HostSys Q) (q : Q) : Prop :=
  ∀ e, s.qp q = some e → e.cpuProxy = true → ∃ p, e.cpuDb = some p ∧ s.AllocatedFor p q

/-- The QP uses the CPU proxy, or its device copy is where the last placement put it. -/
def CpuDbMeets (s : HostSys Q) (q : Q) : Prop :=
  ∀ e, s.qp q = some e → e.cpuProxy = true → e.nicHandler = .cpuProxy ∨ s.home q ≠ none

/-- A property of the QPs that an event uses `cpu_db` of. -/
def Uses (P : HostSys Q → Q → Prop) (s : HostSys Q) : HostEvent Q → Prop
  | .progress q | .reset q => P s q
  | .serviceRound => ∀ q ∈ s.monitored, P s q
  | _ => True

/-! ## What every call keeps -/

/-- The pointer of one exported QP, in the mode that uses a host word and in the one that uses the
device copy. -/
structure QpOk (s : HostSys Q) (q : Q) (e : ExportedQp) : Prop where
  word : e.cpuProxy = true → e.nicHandler = .cpuProxy →
    ∃ b t, e.cpuDb = some ⟨b, 0⟩ ∧ s.block b = some ⟨.word q, t⟩
  assisted : e.cpuProxy = true → e.nicHandler ≠ .cpuProxy → e.Assisted
  placed : e.Assisted → ∀ b, s.home q = some b →
    ∃ i, e.cpuDb = some ⟨b, i⟩ ∧ s.AllocatedFor ⟨b, i⟩ q
  left : e.Assisted → s.home q = none →
    ∀ p, e.cpuDb = some p → s.block p.block = none ∧ p.block < s.next

/-- Numbers from `next` on are not in use, and the pointers of the exported QPs are in order. -/
structure Inv (s : HostSys Q) : Prop where
  fresh : ∀ b, s.next ≤ b → s.block b = none
  ok : ∀ q e, s.qp q = some e → s.QpOk q e

/-- Blocks are only added, and under new numbers. -/
structure Grows (s s' : HostSys Q) : Prop where
  next : s.next ≤ s'.next
  kept : ∀ b < s.next, s'.block b = s.block b
  fresh : ∀ b, s'.next ≤ b → s'.block b = none

section Frame

variable {s s' : HostSys Q} {q : Q} {e e' : ExportedQp}

omit [DecidableEq Q] in
theorem Inv.lt_next (h : s.Inv) {b : ℕ} {blk : Block Q} (hb : s.block b = some blk) :
    b < s.next := by
  by_contra hlt
  rw [h.fresh b (not_lt.1 hlt)] at hb
  cases hb

omit [DecidableEq Q] in
theorem Grows.block_eq (hg : s.Grows s') (h : s.Inv) {b : ℕ} {blk : Block Q}
    (hb : s.block b = some blk) : s'.block b = some blk :=
  (hg.kept b (h.lt_next hb)).trans hb

theorem assisted_congr (hnic : e'.nicHandler = e.nicHandler)
    (hmode : e'.sendDbrModeExt = e.sendDbrModeExt) : e'.Assisted ↔ e.Assisted := by
  rw [ExportedQp.Assisted, ExportedQp.Assisted, hnic, hmode]

omit [DecidableEq Q] in
/-- New blocks and a new device pointer leave the pointer in order. -/
theorem QpOk.frame (hok : s.QpOk q e) (h : s.Inv) (hg : s.Grows s') (hhome : s'.home q = s.home q)
    (hproxy : e'.cpuProxy = e.cpuProxy) (hdb : e'.cpuDb = e.cpuDb)
    (hnic : e'.nicHandler = e.nicHandler) (hmode : e'.sendDbrModeExt = e.sendDbrModeExt) :
    s'.QpOk q e' := by
  have hassisted := assisted_congr hnic hmode
  refine ⟨fun hp hn => ?_, fun hp hn => ?_, fun ha b hb => ?_, fun ha hn p hp => ?_⟩
  · obtain ⟨b, t, hcpu, hb⟩ := hok.word (hproxy ▸ hp) (hnic ▸ hn)
    exact ⟨b, t, hdb.trans hcpu, hg.block_eq h hb⟩
  · exact hassisted.2 (hok.assisted (hproxy ▸ hp) (hnic ▸ hn))
  · obtain ⟨i, hcpu, blk, hblk, hat⟩ := hok.placed (hassisted.1 ha) b (hhome ▸ hb)
    exact ⟨i, hdb.trans hcpu, blk, hg.block_eq h hblk, hat⟩
  · obtain ⟨hnone, hlt⟩ := hok.left (hassisted.1 ha) (hhome ▸ hn) p (hdb ▸ hp)
    exact ⟨(hg.kept _ hlt).trans hnone, hlt.trans_le hg.next⟩

omit [DecidableEq Q] in
/-- The device copy is put in a new place, which stays allocated or does not. -/
theorem QpOk.moved (hok : s.QpOk q e) (h : s.Inv) (hg : s.Grows s') {p : Ptr}
    (hproxy : e'.cpuProxy = e.cpuProxy) (hdb : e'.cpuDb = if e.Assisted then some p else e.cpuDb)
    (hnic : e'.nicHandler = e.nicHandler) (hmode : e'.sendDbrModeExt = e.sendDbrModeExt)
    (hnew : s'.home q = some p.block ∧ s'.AllocatedFor p q ∨
      s'.home q = none ∧ s'.block p.block = none ∧ p.block < s'.next) : s'.QpOk q e' := by
  have hassisted := assisted_congr hnic hmode
  refine ⟨fun hp hn => ?_, fun hp hn => ?_, fun ha b hb => ?_, fun ha hn p' hp => ?_⟩
  · obtain ⟨b, t, hcpu, hb⟩ := hok.word (hproxy ▸ hp) (hnic ▸ hn)
    refine ⟨b, t, ?_, hg.block_eq h hb⟩
    rw [hdb, if_neg fun ha => ha.2 (hnic ▸ hn), hcpu]
  · exact hassisted.2 (hok.assisted (hproxy ▸ hp) (hnic ▸ hn))
  · obtain ⟨hhome, hat⟩ := hnew.resolve_right fun hn => by simp [hn.1] at hb
    obtain rfl : p.block = b := Option.some.inj (hhome.symm.trans hb)
    exact ⟨p.slot, hdb.trans (if_pos (hassisted.1 ha)), hat⟩
  · obtain ⟨-, hleft⟩ := hnew.resolve_left fun hs => by simp [hs.1] at hn
    rw [hdb, if_pos (hassisted.1 ha)] at hp
    obtain rfl := Option.some.inj hp
    exact hleft

omit [DecidableEq Q] in
theorem Inv.frame (h : s.Inv) (hg : s.Grows s') (hqp : s'.qp = s.qp) (hhome : s'.home = s.home) :
    s'.Inv :=
  ⟨hg.fresh, fun q e he => (h.ok q e (hqp ▸ he)).frame h hg (by rw [hhome]) rfl rfl rfl rfl⟩

end Frame

section Operations

variable {s : HostSys Q} {q : Q} {kind : BlockKind Q}

omit [DecidableEq Q] in
/-- An allocation adds a block, or none. -/
theorem Inv.grows (h : s.Inv) (kind : BlockKind Q) (o : AllocOutcome) :
    s.Grows (s.alloc kind o) := by
  cases o with
  | fails => exact ⟨le_rfl, fun _ _ => rfl, h.fresh⟩
  | entryLost | ok =>
    refine ⟨Nat.le_succ _, fun b hb => Function.update_of_ne hb.ne .., fun b hb => ?_⟩
    have hb : s.next < b := hb
    exact (Function.update_of_ne hb.ne' ..).trans (h.fresh b hb.le)

omit [DecidableEq Q] in
/-- An allocation that is undone adds no block. -/
theorem Inv.grows_undone (h : s.Inv) (kind : BlockKind Q) :
    s.Grows { s.alloc kind .ok with
      block := Function.update (s.alloc kind .ok).block s.next none } := by
  refine ⟨Nat.le_succ _, fun b hb => ?_, fun b hb => ?_⟩
  · exact (Function.update_of_ne hb.ne ..).trans ((h.grows kind .ok).kept b hb)
  · have hb : s.next < b := hb
    exact (Function.update_of_ne hb.ne' ..).trans ((h.grows kind .ok).fresh b hb)

omit [DecidableEq Q] in
theorem Inv.alloc (h : s.Inv) (o : AllocOutcome) : (s.alloc kind o).Inv := by
  refine h.frame (h.grows kind o) ?_ ?_ <;> cases o <;> rfl

/-- Only one QP changes. -/
theorem Inv.set (h : s.Inv) {s' : HostSys Q} (hg : s.Grows s') {e : ExportedQp}
    (hqp : s'.qp = Function.update s.qp q (some e)) (hhome : ∀ r ≠ q, s'.home r = s.home r)
    (hok : s'.QpOk q e) : s'.Inv := by
  refine ⟨hg.fresh, fun r d hd => ?_⟩
  rw [hqp] at hd
  obtain rfl | hr := eq_or_ne r q
  · rw [Function.update_self] at hd
    cases hd
    exact hok
  · rw [Function.update_of_ne hr] at hd
    exact (h.ok r d hd).frame h hg (hhome r hr) rfl rfl rfl rfl

omit [DecidableEq Q] in
theorem chosenHandler_ne {a : ExportArgs} (h : needsProxy a = false) :
    chosenHandler a ≠ .cpuProxy := by
  rw [chosenHandler]
  split
  · split <;> nofun
  · intro hn
    simp [needsProxy, hn] at h

theorem Inv.exportQp (h : s.Inv) (a : ExportArgs) : (s.exportQp q a).Inv := by
  rw [HostSys.exportQp]
  have hhome {r : Q} (hr : r ≠ q) : Function.update s.home q none r = s.home r :=
    Function.update_of_ne hr ..
  by_cases hskip : (s.qp q).isSome || exportRefused a
  · rw [if_pos hskip]
    exact h
  rw [if_neg hskip]
  cases hneeds : needsProxy a with
  | true =>
    rw [if_pos rfl]
    by_cases hfails : a.alloc ≠ .ok || a.lateFails
    · simp only [if_pos hfails]
      exact h.alloc _
    · simp only [if_neg hfails]
      obtain ⟨hok, -⟩ : a.alloc = .ok ∧ a.lateFails = false := by simpa using hfails
      have hg := h.grows (.word q) .ok
      rw [hok]
      refine h.set ⟨hg.next, hg.kept, hg.fresh⟩ rfl (fun r hr => hhome hr) ?_
      exact ⟨fun _ _ => ⟨s.next, true, rfl, Function.update_self ..⟩, fun _ hn => (hn rfl).elim,
        fun ha => (ha.2 rfl).elim, fun ha => (ha.2 rfl).elim⟩
  | false =>
    rw [if_neg Bool.false_ne_true]
    by_cases hlate : a.lateFails
    · rw [if_pos hlate]
      exact h
    · rw [if_neg hlate]
      refine h.set ⟨le_rfl, fun _ _ => rfl, h.fresh⟩ rfl (fun r hr => hhome hr) ?_
      have hnic := chosenHandler_ne hneeds
      refine ⟨fun _ hn => (hnic hn).elim, fun hp _ => ⟨of_decide_eq_true hp, hnic⟩,
        fun _ b hb => ?_, fun _ _ p hp => nomatch hp⟩
      exact nomatch (Function.update_self ..).symm.trans hb

theorem Inv.getQpDev (h : s.Inv) (o : AllocOutcome) (memcpy : Bool) :
    (s.getQpDev q o memcpy).Inv := by
  rw [HostSys.getQpDev]
  cases he : s.qp q with
  | none => exact h
  | some e =>
    have hq := h.ok q e he
    by_cases hgpu : e.qpGpu ≠ none
    · simp only [if_pos hgpu]
      exact h
    simp only [if_neg hgpu]
    cases o with
    | fails => exact h
    | entryLost =>
      have hg := h.grows (.dev q) .entryLost
      exact h.set ⟨hg.next, hg.kept, hg.fresh⟩ rfl (fun _ _ => rfl)
        (hq.frame h ⟨hg.next, hg.kept, hg.fresh⟩ rfl rfl rfl rfl rfl)
    | ok =>
      cases memcpy with
      | false =>
        have hg := h.grows_undone (.dev q)
        exact h.set ⟨hg.next, hg.kept, hg.fresh⟩ rfl (fun _ _ => rfl)
          (hq.frame h ⟨hg.next, hg.kept, hg.fresh⟩ rfl rfl rfl rfl rfl)
      | true =>
        have hg := h.grows (.dev q) .ok
        refine h.set ⟨hg.next, hg.kept, hg.fresh⟩ rfl (fun r hr => Function.update_of_ne hr ..)
          (hq.moved h ⟨hg.next, hg.kept, hg.fresh⟩ rfl rfl rfl rfl (.inl ?_))
        exact ⟨Function.update_self .., ⟨.dev q, true⟩, Function.update_self .., rfl, rfl⟩

omit [DecidableEq Q] in
theorem place_place (b i j : ℕ) (e : ExportedQp) : place b i (place b j e) = place b i e := by
  by_cases ha : e.Assisted
  · have ha' : (place b j e).Assisted := by
      rw [place, if_pos ha]
      exact ha
    rw [place, if_pos ha', place, place, if_pos ha, if_pos ha]
  · have ha' : ¬ (place b j e).Assisted := by
      rw [place, if_neg ha]
      exact ha
    rw [place, if_neg ha', place, place, if_neg ha, if_neg ha]

theorem placeAll_of_notMem {b : ℕ} {qs : List Q} {qp : Q → Option ExportedQp} (h : q ∉ qs) :
    placeAll b qs qp q = qp q :=
  Loop.each_of_notMem (by rwa [List.zipIdx_map_fst])

/-- A QP that the array contains is placed at one of the positions it has there. -/
theorem placeAll_of_mem {qs : List Q} (b : ℕ) (qp : Q → Option ExportedQp) (h : q ∈ qs) :
    ∃ i, qs[i]? = some q ∧ placeAll b qs qp q = (qp q).map (place b i) := by
  have hf (x y : Q × ℕ) (d : Option ExportedQp) :
      (d.map (place b y.2)).map (place b x.2) = d.map (place b x.2) := by
    cases d with
    | none => rfl
    | some e => exact congrArg some (place_place b x.2 y.2 e)
  obtain ⟨⟨r, i⟩, hmem, rfl, hall⟩ := Loop.each_of_mem hf (s := qp)
    (show q ∈ qs.zipIdx.map Prod.fst by rwa [List.zipIdx_map_fst])
  exact ⟨i, List.mk_mem_zipIdx_iff_getElem?.1 hmem, hall⟩

/-- The array is filled in: each QP in it moves there, the others stay. -/
theorem Inv.placed (h : s.Inv) {s' : HostSys Q} {qs : List Q} (hg : s.Grows s')
    (hqp : s'.qp = placeAll s.next qs s.qp) (hout : ∀ r ∉ qs, s'.home r = s.home r)
    (hin : ∀ r ∈ qs, ∀ i, qs[i]? = some r →
      s'.home r = some s.next ∧ s'.AllocatedFor ⟨s.next, i⟩ r ∨
      s'.home r = none ∧ s'.block s.next = none ∧ s.next < s'.next) : s'.Inv := by
  refine ⟨hg.fresh, fun r d hd => ?_⟩
  rw [hqp] at hd
  by_cases hr : r ∈ qs
  · obtain ⟨i, hi, hall⟩ := placeAll_of_mem s.next s.qp hr
    rw [hall] at hd
    obtain ⟨e, he, rfl⟩ := Option.map_eq_some_iff.1 hd
    refine (h.ok r e he).moved h hg (p := ⟨s.next, i⟩) ?_ ?_ ?_ ?_ (hin r hr i hi) <;>
      rw [place] <;> split <;> rfl
  · rw [placeAll_of_notMem hr] at hd
    exact (h.ok r d hd).frame h hg (hout r hr) rfl rfl rfl rfl

theorem Inv.exportMultiQpsDev (h : s.Inv) (qs : List Q) (o : AllocOutcome) (calloc memcpy : Bool) :
    (s.exportMultiQpsDev qs o calloc memcpy).Inv := by
  rw [HostSys.exportMultiQpsDev]
  by_cases hqs : qs = []
  · rw [if_pos hqs]
    exact h
  rw [if_neg hqs]
  by_cases hfails : o ≠ .ok || !calloc
  · simp only [if_pos hfails]
    exact h.alloc _
  simp only [if_neg hfails]
  obtain ⟨rfl, -⟩ : o = .ok ∧ calloc = true := by simpa using hfails
  cases memcpy with
  | false =>
    have hg := h.grows_undone (.array qs)
    refine h.placed ⟨hg.next, hg.kept, hg.fresh⟩ rfl (fun r hr => if_neg hr)
      fun r hr i hi => .inr ?_
    exact ⟨if_pos hr, Function.update_self .., Nat.lt_succ_self _⟩
  | true =>
    have hg := h.grows (.array qs) .ok
    refine h.placed ⟨hg.next, hg.kept, hg.fresh⟩ rfl (fun r hr => if_neg hr)
      fun r hr i hi => .inl ?_
    exact ⟨if_pos hr, ⟨.array qs, true⟩, Function.update_self .., hi⟩

omit [DecidableEq Q] in
/-- A block of device copies is freed: it is no longer their home, and their pointers point to
nothing. -/
theorem Inv.removed (h : s.Inv) {c : ℕ} (hc : c < s.next)
    (hword : ∀ r t, s.block c ≠ some ⟨.word r, t⟩) :
    Inv { s with
      block := Function.update s.block c none
      home := fun r => if s.home r = some c then none else s.home r } := by
  have hkept {b : ℕ} (hb : b ≠ c) : Function.update s.block c none b = s.block b :=
    Function.update_of_ne hb ..
  refine ⟨fun b hb => (hkept (hc.trans_le hb).ne').trans (h.fresh b hb), fun r e he => ?_⟩
  have hok := h.ok r e he
  refine ⟨fun hp hn => ?_, hok.assisted, fun ha b hb => ?_, fun ha hn d hd => ?_⟩
  · obtain ⟨b, t, hcpu, hb⟩ := hok.word hp hn
    exact ⟨b, t, hcpu, (hkept fun heq => hword r t (heq ▸ hb)).trans hb⟩
  · obtain ⟨hne, hb⟩ := Option.ite_none_left_eq_some.1 hb
    obtain ⟨i, hcpu, blk, hblk, hat⟩ := hok.placed ha b hb
    exact ⟨i, hcpu, blk, (hkept fun heq => hne (heq ▸ hb)).trans hblk, hat⟩
  · by_cases hhome : s.home r = some c
    · obtain ⟨i, hcpu, -⟩ := hok.placed ha c hhome
      obtain rfl := Option.some.inj (hcpu.symm.trans hd)
      exact ⟨Function.update_self .., hc⟩
    · obtain ⟨hnone, hdlt⟩ := hok.left ha ((if_neg hhome).symm.trans hn) d hd
      refine ⟨?_, hdlt⟩
      by_cases heq : d.block = c
      · exact heq ▸ Function.update_self ..
      · exact (hkept heq).trans hnone

omit [DecidableEq Q] in
theorem Inv.free (h : s.Inv) (p : Ptr) : (s.free p).Inv := by
  rw [HostSys.free]
  split
  case h_1 r hb | h_2 qs hb =>
    split
    · exact h.removed (h.lt_next hb) (by simp [hb])
    · exact h
  case h_3 => exact h

/-- The device pointers are forgotten. -/
theorem Inv.unexportMultiQpsDev (h : s.Inv) (qs : List Q) (qpGpus : Ptr) :
    (s.unexportMultiQpsDev qs qpGpus).Inv := by
  rw [HostSys.unexportMultiQpsDev]
  by_cases hqs : qs = []
  · rw [if_pos hqs]
    exact h
  rw [if_neg hqs]
  have hg : s.Grows { s with qp := fun q =>
      if q ∈ qs then (s.qp q).map fun e => { e with qpGpu := none, qpGpuH := none } else s.qp q } :=
    ⟨le_rfl, fun _ _ => rfl, h.fresh⟩
  refine Inv.free ?_ qpGpus
  refine ⟨h.fresh, fun r d hd => ?_⟩
  by_cases hr : r ∈ qs
  · obtain ⟨e, he, rfl⟩ := Option.map_eq_some_iff.1 ((if_pos hr).symm.trans hd)
    exact (h.ok r e he).frame h hg rfl rfl rfl rfl rfl
  · exact (h.ok r d ((if_neg hr).symm.trans hd)).frame h hg rfl rfl rfl rfl rfl

/-- **Every call keeps the pointers in order.** -/
theorem Inv.step (h : s.Inv) (event : HostEvent Q) : (s.step event).Inv := by
  cases event with
  | exportQp q a => exact h.exportQp a
  | getQpDev q o memcpy => exact h.getQpDev o memcpy
  | exportMultiQpsDev qs o calloc memcpy => exact h.exportMultiQpsDev qs o calloc memcpy
  | unexportMultiQpsDev qs qpGpus => exact h.unexportMultiQpsDev qs qpGpus
  | monitorQp q => exact h.frame ⟨le_rfl, fun _ _ => rfl, h.fresh⟩ rfl rfl
  | progress _ | reset _ | serviceRound => exact h

omit [DecidableEq Q] in
theorem Inv.empty : (empty : HostSys Q).Inv := ⟨fun _ _ => rfl, nofun⟩

omit [DecidableEq Q] in
/-- The pointer of an exported QP is good if it is a host word, or has a home. -/
theorem Inv.cpuDbOk_iff (h : s.Inv) : s.CpuDbOk q ↔ s.CpuDbMeets q := by
  refine forall_congr' fun e => forall_congr' fun he => forall_congr' fun hp => ?_
  have hok := h.ok q e he
  by_cases hn : e.nicHandler = .cpuProxy
  · obtain ⟨b, t, hcpu, hb⟩ := hok.word hp hn
    exact iff_of_true ⟨⟨b, 0⟩, hcpu, ⟨.word q, t⟩, hb, rfl, rfl⟩ (.inl hn)
  rw [or_iff_right hn]
  have ha := hok.assisted hp hn
  cases hhome : s.home q with
  | none =>
    refine iff_of_false ?_ (not_not.2 rfl)
    rintro ⟨p, hcpu, blk, hblk, -⟩
    rw [(hok.left ha hhome p hcpu).1] at hblk
    cases hblk
  | some b =>
    obtain ⟨i, hcpu, hat⟩ := hok.placed ha b hhome
    exact iff_of_true ⟨⟨b, i⟩, hcpu, hat⟩ nofun

end Operations

/-- **When `cpu_db` may be used.** Along any history of exports, placements and un-exports, for any
arguments and any outcomes of the calls they make, `cpu_db` points into memory allocated for the QP
at every progress, reset and service round if and only if, each time, the QP uses the CPU proxy or
the block in which the last successful placement put its device copy has not been freed since. -/
theorem cpuDb_iff (es : List (HostEvent Q)) :
    Along step (Uses CpuDbOk) empty es ↔ Along step (Uses CpuDbMeets) empty es := by
  refine along_iff Inv.empty (fun s event h => ?_) fun s event h _ => h.step event
  cases event with
  | progress q | reset q => exact h.cpuDbOk_iff
  | serviceRound => exact forall_congr' fun q => forall_congr' fun _ => h.cpuDbOk_iff
  | _ => exact Iff.rfl

/-- A QP in the software-emulated mode is exported, placed in an array and un-exported from it;
`cpu_proxy` is still set, and progress reads through a pointer to the freed array. Before it is
placed `cpu_db` is null. -/
theorem dangles_after_unexport :
    let a : ExportArgs :=
      ⟨false, .gpuSmNoDbr, .noDbrSwEmulated, true, .noDbrExt, false, false, .ok, false⟩
    let es : List (HostEvent Unit) :=
      [.exportQp () a, .exportMultiQpsDev [()] .ok true true, .unexportMultiQpsDev [()] ⟨0, 0⟩]
    ¬ Along step (Uses CpuDbOk) empty (es ++ [.progress ()]) ∧
      ¬ Along step (Uses CpuDbOk) empty [.exportQp () a, .progress ()] ∧
      (run step empty es).qp () =
        some ⟨.noDbrSwEmulated, .gpuSmNoDbr, true, some ⟨0, 0⟩, none, none⟩ ∧
      (run step empty es).block 0 = none := by
  refine ⟨fun h => ?_, fun h => ?_, rfl, rfl⟩
  · obtain ⟨p, hp, blk, hblk, -⟩ := h.2.2.2.1 _ rfl rfl
    cases hp
    cases hblk
  · obtain ⟨p, hp, -⟩ := h.2.1 _ rfl rfl
    cases hp

end HostSys

end Gpunetio
